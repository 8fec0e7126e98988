import NumericJit.Wasm.Module

/-!
# Modules as bytes

The binary format: a header, then the sections for types, imports, functions, exports and code,
each of them always present. Integers are written in groups of seven bits, least significant group
first, in as few groups as they need.

The format counts in 32 bits. A section of 2^32 bytes or more has bytes here but no size that can be
written; a program that is to write one stops.
-/

namespace NumericJit.Wasm

abbrev Bytes := List UInt8

/-- Seven-bit groups of a natural; every byte but the last has its top bit set. -/
def lebWith : Nat → Nat → Bytes
  | 0, n => [n.toUInt8]
  | fuel + 1, n =>
    if n < 128 then [n.toUInt8] else (n % 128 + 128).toUInt8 :: lebWith fuel (n / 128)

def leb (n : Nat) : Bytes := lebWith n n

def numberBytes (x : Number) : Bytes :=
  (List.range 8).map fun i => (x.bits >>> (8 * i).toUInt64).toUInt8

def sized (bytes : Bytes) : Bytes := leb bytes.length ++ bytes

def vec (entries : List Bytes) : Bytes := leb entries.length ++ entries.flatten

def nameBytes (name : String) : Bytes := sized name.toUTF8.toList

def numType : UInt8 := 0x7C

mutual
def Op.bytes : Op → Bytes
  | .const value => 0x44 :: numberBytes value
  | .localGet i => 0x20 :: leb i
  | .localSet i => 0x21 :: leb i
  | .localTee i => 0x22 :: leb i
  | .add => [0xA0]
  | .sub => [0xA1]
  | .mul => [0xA2]
  | .abs => [0x99]
  | .ge => [0x66]
  | .gt => [0x64]
  | .eqz => [0x45]
  | .convert => [0xB8]
  | .call index => 0x10 :: leb index
  | .drop => [0x1A]
  | .loop body => [0x03, 0x40] ++ Op.bytesAll body ++ [0x0B]
  | .brIf depth => 0x0D :: leb depth
  | .ifElse yes no => [0x04, numType] ++ Op.bytesAll yes ++ [0x05] ++ Op.bytesAll no ++ [0x0B]

def Op.bytesAll : List Op → Bytes
  | [] => []
  | op :: rest => Op.bytes op ++ Op.bytesAll rest
end

def typeBytes (params : Nat) : Bytes :=
  0x60 :: vec (List.replicate params [numType]) ++ [0x01, numType]

def importModule : String := "env"

def importBytes (entry : String × Nat) : Bytes :=
  nameBytes importModule ++ nameBytes entry.1 ++ 0x00 :: leb entry.2

def exportBytes (entry : String × Nat) : Bytes := nameBytes entry.1 ++ 0x00 :: leb entry.2

def localsBytes (count : Nat) : Bytes :=
  if count = 0 then [0x00] else 0x01 :: leb count ++ [numType]

def Func.content (f : Func) : Bytes := localsBytes f.locals ++ Op.bytesAll f.body ++ [0x0B]

def Func.bytes (f : Func) : Bytes := sized f.content

def sectionBytes (id : UInt8) (content : Bytes) : Bytes := id :: sized content

def header : Bytes := [0x00, 0x61, 0x73, 0x6D, 0x01, 0x00, 0x00, 0x00]

def Module.bytes (m : Module) : Bytes :=
  header
    ++ sectionBytes 1 (vec (m.types.map typeBytes))
    ++ sectionBytes 2 (vec (m.imports.map importBytes))
    ++ sectionBytes 3 (vec (m.functions.map fun f => leb f.typeIndex))
    ++ sectionBytes 7 (vec (m.exports.map exportBytes))
    ++ sectionBytes 10 (vec (m.functions.map Func.bytes))

end NumericJit.Wasm
