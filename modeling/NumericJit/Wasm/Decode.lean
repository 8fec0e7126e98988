import NumericJit.Wasm.Bytes

/-!
# Reading modules

The inverse of writing a module as bytes, and of turning a unit into a module: bytes are read as a
module, and a module as the functions of a unit, with calls by name again. Only the forms that are
written are read.
-/

namespace NumericJit.Wasm

abbrev ByteReader (α : Type) := Bytes → Option (α × Bytes)

namespace ByteReader

def expect (bytes : Bytes) : ByteReader Unit := fun bs =>
  if bytes.isPrefixOf bs then some ((), bs.drop bytes.length) else none

/-- Seven-bit groups, least significant first. A last group of zero behind others is refused. -/
def leb : ByteReader Nat
  | [] => none
  | b :: rest =>
    if b < 128 then some (b.toNat, rest)
    else
      match leb rest with
      | some (0, _) => none
      | some (n, rest) => some (b.toNat - 128 + 128 * n, rest)
      | none => none

def times {α : Type} (reader : ByteReader α) : Nat → ByteReader (List α)
  | 0, bs => some ([], bs)
  | count + 1, bs => do
    let (x, bs) ← reader bs
    let (xs, bs) ← times reader count bs
    some (x :: xs, bs)

def vec {α : Type} (reader : ByteReader α) : ByteReader (List α) := fun bs => do
  let (count, bs) ← leb bs
  times reader count bs

/-- Bytes behind their count, all of which the reader has to take. -/
def sized {α : Type} (reader : ByteReader α) : ByteReader α := fun bs => do
  let (count, bs) ← leb bs
  if bs.length < count then none
  else
    match reader (bs.take count) with
    | some (x, []) => some (x, bs.drop count)
    | _ => none

def text : ByteReader String := fun bs => (String.fromUTF8? ⟨bs.toArray⟩).map fun s => (s, [])

def name : ByteReader String := sized text

def number : ByteReader Number
  | b0 :: b1 :: b2 :: b3 :: b4 :: b5 :: b6 :: b7 :: rest =>
    some (⟨[b7, b6, b5, b4, b3, b2, b1, b0].foldl (fun n b => n <<< 8 ||| b.toUInt64) 0⟩, rest)
  | _ => none

/-- One operation. `block` reads the operations of a block, and the byte behind them. -/
def operation (block : Bytes → Option (List Op × UInt8 × Bytes)) : ByteReader Op
  | 0x44 :: rest => (number rest).map fun (x, rest) => (.const x, rest)
  | 0x20 :: rest => (leb rest).map fun (i, rest) => (.localGet i, rest)
  | 0x21 :: rest => (leb rest).map fun (i, rest) => (.localSet i, rest)
  | 0x22 :: rest => (leb rest).map fun (i, rest) => (.localTee i, rest)
  | 0xA0 :: rest => some (.add, rest)
  | 0xA1 :: rest => some (.sub, rest)
  | 0xA2 :: rest => some (.mul, rest)
  | 0x99 :: rest => some (.abs, rest)
  | 0x66 :: rest => some (.ge, rest)
  | 0x64 :: rest => some (.gt, rest)
  | 0x45 :: rest => some (.eqz, rest)
  | 0xB8 :: rest => some (.convert, rest)
  | 0x10 :: rest => (leb rest).map fun (i, rest) => (.call i, rest)
  | 0x1A :: rest => some (.drop, rest)
  | 0x0D :: rest => (leb rest).map fun (i, rest) => (.brIf i, rest)
  | 0x03 :: 0x40 :: rest =>
    match block rest with
    | some (body, 0x0B, rest) => some (.loop body, rest)
    | _ => none
  | 0x04 :: 0x7C :: rest =>
    match block rest with
    | some (yes, 0x05, rest) =>
      match block rest with
      | some (no, 0x0B, rest) => some (.ifElse yes no, rest)
      | _ => none
    | _ => none
  | _ => none

/-- Whether a byte ends a block, or its first half. -/
def endsBlock (b : UInt8) : Bool := b == 0x0B || b == 0x05

def opsUntil : Nat → Bytes → Option (List Op × UInt8 × Bytes)
  | 0, _ => none
  | _, [] => none
  | fuel + 1, b :: rest =>
    if endsBlock b then some ([], b, rest)
    else do
      let (op, rest) ← operation (opsUntil fuel) (b :: rest)
      let (ops, last, rest) ← opsUntil fuel rest
      some (op :: ops, last, rest)

def funcType : ByteReader Nat := fun bs => do
  let (_, bs) ← expect [0x60] bs
  let (params, bs) ← vec (expect [numType]) bs
  let (_, bs) ← expect [0x01, numType] bs
  some (params.length, bs)

def importEntry : ByteReader (String × Nat) := fun bs => do
  let (_, bs) ← expect (nameBytes importModule) bs
  let (n, bs) ← name bs
  let (_, bs) ← expect [0x00] bs
  let (index, bs) ← leb bs
  some ((n, index), bs)

def exportEntry : ByteReader (String × Nat) := fun bs => do
  let (n, bs) ← name bs
  let (_, bs) ← expect [0x00] bs
  let (index, bs) ← leb bs
  some ((n, index), bs)

def localCount : ByteReader Nat := fun bs => do
  let (groups, bs) ← leb bs
  match groups with
  | 0 => some (0, bs)
  | 1 =>
    let (count, bs) ← leb bs
    let (_, bs) ← expect [numType] bs
    some (count, bs)
  | _ => none

def codeEntry : ByteReader (Nat × List Op) := sized fun bs => do
  let (locals, bs) ← localCount bs
  match opsUntil (bs.length + 1) bs with
  | some (body, 0x0B, bs) => some ((locals, body), bs)
  | _ => none

def part {α : Type} (id : UInt8) (reader : ByteReader α) : ByteReader (List α) := fun bs => do
  let (_, bs) ← expect [id] bs
  sized (vec reader) bs

end ByteReader

open ByteReader in
/-- Reads bytes as a module; all of them have to belong to it. -/
def Module.ofBytes? (bs : Bytes) : Option Module := do
  let (_, bs) ← expect header bs
  let (types, bs) ← part 1 funcType bs
  let (imports, bs) ← part 2 importEntry bs
  let (indices, bs) ← part 3 ByteReader.leb bs
  let (exports, bs) ← part 7 exportEntry bs
  let (codes, bs) ← part 10 codeEntry bs
  if bs.isEmpty && indices.length == codes.length then
    let functions := List.zipWith (fun index (code : Nat × List Op) => ⟨index, code.1, code.2⟩)
      indices codes
    some { types, imports, functions, exports }
  else none

-- From modules back to slot code

structure ShownFunction where
  name : String
  arity : Nat
  locals : Nat
  body : Code

structure ShownUnit where
  externals : List (String × Nat)
  functions : List ShownFunction

def Module.callables? (m : Module) : Option (List (String × Nat)) := do
  let imports ← m.imports.mapM fun (name, index) => (m.types[index]?).map fun arity => (name, arity)
  let own ← (List.zip m.exports m.functions).mapM fun (entry, f) =>
    (m.types[f.typeIndex]?).map fun arity => (entry.1, arity)
  some (imports ++ own)

mutual
/-- Instructions from operations. A comparison is written as its opposite turned around, and the
test of a number as a comparison of its absolute value with zero. -/
def instrsOfOps? (callables : List (String × Nat)) : List Op → Option Code
  | [] => some []
  | .ge :: .eqz :: rest => (instrsOfOps? callables rest).map (.ltUnordered :: ·)
  | .abs :: .const x :: .gt :: rest =>
    if x.bits = 0 then (instrsOfOps? callables rest).map (.numberToBool :: ·) else none
  | op :: rest => do
    let i ← instrOfOp? callables op
    let code ← instrsOfOps? callables rest
    some (i :: code)

def instrOfOp? (callables : List (String × Nat)) : Op → Option Instr
  | .const x => some (.const x)
  | .localGet i => some (.load i)
  | .localSet i => some (.store i)
  | .localTee i => some (.tee i)
  | .add => some .add
  | .sub => some .sub
  | .mul => some .mul
  | .convert => some .boolToNumber
  | .call index => (callables[index]?).map fun (name, arity) => .call name arity
  | .drop => some .drop
  | .brIf _ => some .continueIf
  | .loop body => (instrsOfOps? callables body).map .loop
  | .ifElse yes no => do
    let yes ← instrsOfOps? callables yes
    let no ← instrsOfOps? callables no
    some (.branch yes no)
  | .abs | .ge | .gt | .eqz => none
end

def Module.functionAt? (m : Module) (callables : List (String × Nat)) (i : Nat) (f : Func)
    (entry : String × Nat) : Option ShownFunction := do
  let arity ← m.types[f.typeIndex]?
  let body ← instrsOfOps? callables f.body
  if entry.2 = m.imports.length + i then some ⟨entry.1, arity, f.locals, body⟩ else none

/-- The unit that a module shows: what it imports, and its functions, each exported under its own
index. -/
def Module.unit? (m : Module) : Option ShownUnit := do
  let callables ← m.callables?
  if m.exports.length = m.functions.length then
    let functions ← ((m.functions.zip m.exports).zipIdx).mapM fun ((f, entry), i) =>
      m.functionAt? callables i f entry
    some { externals := callables.take m.imports.length, functions }
  else none

end NumericJit.Wasm
