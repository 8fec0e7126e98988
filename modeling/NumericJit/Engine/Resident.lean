import NumericJit.Engine.Interface
import NumericJit.NameTable
import NumericJit.Wasm.Decode
import NumericJit.Wasm.Encode
import NumericJit.Wasm.Exec

/-!
# The compiling engine

A unit is encoded as a module. The module is compiled from its bytes and linked to what is already
resident, and then the functions that it exports become resident. What is resident is kept twice:
the functions by address, and the address of each name. Both are written by `publish` and nowhere
else. Addresses are places in a list that only ever grows at its end, and links are addresses, so
what a function calls is settled when its unit is finalized.

Finalizing a unit can go wrong at many places, and the engine that it leaves is part of every
answer. That it is the same engine where something went wrong, and that bytes which were encoded can
be compiled, linked and asked for their exports, is not built in.

Every module that can be read from its bytes is compiled. A compiler that gives up on code which is
too large for it is not described.
-/

namespace NumericJit

inductive ResidentBody (S : Type) where
  | host (run : List Number → S → HostReply S)
  /-- Module code; `links` gives the address of each function index. -/
  | code (locals : Nat) (body : List Wasm.Op) (links : List Nat)

structure ResidentFunction (S : Type) where
  name : String
  arity : Nat
  body : ResidentBody S

structure Instance where
  module : Wasm.Module
  links : List Nat

structure Limits where
  /-- Calls inside calls. The call stack of the machine has a size in bytes, and how many calls it
  holds depends on what they are; this number stands for that size. -/
  callDepth : Nat := 1200
  /-- Rounds of one loop. The machine sets no bound, and this one is past every run that can be
  waited for. -/
  loopRounds : Nat := Nat.pow 2 60

structure ResidentEngine (S : Type) where
  limits : Limits := {}
  addresses : NameTable Nat := {}
  symbols : List (ResidentFunction S) := []
  instances : List Instance := []

def Instance.export? {S : Type} (i : Instance) (name : String) : Option (ResidentFunction S) := do
  let index ← i.module.exports.lookup name
  let func ← i.module.function? index
  let arity ← i.module.types[func.typeIndex]?
  some ⟨name, arity, .code func.locals func.body i.links⟩

namespace ResidentEngine

variable {S : Type}

def names (e : ResidentEngine S) : List String := e.symbols.map (·.name)

def units (e : ResidentEngine S) : Nat := e.instances.length

def address? (e : ResidentEngine S) (name : String) : Option Nat := e.addresses.get? name

def isResident (e : ResidentEngine S) (name : String) : Bool := (e.address? name).isSome

/-- Makes a function resident at the next address. A name that has an address already gets the new
one. -/
def publish (e : ResidentEngine S) (f : ResidentFunction S) : ResidentEngine S :=
  { e with
    addresses := e.addresses.set f.name e.symbols.length
    symbols := e.symbols ++ [f] }

def declare (h : HostFunction S) (e : ResidentEngine S) : Except Failure Unit × ResidentEngine S :=
  if e.isResident h.name then (.error { cause := .hostAlreadyResident h.name }, e)
  else (.ok (), e.publish ⟨h.name, h.arity, .host h.run⟩)

/-- The addresses of imported functions by name. They must be resident with the arity they are
imported with. -/
def resolve (e : ResidentEngine S) : List (String × Nat) → Except Failure (List (String × Nat))
  | [] => .ok []
  | (name, arity) :: rest =>
    match (e.address? name).bind fun a => e.symbols[a]?.map fun f => (a, f) with
    | none => .error { cause := .unresolvedSymbol name }
    | some (address, f) =>
      if f.arity = arity then (e.resolve rest).map ((name, address) :: ·)
      else .error { cause := .importArity name f.arity arity }

def link? (e : ResidentEngine S) (m : Wasm.Module) (supplied : List (String × Nat))
    (entry : String × Nat) : Option Nat := do
  let address ← supplied.lookup entry.1
  let f ← e.symbols[address]?
  if m.types[entry.2]? = some f.arity then some address else none

/-- Links a module to what is supplied for its imports, and its own functions to the addresses that
they are about to take. -/
def instantiate? (e : ResidentEngine S) (m : Wasm.Module) (supplied : List (String × Nat)) :
    Option Instance := do
  let imports ← m.imports.mapM (e.link? m supplied)
  let own := (List.range m.functions.length).map fun i => e.symbols.length + i
  some { module := m, links := imports ++ own }

def exported (unit : Nat) (i : Instance) (names : List String) :
    Except Failure (List (ResidentFunction S)) :=
  names.mapM fun name =>
    match i.export? name with
    | some f => .ok f
    | none => .error { cause := .notExported unit name }

def finalize (u : CodeUnit) (e : ResidentEngine S) : Except Failure Unit × ResidentEngine S :=
  match Wasm.encode u with
  | .error f => (.error f, e)
  | .ok encoded =>
    match encoded.exports.find? e.isResident with
    | some name => (.error { cause := .definesResident u.id name }, e)
    | none =>
      match Wasm.Module.ofBytes? encoded.bytes with
      | none => (.error { cause := .notCompiled u.id }, e)
      | some m =>
        match e.resolve encoded.imports with
        | .error f => (.error f, e)
        | .ok supplied =>
          match e.instantiate? m supplied with
          | none => (.error { cause := .notInstantiated u.id }, e)
          | some i =>
            match exported u.id i encoded.exports with
            | .error f => (.error f, e)
            | .ok functions =>
              (.ok (), { functions.foldl publish e with instances := e.instances ++ [i] })

/-- Calls the function at an address. The first argument bounds how many calls may be inside each
other. -/
def callAt (symbols : List (ResidentFunction S)) (fuel : Nat) :
    Nat → Nat → List Number → World S → CallResult (World S)
  | 0, _, _, w => (.error (.trap .callStackExhausted), w)
  | depth + 1, address, args, w =>
    match symbols[address]? with
    | none => (.error .stuck, w)
    | some f =>
      match f.body with
      | .host run =>
        let reply := run args w.state
        (.ok reply.value, { output := w.output ++ reply.output, state := reply.state })
      | .code locals body links =>
        let callees : Wasm.Callees (World S) := {
          arity? := fun index => links[index]?.bind fun a => symbols[a]?.map (·.arity)
          call := fun index args w =>
            match links[index]? with
            | some a => callAt symbols fuel depth a args w
            | none => (.error .stuck, w) }
        Wasm.call callees fuel locals body args w

def haltCause (name : String) : Halt → Cause
  | .trap t => .trapped name t
  | .unfinished => .unfinished name
  | .stuck => .noResult name

def invoke (address : Nat) (args : List Number) (e : ResidentEngine S) (w : World S) :
    Except Failure Number × World S :=
  match e.symbols[address]? with
  | none => (.error { cause := .noFunctionAt address }, w)
  | some f =>
    if f.arity = args.length then
      match callAt e.symbols e.limits.loopRounds e.limits.callDepth address args w with
      | (.ok v, w) => (.ok v, w)
      | (.error why, w) => (.error { cause := haltCause f.name why }, w)
    else (.error { cause := .invokedArity f.name f.arity args.length }, w)

end ResidentEngine

instance {S : Type} : Engine (ResidentEngine S) S where
  declare h e := e.declare h
  finalize u e := e.finalize u
  address? e name := e.address? name
  invoke address args e w := let (result, w) := e.invoke address args w; (result, e, w)

end NumericJit
