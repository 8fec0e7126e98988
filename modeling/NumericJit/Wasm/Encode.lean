import NumericJit.Wasm.Bytes
import NumericJit.Wasm.Validity

/-!
# Encoding a unit

A unit is encoded as one valid module, or not at all.
-/

namespace NumericJit.Wasm

structure Encoded where
  module : Module
  bytes : Bytes
  imports : List (String × Nat)
  exports : List String

def encode (u : CodeUnit) : Except Failure Encoded := do
  let m ← moduleOf u
  if m.isValid then
    .ok {
      module := m, bytes := m.bytes, imports := u.externals, exports := u.functions.map (·.name) }
  else .error { cause := .invalidModule u.id }

end NumericJit.Wasm
