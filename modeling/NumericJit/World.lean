/-!
# The world of running code

Code can do two things besides computing: write bytes, and call host functions, which keep a state
of their own. A host function cannot see what was written.
-/

namespace NumericJit

structure World (S : Type) where
  output : ByteArray := .empty
  state : S

namespace World

variable {S : Type}

def write (w : World S) (bytes : ByteArray) : World S := { w with output := w.output ++ bytes }

def print (w : World S) (text : String) : World S := w.write text.toUTF8

end World
end NumericJit
