import NumericJit.Failure

/-!
# Files

A program sees the files around it as a function from paths to contents.
-/

namespace NumericJit

/-- What reading each path gives. -/
abbrev Files := String → Except FileFault ByteArray

namespace Files

def readText (files : Files) (path : String) : Except Failure String :=
  match files path with
  | .error fault => .error { cause := .unreadableFile path fault }
  | .ok bytes =>
    match String.fromUTF8? bytes with
    | some text => .ok text
    | none => .error { cause := .unreadableFile path .invalidText }

def isFile (files : Files) (path : String) : Bool :=
  match files path with
  | .ok _ => true
  | .error _ => false

def inDirectory (directory name : String) : String :=
  if directory.isEmpty || directory.back == '/' then directory ++ name else directory ++ "/" ++ name

end Files
end NumericJit
