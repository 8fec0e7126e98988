import NumericJit.Files

/-!
# File trees

Files and directories in memory. Paths are relative to the root of the tree; every step of a path
but the last has to be a directory. Around the tree there are directories in which nothing can be
found.
-/

namespace NumericJit

/-- Entries by their steps from the root; an entry without content is a directory. Directories on
the way to an entry need no entries of their own. -/
structure FileTree where
  entries : List (List String × Option ByteArray) := []

namespace FileTree

/-- The steps of a path; empty ones and dots lead nowhere. -/
def steps (path : String) : List String := (path.splitOn "/").filter fun s => s != "" && s != "."

def add (t : FileTree) (path : String) (content : Option ByteArray) : FileTree :=
  ⟨(steps path, content) :: t.entries⟩

inductive Node where
  | directory
  | file (content : ByteArray)

def node? (t : FileTree) (place : List String) : Option Node :=
  match t.entries.lookup place with
  | some (some content) => some (.file content)
  | some none => some .directory
  | none =>
    if place.isEmpty || t.entries.any (fun e => place.isPrefixOf e.1) then some .directory else none

def maxStep : Nat := 255

def maxPath : Nat := 4095

/-- The directory around a place. There is no place for the directories around the tree. -/
def above : Option (List String) → Option (List String)
  | some (s :: rest) => some (s :: rest).dropLast
  | _ => none

def nodeAt? (t : FileTree) : Option (List String) → Option Node
  | some place => t.node? place
  | none => some .directory

def follow (t : FileTree) (place : Option (List String)) : List String → Except FileFault Node
  | [] => (t.nodeAt? place).elim (.error .notFound) .ok
  | s :: rest =>
    if s = ".." then t.follow (above place) rest
    else if maxStep < s.utf8ByteSize then .error .nameTooLong
    else
      match place with
      | none => .error .notFound
      | some place =>
        match t.node? (place ++ [s]) with
        | none => .error .notFound
        | some (.file content) => if rest.isEmpty then .ok (.file content) else .error .notDirectory
        | some .directory => t.follow (some (place ++ [s])) rest

/-- Where a path starts: at the root of the tree, or around it if the path is absolute. -/
def origin (path : String) : Option (List String) := if path.startsWith "/" then none else some []

/-- Reading a path. A path that ends in a slash or a dot leads to a directory. -/
def read (t : FileTree) : Files := fun path =>
  if path.contains (Char.ofNat 0) then .error .impossibleName
  else if path.isEmpty then .error .notFound
  else if maxPath < path.utf8ByteSize then .error .nameTooLong
  else
    match t.follow (origin path) (steps path) with
    | .error fault => .error fault
    | .ok .directory => .error .isDirectory
    | .ok (.file content) =>
      if path.endsWith "/" || path.endsWith "/." then .error .notDirectory else .ok content

end FileTree
end NumericJit
