import NumericJit.CommandLine

/-!
# The program

Reads the files that a command names, and writes what the library answers. An interactive session
gives its answer to each line before the next one is read.
-/

namespace NumericJit.Program

/-- Whether a code is the given error number of the system; some operations negate it. -/
def isErrorNumber (n code : UInt32) : Bool := code == n || code == 0 - n

def fault : IO.Error → FileFault
  | .inappropriateType _ code _ => if isErrorNumber 21 code then .isDirectory else .notDirectory
  | .invalidArgument _ code _ => if isErrorNumber 36 code then .nameTooLong else .impossibleName
  | _ => .notFound

def readPath (path : String) : IO (String × Except FileFault ByteArray) := do
  try
    return (path, .ok (← IO.FS.readBinFile path))
  catch e =>
    return (path, .error (fault e))

def readPaths (paths : List String) : IO Files := do
  let found ← paths.mapM readPath
  return fun path => (found.lookup path).getD (.error .notFound)

def write (bytes : ByteArray) : IO Unit := do
  let output ← IO.getStdout
  output.write bytes
  output.flush

def perform (session : Session Unit) (actions : List ReplAction) : IO (Option (Session Unit)) := do
  match session.perform { state := () } actions with
  | .error w =>
    write w.output
    return none
  | .ok (_, session, w) =>
    write w.output
    return some session

partial def readLine (input : IO.FS.Stream) (line : ByteArray) : IO ByteArray := do
  let next ← input.read 1
  let line := line ++ next
  if next.toList == [] || next.toList == [10] then return line else readLine input line

partial def converse (session : Session Unit) (buffer : StatementBuffer) :
    IO (Option (Session Unit)) := do
  let some session ← perform session [.ask (!buffer.isEmpty)] | return none
  let line ← readLine (← IO.getStdin) .empty
  if line.isEmpty then perform session (Repl.close buffer)
  else
    match String.fromUTF8? line with
    | none => perform session (.unreadable :: Repl.close buffer)
    | some text =>
      match Repl.step buffer text.toList with
      | (actions, none) => perform session actions
      | (actions, some next) =>
        let some session ← perform session actions | return none
        converse session next

def interact (files : Files) (directory : String) (config : Option String) : IO UInt32 := do
  match Command.openSession files directory config with
  | .error e =>
    write (e.diagnostic.report none).toUTF8
    return 0
  | .ok session =>
    write Session.greeting.toUTF8
    match ← converse session {} with
    | none => return brokenOffStatus
    | some _ =>
      write Session.farewell.toUTF8
      return 0

def paths (directory : String) : Command → List String
  | .help => []
  | .interact config => [config.getD (Files.inDirectory directory configFileName)]
  | .run path config => [path, config.getD (Files.inDirectory directory configFileName)]

def run (arguments : List String) : IO UInt32 := do
  match Command.parse arguments with
  | .error fault =>
    write (Command.refusal fault).toUTF8
    return 0
  | .ok command =>
    let directory := toString (← IO.currentDir)
    let files ← readPaths (paths directory command)
    match command with
    | .interact config => interact files directory config
    | command =>
      let done := ProgramRun.ofReported (command.execute files directory .empty { state := () })
      write done.output
      return done.exitStatus

end NumericJit.Program

def main (arguments : List String) : IO UInt32 := NumericJit.Program.run arguments
