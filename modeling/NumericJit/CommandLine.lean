import NumericJit.Config.Load
import NumericJit.Session.Repl

/-!
# The command line

Arguments are read as a command. The commands run an interactive session or a file, with the
configuration that is named or the one in the current directory.
-/

namespace NumericJit

inductive Command where
  | interact (config : Option String)
  | run (path : String) (config : Option String)
  | help
deriving DecidableEq

inductive UsageFault where
  | unexpectedArgument (argument : String)
  | missingFile
  | severalFiles
  | invalidCommand (argument : String)
  | missingConfig
  | unknownFlag (argument : String)
deriving DecidableEq

def UsageFault.message : UsageFault → String
  | .unexpectedArgument argument => "Unexpected argument for repl: " ++ quote argument
  | .missingFile => "Missing file for run (try 'kal run main.kal')"
  | .severalFiles => "Run command accepts exactly one file path."
  | .invalidCommand argument => "Invalid command: " ++ quote argument
  | .missingConfig => "Missing value for --config"
  | .unknownFlag argument =>
    "Unknown flag: " ++ quote argument ++ ". The only supported flag is --config <path>."

namespace Command

def isFlag (argument : String) : Bool := argument.startsWith "--"

/-- Parts the configuration path from the other arguments; the last one given counts. -/
def options (config : Option String) : List String → Except UsageFault (Option String × List String)
  | [] => .ok (config, [])
  | "--config" :: rest =>
    match rest with
    | [] => .error .missingConfig
    | path :: rest => if isFlag path then .error .missingConfig else options (some path) rest
  | argument :: rest =>
    if isFlag argument then .error (.unknownFlag argument)
    else (options config rest).map fun (config, others) => (config, argument :: others)

def interactive (fault : String → UsageFault) (arguments : List String) :
    Except UsageFault Command := do
  match ← options none arguments with
  | (config, []) => .ok (.interact config)
  | (_, argument :: _) => .error (fault argument)

def parse : List String → Except UsageFault Command
  | [] => .ok (.interact none)
  | "help" :: _ => .ok .help
  | "--help" :: _ => .ok .help
  | "repl" :: rest => interactive .unexpectedArgument rest
  | "run" :: rest => do
    match ← options none rest with
    | (config, [path]) => .ok (.run path config)
    | (_, []) => .error .missingFile
    | _ => .error .severalFiles
  | first :: rest =>
    if isFlag first then interactive .invalidCommand (first :: rest)
    else .error (.invalidCommand first)

open Text (styledLine Style)

def usage : String :=
  styledLine [Style.green, Style.bold, "\nCommands:"]
    ++ styledLine ["  repl              - Starts an interactive session (default)"]
    ++ styledLine ["  run <path>        - Runs every statement in a .kal file"]
    ++ styledLine ["  help              - Shows this message"]
    ++ styledLine [Style.green, Style.bold, "\nFlags:"]
    ++ styledLine ["  --config <path>   (default: ./kaleido.toml if it exists)"]

def helpText : String :=
  styledLine [Style.gray, "------------------------------------"]
    ++ styledLine [Style.green, Style.bold,
      "kaleido: a tiny numeric language, JIT compiled one statement at a time"]
    ++ styledLine ["Usage: kal ", Style.bold, "<command>", " ", Style.italic, "<args>"]
    ++ usage

def refusal (fault : UsageFault) : String := styledLine [Style.red, fault.message] ++ usage

/-- The configuration that is named, or the one in the current directory. -/
def loadConfig (files : Files) (directory : String) : Option String → Except Failure Config
  | some path => Config.load files path
  | none => Config.loadFrom files directory

end Command

def runFile {S : Type} (files : Files) (path : String) (config : Config) (w : World S) :
    Except Failure (Reported S (Nat × World S)) := do
  let source ← files.readText path
  let session ← Session.start config
  .ok ((session.report source w).map fun (failures, _, w) => (failures, w))

def failureCount (failures : Nat) : String :=
  if failures = 0 then ""
  else Text.styledLine [Text.Style.yellow, "\n", Text.Style.bright, toString failures,
    " statement(s) failed"]

def Command.openSession {S : Type} (files : Files) (directory : String) (config : Option String) :
    Except Failure (Session S) := do
  Session.start (← loadConfig files directory config)

def Command.execute (files : Files) (directory : String) (input : ByteArray) (w : World Unit) :
    Command → Reported Unit (World Unit)
  | .help => .ok (w.print helpText)
  | .interact config =>
    match openSession files directory config with
    | .error e => .ok (w.print (e.diagnostic.report none))
    | .ok session => do
      let (_, _, w) ← session.interact input (w.print Session.greeting)
      pure (w.print Session.farewell)
  | .run path config =>
    match loadConfig files directory config >>= fun c => runFile files path c w with
    | .error e => .ok (w.print (e.diagnostic.report none))
    | .ok done => do
      let (failures, w) ← done
      pure (w.print (failureCount failures))

structure ProgramRun where
  output : ByteArray
  exitStatus : UInt32 := 0

def brokenOffStatus : UInt32 := 101

def ProgramRun.ofReported : Reported Unit (World Unit) → ProgramRun
  | .ok w => { output := w.output }
  | .error w => { output := w.output, exitStatus := brokenOffStatus }

def runProgram (arguments : List String) (files : Files) (directory : String) (input : ByteArray) :
    ProgramRun :=
  match Command.parse arguments with
  | .error fault => { output := (Command.refusal fault).toUTF8 }
  | .ok command => .ofReported (command.execute files directory input { state := () })

end NumericJit
