import NumericJit.Config
import NumericJit.Config.Document
import NumericJit.Failure.Diagnostic
import NumericJit.Files

/-!
# Loading a configuration

A document sets what it names, each setting at most once; everything else keeps its default.
-/

namespace NumericJit.Config

def set? (c : Config) : String × Value → Option Config
  | ("prompt", .text prompt) => some { c with prompt }
  | ("result_precision", .number places) => some { c with precision := some places }
  | ("host_functions", .texts hostFunctions) => some { c with hostFunctions }
  | ("show_unit_ir", .flag showUnits) => some { c with showUnits }
  | _ => none

def ofText (source : String) : Except Failure Config :=
  let read := do
    let settings ← Document.read source
    if (settings.map Prod.fst).Nodup then settings.foldlM set? {} else none
  read.elim (.error { cause := .malformedConfig }) .ok

def load (files : Files) (path : String) : Except Failure Config := files.readText path >>= ofText

/-- The configuration in a directory, or the default if it has none. -/
def loadFrom (files : Files) (directory : String) : Except Failure Config :=
  let path := Files.inDirectory directory configFileName
  if files.isFile path then load files path else .ok {}

end NumericJit.Config
