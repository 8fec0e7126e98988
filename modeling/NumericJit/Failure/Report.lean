import NumericJit.Failure.Diagnostic
import NumericJit.Text.Lines
import NumericJit.Text.Style

/-!
# Reporting failures

A report opens with a banner for its kind of failure. Failures of a statement go on with the line
they are about and an underline, if the source text is at hand.
-/

namespace NumericJit.Diagnostic

open Text (styledLine Style)

/-- The place of the reported line; spans outside the text count from its start. -/
def lineIndex (d : Diagnostic) : Nat := d.span.start.line.toNat

def lineText (d : Diagnostic) (source : Option String) : List Char :=
  match source with
  | some text => (Text.lines text.toList).getD d.lineIndex []
  | none => []

def lineBanner (d : Diagnostic) : String :=
  styledLine [Style.dark, Style.magenta, "Line ", Style.bright, toString (d.lineIndex + 1)]

def repeated (c : Char) (n : Nat) : String := String.ofList (List.replicate n c)

def excerpt (d : Diagnostic) (line : List Char) : String :=
  if line.isEmpty then ""
  else
    let width := max 1 (d.span.stop.column - d.span.start.column).toNat
    "\n" ++ String.ofList line ++ "\n" ++ repeated ' ' d.span.start.column.toNat
      ++ styledLine [Style.red, repeated '^' width]

def body (d : Diagnostic) (source : Option String) : String :=
  let suggestion :=
    match d.detail? .suggestion with
    | some text => styledLine [Style.green, "Suggestion: ", text]
    | none => ""
  styledLine [Style.red, d.message] ++ suggestion ++ d.excerpt (d.lineText source)

def report (d : Diagnostic) (source : Option String) : String :=
  match d.kind with
  | .malformedSource =>
    styledLine ["\n(╯°□°)╯  🔥🔥 ", Style.red, "Syntax", " 🔥🔥  Σ(°△°;) "]
      ++ d.lineBanner ++ d.body source
  | .unknownVariable | .invalidAssignment | .unknownOperator =>
    styledLine ["\n(ಠ_ಠ) ", Style.red, d.kind.label] ++ d.lineBanner ++ d.body source
  | .unknownFunction | .unknownArity | .wrongArity | .redefinition =>
    styledLine ["\nヽ(˶°o°)ﾉ  🔥🔥🔥 ", Style.red, d.kind.label, " 🔥🔥🔥  ╰(°□°╰) "]
      ++ d.lineBanner ++ d.body source
  | .link | .lookup =>
    styledLine ["\n(ﾉ☉_⚆)ﾉ  🔥 ", Style.yellow, d.kind.label, " 🔥 ╰(° O °)╯ "]
      ++ styledLine [Style.red, d.message]
  | .execution =>
    styledLine ["\n(╯°Д°)╯  🔥🔥 ", Style.red, "Runtime", " 🔥🔥  ╰(°□°╰) "]
      ++ styledLine [Style.red, d.message]
  | .file => styledLine [Style.yellow, "🏚 Can't find/read file or directory: ", d.message]
  | .config =>
    styledLine [Style.yellow, "CONFIG FILE ISSUE- "]
      ++ styledLine [Style.dark, Style.yellow, d.message]
  | .internal =>
    styledLine ["\nヽ༼☉ ‿ ⚆༽ﾉ  🔥🔥🔥🔥 ", Style.yellow, "COMPILER BUG - "]
      ++ styledLine [Style.dark, Style.yellow, "compiler developer skill issue (not your fault)"]
      ++ d.body source

end NumericJit.Diagnostic
