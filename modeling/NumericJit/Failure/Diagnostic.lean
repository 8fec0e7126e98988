import NumericJit.Expr.Text
import NumericJit.Failure
import NumericJit.SlotCode.Text

/-!
# The wording of failures

A diagnostic is what is said about a failure: its kind, a message, a span and details by key. The
message of each cause stands here and nowhere else.
-/

namespace NumericJit

inductive DiagnosticKind where
  | malformedSource
  | unknownVariable
  | invalidAssignment
  | unknownOperator
  | unknownFunction
  | unknownArity
  | wrongArity
  | redefinition
  | link
  | lookup
  | execution
  | config
  | file
  | internal
deriving DecidableEq

def DiagnosticKind.label : DiagnosticKind → String
  | .malformedSource => "Syntax Error"
  | .unknownVariable => "Unknown Variable"
  | .invalidAssignment => "Invalid Assignment"
  | .unknownOperator => "Unknown Operator"
  | .unknownFunction => "Unknown Function"
  | .unknownArity => "Unknown Arity"
  | .wrongArity => "Wrong Number Of Arguments"
  | .redefinition => "Function Redefinition"
  | .link => "Link Error"
  | .lookup => "Lookup Error"
  | .execution => "Runtime Error"
  | .config => "Malformed Config"
  | .file => "File Error"
  | .internal => "Compiler Bug"

inductive DetailKey where
  | variableName
  | functionName
  | operatorSymbol
  | stage
  | expectedArity
  | foundArity
  | suggestion
  | alternative
deriving DecidableEq

abbrev Details := List (DetailKey × String)

def Details.set (details : Details) (key : DetailKey) (value : String) : Details :=
  details.filter (fun d => d.1 ≠ key) ++ [(key, value)]

structure Diagnostic where
  kind : DiagnosticKind
  message : String
  span : Span := {}
  details : Details := []

namespace Diagnostic

def detail? (d : Diagnostic) (key : DetailKey) : Option String := d.details.lookup key

def addDetail (d : Diagnostic) (key : DetailKey) (value : String) : Diagnostic :=
  { d with details := d.details.set key value }

def headline (d : Diagnostic) : String := d.kind.label ++ ": " ++ d.message

def malformedSource (message : String) (span : Span) : Diagnostic :=
  { kind := .malformedSource, message, span }

def link (message : String) : Diagnostic :=
  { kind := .link, message, details := [(.stage, "Finalize")] }

def lookup (symbol : String) : Diagnostic :=
  { kind := .lookup,
    message := "Symbol '" ++ symbol ++ "' is missing from the engine after linking",
    details := [(.functionName, symbol)] }

def execution (message : String) : Diagnostic :=
  { kind := .execution, message, details := [(.stage, "Execution")] }

def config (message : String) : Diagnostic := { kind := .config, message }

def file (path message : String) : Diagnostic :=
  { kind := .file, message := path ++ ": " ++ message }

def internal (message : String) : Diagnostic := { kind := .internal, message }

end Diagnostic

def quote (name : String) : String := "'" ++ name ++ "'"

def Expectation.describe : Expectation → String
  | .char c => quote (String.singleton c)
  | .keyword word => quote word.spelling
  | .functionName => "function name"
  | .parameter function => "a parameter name or ')' in prototype of " ++ quote function
  | .expression => "an expression"
  | .loopVariable => "loop variable"
  | .variableName => "variable name"
  | .statementEnd => "';' after statement"

def RegionStep.describe : RegionStep → String
  | .endLoop => "end_loop"
  | .beginElse => "begin_else"
  | .endIf => "end_if"

def Trap.describe : Trap → String
  | .callStackExhausted => "RuntimeError: call stack exhausted"

def FileFault.describe : FileFault → String
  | .notFound => "No such file or directory (os error 2)"
  | .notDirectory => "Not a directory (os error 20)"
  | .isDirectory => "Is a directory (os error 21)"
  | .nameTooLong => "File name too long (os error 36)"
  | .impossibleName => "file name contained an unexpected NUL byte"
  | .invalidText => "stream did not contain valid UTF-8"

def configFileName : String := "kaleido.toml"

def Cause.diagnostic (span : Span) : Cause → Diagnostic
  | .malformedNumber text =>
    { kind := .malformedSource, span, message := "Malformed number literal: " ++ quote text,
      details := [(.stage, "Tokenization"),
        (.suggestion, "Numbers may contain at most one decimal point")] }
  | .unexpected expected found =>
    { kind := .malformedSource, span,
      message := "Expected " ++ expected.describe ++ ", found " ++ found.describe,
      details := (.stage, "Parsing") ::
        if expected = .statementEnd then [(.suggestion, "End each statement with ';'")] else [] }
  | .noStatement => .malformedSource "Expected a statement, found nothing" span
  | .severalStatements count =>
    .malformedSource ("Expected a single statement, found " ++ toString count) span
  | .unknownVariable name =>
    { kind := .unknownVariable, span, message := "Unknown variable name " ++ quote name,
      details := [(.variableName, name), (.stage, "Lowering")] }
  | .invalidTarget target =>
    { kind := .invalidAssignment, span,
      message := "Destination of '=' must be a variable, found " ++ quote target.text,
      details := [(.operatorSymbol, "="), (.stage, "Lowering"),
        (.suggestion, "Only a variable name can appear on the left of '='")] }
  | .unknownOperator op =>
    { kind := .unknownOperator, span,
      message := "Unknown binary operator " ++ quote (String.singleton op),
      details := [(.operatorSymbol, String.singleton op), (.stage, "Lowering")] }
  | .unknownFunction name =>
    { kind := .unknownFunction, span, message := "Unknown function referenced: " ++ quote name,
      details := [(.functionName, name), (.stage, "Lowering"),
        (.suggestion, "Define the function with 'def' before calling it")] }
  | .unmatchedDeclaration name =>
    { kind := .unknownFunction, span,
      message := "extern " ++ quote name ++ " does not match any defined or host function",
      details := [(.functionName, name), (.stage, "Lowering")] }
  | .arityUnrecorded name =>
    { kind := .unknownArity, span,
      message := quote name
        ++ " is resident in the engine but its parameter count was never recorded",
      details := [(.functionName, name), (.stage, "Lowering"),
        (.suggestion, "Declare it with 'extern' to give its parameters")] }
  | .wrongArgumentCount callee expected found =>
    { kind := .wrongArity, span,
      message := quote callee ++ " takes " ++ toString expected ++ " arguments, but "
        ++ toString found ++ " were passed",
      details := [(.functionName, callee), (.expectedArity, toString expected),
        (.foundArity, toString found), (.stage, "Lowering")] }
  | .wrongParameterCount name expected found =>
    { kind := .wrongArity, span,
      message := "extern " ++ quote name ++ " has " ++ toString found
        ++ " parameters, but it was defined with " ++ toString expected,
      details := [(.functionName, name), (.expectedArity, toString expected),
        (.foundArity, toString found), (.stage, "Lowering")] }
  | .redefinition name =>
    { kind := .redefinition, span, message := "Function " ++ quote name ++ " is already defined",
      details := [(.functionName, name), (.stage, "Lowering"),
        (.suggestion, "Functions can't be redefined, pick a new name")] }
  | .wrapperReused name => .internal ("Anonymous function name " ++ quote name ++ " was reused")
  | .noOpenRegion function => .internal ("No open region to close in " ++ quote function)
  | .wrongRegion function step kind =>
    .internal (step.describe ++ " called in " ++ quote function ++ " while a " ++ kind.outline
      ++ " region was open")
  | .unclosedRegions function count =>
    .internal ("Function " ++ quote function ++ " finished with " ++ toString count
      ++ " unclosed regions")
  | .conflictingArity name unit known given =>
    .internal (quote name ++ " is already declared in unit " ++ toString unit ++ " with "
      ++ toString known ++ " parameters, not " ++ toString given)
  | .alreadyDeclared name unit =>
    .internal (quote name ++ " is already declared in unit " ++ toString unit)
  | .undeclaredCallee function callee =>
    .internal (quote function ++ " calls " ++ quote callee ++ ", which its unit never declared")
  | .callArity function callee given expected =>
    .internal (quote function ++ " calls " ++ quote callee ++ " with " ++ toString given
      ++ " arguments, but it takes " ++ toString expected)
  | .continueOutsideLoop function =>
    .internal ("continue_if outside of a loop in " ++ quote function)
  | .invalidModule unit =>
    { kind := .internal,
      message := "Unit " ++ toString unit ++ " encoded to an invalid Wasm module",
      details := [(.stage, "Wasm Validation")] }
  | .hostAlreadyResident name => .link ("Host function " ++ quote name ++ " is already resident")
  | .definesResident unit name =>
    .link ("Unit " ++ toString unit ++ " defines " ++ quote name ++ ", which is already resident")
  | .unresolvedSymbol name =>
    .link ("Unresolved symbol " ++ quote name ++ ": nothing resident in the engine provides it")
  | .importArity name resident imported =>
    .link (quote name ++ " is resident with " ++ toString resident
      ++ " parameters, but the unit imports it with " ++ toString imported)
  -- what the machine itself says about a module is left out
  | .notCompiled unit => .link ("Failed to compile unit " ++ toString unit)
  | .notInstantiated unit => .link ("Failed to instantiate unit " ++ toString unit)
  | .notExported unit name =>
    .link ("Unit " ++ toString unit ++ " did not export " ++ quote name ++ " after instantiation")
  | .unitRefused unit => .link ("unit " ++ toString unit ++ " refused")
  | .missingSymbol name => .lookup name
  | .noFunctionAt address => .internal ("No resident function at address " ++ toString address)
  | .invokedArity name expected found =>
    .execution (quote name ++ " takes " ++ toString expected ++ " arguments, but " ++ toString found
      ++ " were passed")
  | .trapped name trap => .execution (quote name ++ " trapped: " ++ trap.describe)
  | .unfinished name => .execution (quote name ++ " did not finish")
  | .noResult name => .execution (quote name ++ " returned no number")
  | .addressRefused address => .execution ("address " ++ toString address ++ " refused")
  | .malformedConfig => .config ("Could not parse " ++ configFileName)
  | .unknownHostFunction name available =>
    .config ("Unknown host function " ++ quote name ++ ". Available host functions: "
      ++ String.intercalate ", " available)
  | .unreadableFile path fault => .file path fault.describe

def Failure.diagnostic (f : Failure) : Diagnostic := f.cause.diagnostic f.span

end NumericJit
