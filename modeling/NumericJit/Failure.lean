import NumericJit.Expr
import NumericJit.SlotCode.Basic
import NumericJit.Token

/-!
# What can go wrong

Every failure has a cause, with the data that the cause is about, and a span of the source text
where there is one. Wording is given to causes in `NumericJit.Failure.Diagnostic`.
-/

namespace NumericJit

inductive Expectation where
  | char (c : Char)
  | keyword (word : Keyword)
  | functionName
  | parameter (function : String)
  | expression
  | loopVariable
  | variableName
  | statementEnd
deriving DecidableEq

inductive RegionStep where
  | endLoop
  | beginElse
  | endIf
deriving DecidableEq

inductive Trap where
  | callStackExhausted
deriving DecidableEq

inductive FileFault where
  | notFound
  | notDirectory
  | isDirectory
  | nameTooLong
  | impossibleName
  | invalidText
deriving DecidableEq

inductive Cause where
  -- reading statements
  | malformedNumber (text : String)
  | unexpected (expected : Expectation) (found : TokenKind)
  | noStatement
  | severalStatements (count : Nat)
  -- lowering
  | unknownVariable (name : String)
  | invalidTarget (target : Expr)
  | unknownOperator (op : Char)
  | unknownFunction (name : String)
  | unmatchedDeclaration (name : String)
  | arityUnrecorded (name : String)
  | wrongArgumentCount (callee : String) (expected found : Nat)
  | wrongParameterCount (name : String) (expected found : Nat)
  | redefinition (name : String)
  -- code under construction
  | wrapperReused (name : String)
  | noOpenRegion (function : String)
  | wrongRegion (function : String) (step : RegionStep) (kind : RegionKind)
  | unclosedRegions (function : String) (count : Nat)
  | conflictingArity (name : String) (unit known given : Nat)
  | alreadyDeclared (name : String) (unit : Nat)
  -- encoding
  | undeclaredCallee (function callee : String)
  | callArity (function callee : String) (given expected : Nat)
  | continueOutsideLoop (function : String)
  | invalidModule (unit : Nat)
  -- linking and running
  | hostAlreadyResident (name : String)
  | definesResident (unit : Nat) (name : String)
  | unresolvedSymbol (name : String)
  | importArity (name : String) (resident imported : Nat)
  | notCompiled (unit : Nat)
  | notInstantiated (unit : Nat)
  | notExported (unit : Nat) (name : String)
  | unitRefused (unit : Nat)
  | missingSymbol (name : String)
  | noFunctionAt (address : Nat)
  | invokedArity (name : String) (expected found : Nat)
  | trapped (name : String) (trap : Trap)
  | unfinished (name : String)
  | noResult (name : String)
  | addressRefused (address : Nat)
  -- configuration and files
  | malformedConfig
  | unknownHostFunction (name : String) (available : List String)
  | unreadableFile (path : String) (fault : FileFault)

structure Failure where
  cause : Cause
  span : Span := {}

end NumericJit
