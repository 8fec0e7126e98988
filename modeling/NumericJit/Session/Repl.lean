import NumericJit.Session.Buffer
import NumericJit.Session.Basic
import NumericJit.Text.Lines

/-!
# Interactive sessions

The lines of an input settle what an interactive session does: `actions` lists it, and `perform`
carries it out. A line is a command only when no statement is under way.
-/

namespace NumericJit

inductive ReplAction where
  /-- Asks for a line; in the middle of a statement in another way. -/
  | ask (underWay : Bool)
  | submit (source : List Char)
  | summarise
  | unreadable

namespace Repl

def continuationPrompt : String := "...> "

inductive Request where
  | leave
  | summarise
  | code
deriving DecidableEq

def request (buffer : StatementBuffer) (line : List Char) : Request :=
  if buffer.isEmpty then
    let command := String.ofList ((Text.trim line).map Char.toLower)
    if command = "exit" || command = "quit" then .leave
    else if command = "show" then .summarise
    else .code
  else .code

def submission (piece : Option (List Char)) : List ReplAction := piece.toList.map .submit

/-- What a line leads to, and the buffer to go on with unless the session is left. -/
def step (buffer : StatementBuffer) (line : List Char) : List ReplAction × Option StatementBuffer :=
  match request buffer line with
  | .leave => ([], none)
  | .summarise => ([.summarise], some buffer)
  | .code =>
    let (piece, buffer) := buffer.push line
    (submission piece, some buffer)

/-- The end of an input: a last statement may lack its `;`. -/
def close (buffer : StatementBuffer) : List ReplAction := submission buffer.rest

/-- Everything that the lines of an input lead to. A line that is no text is none here, and ends
the input. -/
def actions (buffer : StatementBuffer) : List (Option (List Char)) → List ReplAction
  | [] => .ask (!buffer.isEmpty) :: close buffer
  | none :: _ => .ask (!buffer.isEmpty) :: .unreadable :: close buffer
  | some line :: rest =>
    match step buffer line with
    | (done, none) => .ask (!buffer.isEmpty) :: done
    | (done, some next) => .ask (!buffer.isEmpty) :: done ++ actions next rest

def inputLines (input : ByteArray) : List (Option (List Char)) :=
  (Text.byteLines input.toList).map fun line =>
    (String.fromUTF8? ⟨line.toArray⟩).map String.toList

end Repl

namespace Session

variable {S : Type}

open Text (styledLine Style)

def act (s : Session S) (w : World S) : ReplAction → Reported S (Nat × Session S × World S)
  | .ask underWay =>
    .ok (0, s, w.print (if underWay then Repl.continuationPrompt else s.config.prompt))
  | .submit source => s.report (String.ofList source) w
  | .summarise => .ok (0, s, w.print s.summary)
  | .unreadable =>
    .ok (0, s, w.print
      (styledLine [Style.red, "Error reading input: ", FileFault.invalidText.describe]))

def perform (s : Session S) (w : World S) :
    List ReplAction → Reported S (Nat × Session S × World S)
  | [] => .ok (0, s, w)
  | a :: rest => do
    let (failures, s, w) ← s.act w a
    let (more, s, w) ← s.perform w rest
    pure (failures + more, s, w)

def interact (s : Session S) (input : ByteArray) (w : World S) :
    Reported S (Nat × Session S × World S) :=
  s.perform w (Repl.actions {} (Repl.inputLines input))

def greeting : String :=
  styledLine [Style.green, "Kaleido REPL"]
    ++ styledLine [Style.gray, "Statements end with ';' and may span lines. ",
      "Type 'show' to see the open unit and 'exit' to quit.\n"]

def farewell : String := styledLine [Style.gray, "Closing REPL session."]

end Session
end NumericJit
