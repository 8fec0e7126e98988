/-!
# Configuration documents

A document is a list of settings, one a line, in the part of the TOML format that settings can use:
keys bare or quoted, and as values strings, whole numbers, truth values and arrays of strings. Any
other document is refused.
-/

namespace NumericJit.Config

inductive Value where
  | text (content : String)
  | number (n : Nat)
  | flag (b : Bool)
  | texts (contents : List String)

namespace Document

abbrev Reader (α : Type) := List Char → Option (α × List Char)

def isGap (c : Char) : Bool := c == ' ' || c == '\t'

def skipGap (cs : List Char) : List Char := cs.dropWhile isGap

/-- Characters that may stand in comments and in strings of one line. -/
def isPrintable (c : Char) : Bool := c == '\t' || (' ' ≤ c && c != '\x7f')

def newline? : List Char → Option (List Char)
  | '\n' :: rest => some rest
  | '\r' :: '\n' :: rest => some rest
  | _ => none

def skipComment : List Char → List Char
  | '#' :: rest => rest.dropWhile isPrintable
  | cs => cs

def lineEnd? (cs : List Char) : Option (List Char) :=
  match skipComment (skipGap cs) with
  | [] => some []
  | rest => newline? rest

def skipLines : Nat → List Char → List Char
  | 0, cs => cs
  | fuel + 1, cs =>
    let rest := skipComment (skipGap cs)
    match newline? rest with
    | some rest => skipLines fuel rest
    | none => rest

-- Strings

def hexValue? (c : Char) : Option Nat :=
  if c.isDigit then some (c.toNat - '0'.toNat)
  else if 'a' ≤ c && c ≤ 'f' then some (c.toNat - 'a'.toNat + 10)
  else if 'A' ≤ c && c ≤ 'F' then some (c.toNat - 'A'.toNat + 10)
  else none

def codePoint (digits : Nat) (cs : List Char) : Option (Char × List Char) :=
  if cs.length < digits then none
  else do
    let values ← (cs.take digits).mapM hexValue?
    let n := values.foldl (fun n d => 16 * n + d) 0
    if n.isValidChar then some (Char.ofNat n, cs.drop digits) else none

def escape : Reader Char
  | 'b' :: rest => some ('\x08', rest)
  | 't' :: rest => some ('\t', rest)
  | 'n' :: rest => some ('\n', rest)
  | 'f' :: rest => some ('\x0c', rest)
  | 'r' :: rest => some ('\r', rest)
  | 'e' :: rest => some ('\x1b', rest)
  | '"' :: rest => some ('"', rest)
  | '\\' :: rest => some ('\\', rest)
  | 'x' :: rest => codePoint 2 rest
  | 'u' :: rest => codePoint 4 rest
  | 'U' :: rest => codePoint 8 rest
  | _ => none

/-- Reads a string of one line up to its closing quote. Only between double quotes a backslash
begins an escape. -/
def lineString (quote : Char) : Nat → List Char → Reader (List Char)
  | _, _, [] => none
  | 0, _, _ => none
  | fuel + 1, done, c :: rest =>
    if c = quote then some (done.reverse, rest)
    else if c = '\\' && quote = '"' then
      match escape rest with
      | some (e, rest) => lineString quote fuel (e :: done) rest
      | none => none
    else if isPrintable c then lineString quote fuel (c :: done) rest
    else none

def skipBreaks : List Char → List Char
  | '\r' :: '\n' :: rest => skipBreaks rest
  | c :: rest => if isGap c || c == '\n' then skipBreaks rest else c :: rest
  | [] => []

/-- Skips a backslash's line end with all blanks and line feeds behind it. -/
def joinLines? (cs : List Char) : Option (List Char) := (newline? (skipGap cs)).map skipBreaks

/-- Reads a string of several lines up to its closing quotes. Up to two quotes may stand right
before the three that close it. -/
def blockString (quote : Char) : Nat → List Char → Reader (List Char)
  | _, _, [] => none
  | 0, _, _ => none
  | fuel + 1, done, c :: rest =>
    if c = quote then
      let quotes := (c :: rest).takeWhile (· == quote)
      let behind := (c :: rest).dropWhile (· == quote)
      if quotes.length < 3 then blockString quote fuel (quotes ++ done) behind
      else if quotes.length ≤ 5 then some ((quotes.drop 3 ++ done).reverse, behind)
      else none
    else if c = '\\' && quote = '"' then
      match joinLines? rest with
      | some rest => blockString quote fuel done rest
      | none =>
        match escape rest with
        | some (e, rest) => blockString quote fuel (e :: done) rest
        | none => none
    else if isPrintable c then blockString quote fuel (c :: done) rest
    else
      match c, rest with
      | '\n', rest => blockString quote fuel ('\n' :: done) rest
      | '\r', '\n' :: rest => blockString quote fuel ('\n' :: '\r' :: done) rest
      | _, _ => none

/-- A line feed right behind the opening quotes does not count. -/
def blockStart (cs : List Char) : List Char := (newline? cs).getD cs

def string (quote : Char) (cs : List Char) : Option (String × List Char) :=
  let read :=
    match cs with
    | a :: b :: c :: rest =>
      if a = quote && b = quote && c = quote then blockString quote cs.length [] (blockStart rest)
      else if a = quote then lineString quote cs.length [] (b :: c :: rest)
      else none
    | a :: rest => if a = quote then lineString quote cs.length [] rest else none
    | [] => none
  read.map fun (content, rest) => (String.ofList content, rest)

def anyString : Reader String
  | '"' :: rest => string '"' ('"' :: rest)
  | '\'' :: rest => string '\'' ('\'' :: rest)
  | _ => none

-- Numbers

def digitValue? (base : Nat) (c : Char) : Option Nat := (hexValue? c).filter (· < base)

/-- Reads digits, which single underscores may part, behind a first part worth `n`. -/
def digitsFrom (base : Nat) (n : Nat) : List Char → Nat × List Char
  | '_' :: c :: rest =>
    match digitValue? base c with
    | some d => digitsFrom base (base * n + d) rest
    | none => (n, '_' :: c :: rest)
  | c :: rest =>
    match digitValue? base c with
    | some d => digitsFrom base (base * n + d) rest
    | none => (n, c :: rest)
  | [] => (n, [])

def digits (base : Nat) : Reader Nat
  | c :: rest => (digitValue? base c).map fun d => digitsFrom base d rest
  | [] => none

/-- A whole number in decimal digits begins with zero only if it is zero. -/
def decimal : Reader Nat
  | '0' :: rest => some (0, rest)
  | cs => digits 10 cs

def maxNumber : Nat := Nat.pow 2 64 - 1

def wholeNumber (cs : List Char) : Option (Nat × List Char) :=
  let read :=
    match cs with
    | '0' :: 'x' :: rest => digits 16 rest
    | '0' :: 'o' :: rest => digits 8 rest
    | '0' :: 'b' :: rest => digits 2 rest
    | '+' :: rest => decimal rest
    | '-' :: rest => (decimal rest).filter (·.1 == 0)
    | cs => decimal cs
  read.filter (·.1 ≤ maxNumber)

-- Values

def arrayItems : Nat → List String → Reader (List String)
  | 0, _, _ => none
  | fuel + 1, done, cs =>
    match skipLines cs.length cs with
    | ']' :: rest => some (done.reverse, rest)
    | cs =>
      match anyString cs with
      | none => none
      | some (item, rest) =>
        match skipLines rest.length rest with
        | ',' :: rest => arrayItems fuel (item :: done) rest
        | ']' :: rest => some ((item :: done).reverse, rest)
        | _ => none

def value : Reader Value
  | '[' :: rest => (arrayItems (rest.length + 1) [] rest).map fun (xs, rest) => (.texts xs, rest)
  | 't' :: 'r' :: 'u' :: 'e' :: rest => some (.flag true, rest)
  | 'f' :: 'a' :: 'l' :: 's' :: 'e' :: rest => some (.flag false, rest)
  | cs =>
    match anyString cs with
    | some (s, rest) => some (.text s, rest)
    | none => (wholeNumber cs).map fun (n, rest) => (.number n, rest)

-- Settings

def isKeyChar (c : Char) : Bool := c.isAlphanum || c == '_' || c == '-'

def key : Reader String
  | '"' :: rest =>
    (lineString '"' rest.length [] rest).map fun (k, rest) => (String.ofList k, rest)
  | '\'' :: rest =>
    (lineString '\'' rest.length [] rest).map fun (k, rest) => (String.ofList k, rest)
  | cs =>
    let name := cs.takeWhile isKeyChar
    if name.isEmpty then none else some (String.ofList name, cs.dropWhile isKeyChar)

def setting : Reader (String × Value) := fun cs => do
  let (name, rest) ← key cs
  match skipGap rest with
  | '=' :: rest => do
    let (v, rest) ← value (skipGap rest)
    let rest ← lineEnd? rest
    some ((name, v), rest)
  | _ => none

def settings : Nat → List (String × Value) → List Char → Option (List (String × Value))
  | 0, _, _ => none
  | fuel + 1, done, cs =>
    match skipGap cs with
    | [] => some done.reverse
    | cs =>
      match lineEnd? cs with
      | some rest => settings fuel done rest
      | none =>
        match setting cs with
        | some (entry, rest) => settings fuel (entry :: done) rest
        | none => none

/-- The settings of a document in order. A byte order mark in front is skipped. -/
def read (source : String) : Option (List (String × Value)) :=
  let cs :=
    match source.toList with
    | '\uFEFF' :: rest => rest
    | cs => cs
  settings (cs.length + 1) [] cs

end Document
end NumericJit.Config
