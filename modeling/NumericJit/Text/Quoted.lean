import NumericJit.Text.Hidden

/-!
# Quoted text

A text between double quotes. Quotes, backslashes and the usual control characters have short
escapes; every other hidden character is written by its code point.
-/

namespace NumericJit.Text

def codePointEscape (c : Char) : String :=
  "\\u\x7b" ++ String.ofList (Nat.toDigits 16 c.toNat) ++ "\x7d"

def quotedChar (c : Char) : String :=
  if c = Char.ofNat 0 then "\\0"
  else if c = '\t' then "\\t"
  else if c = '\r' then "\\r"
  else if c = '\n' then "\\n"
  else if c = '\\' then "\\\\"
  else if c = '"' then "\\\""
  else if isHidden c then codePointEscape c
  else String.singleton c

def quoted (text : String) : String := "\"" ++ String.join (text.toList.map quotedChar) ++ "\""

end NumericJit.Text
