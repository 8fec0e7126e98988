/-!
# Styled lines

What a session tells its reader is written in lines of text with styles switched on along the
way. A style holds until the end of the line, where all of them are reset.
-/

namespace NumericJit.Text

inductive Style where
  | red
  | green
  | yellow
  | magenta
  | bold
  | italic
  | dark
  | bright
  | gray
deriving DecidableEq

def Style.code : Style → String
  | .red => "31"
  | .green => "32"
  | .yellow => "33"
  | .magenta => "35"
  | .bold => "1"
  | .italic => "3"
  | .dark => "2"
  | .bright => "1"
  | .gray => "90"

def escape (code : String) : String := "\x1b[" ++ code ++ "m"

inductive Piece where
  | style (s : Style)
  | text (t : String)

instance : Coe Style Piece := ⟨.style⟩
instance : Coe String Piece := ⟨.text⟩

def Piece.render : Piece → String
  | .style s => escape s.code
  | .text t => t

def styledLine (pieces : List Piece) : String :=
  String.join (pieces.map Piece.render) ++ escape "0" ++ "\n"

end NumericJit.Text
