namespace ApiReference

/-! Styled text for a terminal. A text is a list of spans; it can be shown plain or coloured. -/

inductive Colour where
  | green
  | magenta
  | cyan
  | white
deriving DecidableEq, Repr

def Colour.digit : Colour → String
  | .green => "2"
  | .magenta => "5"
  | .cyan => "6"
  | .white => "7"

structure Style where
  colour : Colour
  bold : Bool := false
  italic : Bool := false
deriving DecidableEq

namespace Style

/-- A control sequence of the terminal. -/
def control (code : String) : String := "\u001b[" ++ code ++ "m"

def reset : String := control "0"

def start (style : Style) : String :=
  reset ++ (if style.bold then control "1" else "") ++ (if style.italic then control "3" else "") ++
    control ("3" ++ style.colour.digit)

end Style

structure Span where
  text : String
  style : Option Style := none
deriving DecidableEq

namespace Span

def coloured (span : Span) : String :=
  match span.style with
  | some style => style.start ++ span.text ++ Style.reset
  | none => span.text

end Span

abbrev StyledText := List Span

namespace StyledText

def plain (text : StyledText) : String := String.join (text.map (·.text))

def coloured (text : StyledText) : String := String.join (text.map (·.coloured))

end StyledText

end ApiReference
