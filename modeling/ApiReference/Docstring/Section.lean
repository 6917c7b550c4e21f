import ApiReference.Text.Line
import ApiReference.Text.Casing

namespace ApiReference

/-! The sections of a docstring and the header lines that open them. -/

inductive Section where
  | description
  | parameters
  | returns
  | yields
  | exceptions
deriving DecidableEq, Repr

namespace Section

/-- All sections, in the order in which they are rendered. -/
def all : List Section := [description, parameters, returns, yields, exceptions]

/-- The header names of a section, in lower case. The description has the empty one. -/
def names : Section → List String
  | description => [""]
  | parameters =>
      ["arg", "args", "argument", "arguments", "param", "params", "parameter", "parameters"]
  | returns => ["ret", "return", "returns"]
  | yields => ["yield", "yields"]
  | exceptions => ["exc", "except", "exception", "exceptions", "raise", "raises"]

/-- The section with a header name, in whatever letter case it is written. -/
def ofName? (name : String) : Option Section :=
  all.find? fun candidate => Text.toLower name ∈ candidate.names

end Section

namespace Chars

def isBracket (c : Char) : Bool := c == '[' || c == ']'

/-- The name in a header line: brackets from the first column on, no bracket
inside, and nothing but blanks after them. -/
def headerName? : List Char → Option (List Char)
  | '[' :: rest =>
      match rest.dropWhile fun c => !isBracket c with
      | ']' :: tail =>
          if tail.all isBlank then some (trim (rest.takeWhile fun c => !isBracket c)) else none
      | _ => none
  | _ => none

end Chars

namespace Text

def headerName? (line : String) : Option String :=
  (Chars.headerName? line.toList).map String.ofList

end Text

end ApiReference
