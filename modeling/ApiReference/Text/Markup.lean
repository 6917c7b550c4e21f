import ApiReference.Text.Line
import ApiReference.Text.Casing

namespace ApiReference

/-! How plain text is written inside Markdown: escaped, as an anchor, as a summary. -/

namespace Chars

/-- The characters that open or close emphasis or code in Markdown. -/
def isEmphasis (c : Char) : Bool :=
  c == '*' || c == '_' || c == '\x60'

def escapeEmphasis (cs : List Char) : List Char :=
  cs.flatMap fun c => if isEmphasis c then ['\\', c] else [c]

/-- The lower-case hexadecimal digit of a number below sixteen. -/
def hexDigit (n : Nat) : Char :=
  if n < 10 then Char.ofNat ('0'.toNat + n) else Char.ofNat ('a'.toNat + (n - 10))

/-- Control characters are written as a backslash, `x` and two hexadecimal digits. -/
def escapeUnprintable (cs : List Char) : List Char :=
  cs.flatMap fun c =>
    if isControl c then ['\\', 'x', hexDigit (c.toNat / 16), hexDigit (c.toNat % 16)] else [c]

def anchor (title : List Char) : List Char :=
  '#' :: title.flatMap fun c => if isBlank c then ['-'] else Casing.lower c

/-- At most `length` characters, followed by three dots when any were cut off. -/
def truncate (length : Nat) (cs : List Char) : List Char :=
  if length < cs.length then cs.take length ++ ['.', '.', '.'] else cs

def singleLine (cs : List Char) : List Char :=
  cs.map fun c => if c = '\n' then ' ' else c

/-- The signature as its callers see it: without the first parameter. A text that
has no parameter list, or an empty one, stays as it is. -/
def dropReceiver : List Char → List Char
  | '(' :: parameters =>
      let receiver := parameters.takeWhile fun c => c != ',' && c != ')'
      let rest := parameters.dropWhile fun c => c != ',' && c != ')'
      if receiver.all isBlank then '(' :: parameters
      else
        match rest with
        | [] => '(' :: parameters
        | stop :: following => '(' :: trimStart (if stop = ',' then following else rest)
  | signature => signature

end Chars

namespace Text

/-- Emphasis cancelled by a backslash before each `*`, `_` and backtick. -/
def escapeEmphasis (text : String) : String :=
  String.ofList (Chars.escapeEmphasis text.toList)

def escapeUnprintable (text : String) : String :=
  String.ofList (Chars.escapeUnprintable text.toList)

/-- The anchor of the section with the given title. -/
def anchor (title : String) : String :=
  String.ofList (Chars.anchor title.toList)

def truncate (length : Nat) (text : String) : String :=
  String.ofList (Chars.truncate length text.toList)

/-- The text with its line feeds turned into spaces. -/
def singleLine (text : String) : String :=
  String.ofList (Chars.singleLine text.toList)

/-- The first paragraph on one line, cut after `length` characters. -/
def summary (length : Nat) (description : String) : String :=
  String.ofList
    (Chars.truncate length (Chars.singleLine (Chars.firstParagraph description.toList)))

def dropReceiver (signature : String) : String :=
  String.ofList (Chars.dropReceiver signature.toList)

end Text

end ApiReference
