import ApiReference.Text.Line

namespace ApiReference.SettingsText

/-! Reading the text of a settings file: lines `key = "text"` with comments and empty lines
between them. Keys and texts follow TOML; other kinds of values and tables are refused,
since no setting has such a value. -/

def isSpace (c : Char) : Bool := c = ' ' || c = '\t'

def skipSpace (cs : List Char) : List Char := cs.dropWhile isSpace

/-- Characters that may stand as themselves: all but controls other than the tab. -/
def isPrintable (c : Char) : Bool := c = '\t' || (' ' ≤ c && c ≠ '\u007f')

def isBareKey (c : Char) : Bool :=
  ('a' ≤ c && c ≤ 'z') || ('A' ≤ c && c ≤ 'Z') || ('0' ≤ c && c ≤ '9') || c = '_' || c = '-'

def hexDigit? (c : Char) : Option Nat :=
  if '0' ≤ c && c ≤ '9' then some (c.toNat - '0'.toNat)
  else if 'a' ≤ c && c ≤ 'f' then some (c.toNat - 'a'.toNat + 10)
  else if 'A' ≤ c && c ≤ 'F' then some (c.toNat - 'A'.toNat + 10)
  else none

def hexNumber? (digits : List Char) : Option Nat :=
  digits.foldlM (fun number digit => (hexDigit? digit).map (number * 16 + ·)) 0

/-- The character with the given code; surrogates and codes out of range are none. -/
def scalar? (digits : List Char) : Option Char := do
  let code ← hexNumber? digits
  if code < 0xd800 ∨ (0xdfff < code ∧ code < 0x110000) then some (Char.ofNat code) else none

def shortEscape? : Char → Option Char
  | '"' => some '"'
  | '\\' => some '\\'
  | 'b' => some '\u0008'
  | 't' => some '\t'
  | 'n' => some '\n'
  | 'f' => some '\u000c'
  | 'r' => some '\r'
  | _ => none

abbrev Parsed := Option (List Char × List Char)

/-- Puts characters in front of what has been read. -/
def Parsed.after (read : List Char) (parsed : Parsed) : Parsed :=
  parsed.map fun (text, rest) => (read ++ text, rest)

/-- A text in double quotes, after the opening one. -/
def quoted? : List Char → Parsed
  | [] => none
  | '"' :: rest => some ([], rest)
  | '\\' :: 'u' :: a :: b :: c :: d :: rest => do
      Parsed.after [← scalar? [a, b, c, d]] (quoted? rest)
  | '\\' :: 'U' :: a :: b :: c :: d :: e :: f :: g :: h :: rest => do
      Parsed.after [← scalar? [a, b, c, d, e, f, g, h]] (quoted? rest)
  | '\\' :: letter :: rest => do Parsed.after [← shortEscape? letter] (quoted? rest)
  | c :: rest => if isPrintable c && c ≠ '\\' then Parsed.after [c] (quoted? rest) else none

/-- A text in single quotes, after the opening one. -/
def literal? : List Char → Parsed
  | [] => none
  | '\'' :: rest => some ([], rest)
  | c :: rest => if isPrintable c then Parsed.after [c] (literal? rest) else none

/-- Where the reading of a text over several lines stands. A backslash at the end of a line
takes away the blanks and line ends up to the next character. -/
inductive Place where
  | inside
  | lineEnd
  | lineStart
deriving DecidableEq

/-- A text in three double quotes, after the opening ones. Up to two quotes right before
the closing ones belong to the text. -/
def quotedLines? : Place → List Char → Parsed
  | _, [] => none
  | place, '\r' :: '\n' :: rest =>
      match place with
      | .inside => Parsed.after ['\n'] (quotedLines? .inside rest)
      | _ => quotedLines? .lineStart rest
  | place, '\n' :: rest =>
      match place with
      | .inside => Parsed.after ['\n'] (quotedLines? .inside rest)
      | _ => quotedLines? .lineStart rest
  | place, ' ' :: rest =>
      match place with
      | .inside => Parsed.after [' '] (quotedLines? .inside rest)
      | place => quotedLines? place rest
  | place, '\t' :: rest =>
      match place with
      | .inside => Parsed.after ['\t'] (quotedLines? .inside rest)
      | place => quotedLines? place rest
  | .lineEnd, _ :: _ => none
  | _, '"' :: '"' :: '"' :: '"' :: '"' :: rest => some (['"', '"'], rest)
  | _, '"' :: '"' :: '"' :: '"' :: rest => some (['"'], rest)
  | _, '"' :: '"' :: '"' :: rest => some ([], rest)
  | _, '\\' :: 'u' :: a :: b :: c :: d :: rest => do
      Parsed.after [← scalar? [a, b, c, d]] (quotedLines? .inside rest)
  | _, '\\' :: 'U' :: a :: b :: c :: d :: e :: f :: g :: h :: rest => do
      Parsed.after [← scalar? [a, b, c, d, e, f, g, h]] (quotedLines? .inside rest)
  | _, '\\' :: ' ' :: rest => quotedLines? .lineEnd rest
  | _, '\\' :: '\t' :: rest => quotedLines? .lineEnd rest
  | _, '\\' :: '\n' :: rest => quotedLines? .lineStart rest
  | _, '\\' :: '\r' :: '\n' :: rest => quotedLines? .lineStart rest
  | _, '\\' :: letter :: rest => do
      Parsed.after [← shortEscape? letter] (quotedLines? .inside rest)
  | _, c :: rest =>
      if isPrintable c && c ≠ '\\' then Parsed.after [c] (quotedLines? .inside rest) else none

/-- A text in three single quotes, after the opening ones. -/
def literalLines? : List Char → Parsed
  | [] => none
  | '\r' :: '\n' :: rest => Parsed.after ['\n'] (literalLines? rest)
  | '\n' :: rest => Parsed.after ['\n'] (literalLines? rest)
  | '\'' :: '\'' :: '\'' :: '\'' :: '\'' :: rest => some (['\'', '\''], rest)
  | '\'' :: '\'' :: '\'' :: '\'' :: rest => some (['\''], rest)
  | '\'' :: '\'' :: '\'' :: rest => some ([], rest)
  | c :: rest => if isPrintable c then Parsed.after [c] (literalLines? rest) else none

/-- A line end right after the opening quotes does not belong to the text. -/
def skipLineEnd : List Char → List Char
  | '\n' :: rest => rest
  | '\r' :: '\n' :: rest => rest
  | cs => cs

def value? : List Char → Parsed
  | '"' :: '"' :: '"' :: rest => quotedLines? .inside (skipLineEnd rest)
  | '\'' :: '\'' :: '\'' :: rest => literalLines? (skipLineEnd rest)
  | '"' :: rest => quoted? rest
  | '\'' :: rest => literal? rest
  | _ => none

def key? : List Char → Parsed
  | '"' :: rest => quoted? rest
  | '\'' :: rest => literal? rest
  | cs =>
      match cs.takeWhile isBareKey with
      | [] => none
      | key => some (key, cs.dropWhile isBareKey)

/-- What follows the end of a line, after blanks and a comment. -/
def lineEnd? (cs : List Char) : Option (List Char) :=
  let rest := match skipSpace cs with
    | '#' :: comment => comment.dropWhile isPrintable
    | rest => rest
  match rest with
  | [] => some []
  | '\n' :: rest => some rest
  | '\r' :: '\n' :: rest => some rest
  | _ => none

def assignment? (cs : List Char) : Option ((String × String) × List Char) := do
  let (key, rest) ← key? cs
  match skipSpace rest with
  | '=' :: rest =>
      let (value, rest) ← value? (skipSpace rest)
      return ((String.ofList key, String.ofList value), rest)
  | _ => none

/-- The assignments of the lines. The first argument bounds their number. -/
def assignments? : Nat → List Char → Option (List (String × String))
  | _, [] => some []
  | 0, _ :: _ => none
  | lines + 1, cs =>
      match lineEnd? cs with
      | some rest => assignments? lines rest
      | none => do
          let (assignment, rest) ← assignment? (skipSpace cs)
          return assignment :: (← assignments? lines (← lineEnd? rest))

/-- All assignments of a text, which may start with a byte order mark. -/
def parse? (text : String) : Option (List (String × String)) :=
  let cs := match text.toList with
    | '\ufeff' :: rest => rest
    | cs => cs
  assignments? (cs.length + 1) cs

end ApiReference.SettingsText
