import ApiReference.Text.Blank

namespace ApiReference

/-! Lines, paragraphs and the other cuts of a text. -/

namespace Chars

/-- The lines of a text. A line ends at a line feed, which takes a carriage return
directly before it along; a carriage return alone belongs to its line. A line
feed at the end opens no further line. -/
def lines : List Char → List (List Char)
  | [] => []
  | '\n' :: rest => [] :: lines rest
  | '\r' :: '\n' :: rest => [] :: lines rest
  | c :: rest =>
      match lines rest with
      | [] => [[c]]
      | line :: more => (c :: line) :: more

/-- The pieces between the occurrences of a separator; there is always at least one. -/
def splitOn (separator : Char) : List Char → List (List Char)
  | [] => [[]]
  | c :: rest =>
      if c = separator then [] :: splitOn separator rest
      else
        match splitOn separator rest with
        | [] => [[c]]
        | piece :: more => (c :: piece) :: more

/-- What stands before and after the first occurrence of a separator. -/
def splitFirst? (separator : Char) : List Char → Option (List Char × List Char)
  | [] => none
  | c :: rest =>
      if c = separator then some ([], rest)
      else (splitFirst? separator rest).map fun (before, after) => (c :: before, after)

/-- What stands before and after the last occurrence of a separator. -/
def splitLast? (separator : Char) : List Char → Option (List Char × List Char)
  | [] => none
  | c :: rest =>
      match splitLast? separator rest with
      | some (before, after) => some (c :: before, after)
      | none => if c = separator then some ([], rest) else none

/-- What follows a given beginning. -/
def after? : List Char → List Char → Option (List Char)
  | [], rest => some rest
  | _ :: _, [] => none
  | p :: ps, c :: cs => if p = c then after? ps cs else none

/-- Replaces the occurrences of a pattern from left to right; `skip` characters
still belong to the occurrence last replaced. -/
def replaceFrom (pattern replacement : List Char) : Nat → List Char → List Char
  | _, [] => []
  | skip + 1, _ :: rest => replaceFrom pattern replacement skip rest
  | 0, c :: rest =>
      if pattern.isPrefixOf (c :: rest) then
        replacement ++ replaceFrom pattern replacement (pattern.length - 1) rest
      else c :: replaceFrom pattern replacement 0 rest

/-- The text up to its first empty line. -/
def firstParagraph : List Char → List Char
  | [] => []
  | '\n' :: '\n' :: _ => []
  | c :: rest => c :: firstParagraph rest

end Chars

namespace Text

def lines (text : String) : List String :=
  (Chars.lines text.toList).map String.ofList

def splitOn (separator : Char) (text : String) : List String :=
  (Chars.splitOn separator text.toList).map String.ofList

def splitFirst? (separator : Char) (text : String) : Option (String × String) :=
  (Chars.splitFirst? separator text.toList).map fun (before, after) =>
    (String.ofList before, String.ofList after)

def splitLast? (separator : Char) (text : String) : Option (String × String) :=
  (Chars.splitLast? separator text.toList).map fun (before, after) =>
    (String.ofList before, String.ofList after)

def startsWith (beginning text : String) : Bool :=
  beginning.toList.isPrefixOf text.toList

/-- What follows a given beginning of the text. -/
def after? (beginning text : String) : Option String :=
  (Chars.after? beginning.toList text.toList).map String.ofList

/-- Replaces every occurrence of a pattern, from left to right. -/
def replace (pattern replacement text : String) : String :=
  String.ofList (Chars.replaceFrom pattern.toList replacement.toList 0 text.toList)

/-- Drops the given characters from both ends. -/
def trimMatching (drop : Char → Bool) (text : String) : String :=
  String.ofList ((text.toList.dropWhile drop).reverse.dropWhile drop).reverse

end Text

end ApiReference
