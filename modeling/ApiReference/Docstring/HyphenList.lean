import ApiReference.OrderedMap
import ApiReference.Text.Line

namespace ApiReference

/-! Hyphenated lists, the form of the parameters and exceptions of a docstring.

A line that starts with `-` opens an entry: `- key: text`, or text of the
introduction when it has no colon. Every other line continues the entry before it. -/

/-- The texts of a hyphenated list under their keys; the introduction has the empty key. -/
structure HyphenList where
  entries : OrderedMap String
deriving DecidableEq, Inhabited

namespace HyphenList

def introKey : String := ""

/-- The key a line belongs to and the text it adds, after a line of the key `current`. -/
def assign (current line : String) : String × String :=
  match Text.after? "-" line with
  | none => (current, Text.trim line)
  | some rest =>
      match Text.splitFirst? ':' rest with
      | some (name, text) => (Text.trim name, Text.trim text)
      | none => (introKey, Text.trim rest)

/-- What has been read of a list: the key of the last line and the pieces under each key. -/
structure Reading where
  current : String
  pieces : OrderedMap (List String)

/-- The introduction comes first, whenever its first line does. -/
def Reading.start : Reading :=
  ⟨introKey, (∅ : OrderedMap (List String)).insert introKey []⟩

def Reading.line (reading : Reading) (line : String) : Reading :=
  let (key, piece) := assign reading.current line
  ⟨key, reading.pieces.upsert key fun pieces => pieces.getD [] ++ [piece]⟩

/-- The pieces of the introduction stay lines, those of other entries form one line. -/
def separator (key : String) : String :=
  if key = introKey then "\n" else " "

/-- Joins the pieces under each key and drops the keys without text. -/
def ofPieces (pieces : OrderedMap (List String)) : HyphenList :=
  ⟨pieces.filterMap fun key pieces =>
    let text := Text.trim ((separator key).intercalate pieces)
    if text = "" then none else some text⟩

def parse (text : String) : HyphenList :=
  ofPieces ((Text.lines text).foldl Reading.line Reading.start).pieces

def get? (list : HyphenList) (key : String) : Option String :=
  list.entries.get? key

def intro? (list : HyphenList) : Option String :=
  list.get? introKey

/-- The entries other than the introduction. -/
def keyed (list : HyphenList) : List (String × String) :=
  list.entries.entries.filter fun entry => entry.1 ≠ introKey

def isEmpty (list : HyphenList) : Bool :=
  list.entries.isEmpty

end HyphenList

end ApiReference
