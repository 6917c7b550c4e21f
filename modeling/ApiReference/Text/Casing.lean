import ApiReference.Text.CasingTable

namespace ApiReference

/-! Lower and upper case, character by character. A character may map to several
others, and what stands around it is never looked at. -/

namespace Casing

def Run.contains (run : Run) (code : Nat) : Bool :=
  run.first ≤ code && code ≤ run.last && (code - run.first) % run.step == 0

/-- The image of a character under the runs: the first run that holds it decides. -/
def shift (runs : List Run) (c : Char) : Char :=
  match runs.find? (·.contains c.toNat) with
  | some run => Char.ofNat (c.toNat + run.offset).toNat
  | none => c

def lookup (sequences : List (Char × List Char)) (runs : List Run) (c : Char) : List Char :=
  match sequences.lookup c with
  | some images => images
  | none => [shift runs c]

/-- The lower case of one character. -/
def lower (c : Char) : List Char :=
  if c < '\u0080' then [c.toLower] else lookup lowerSequences lowerRuns c

/-- The upper case of one character. -/
def upper (c : Char) : List Char :=
  if c < '\u0080' then [c.toUpper] else lookup upperSequences upperRuns c

end Casing

namespace Text

def toLower (text : String) : String :=
  String.ofList (text.toList.flatMap Casing.lower)

/-- The first character in upper case, all others in lower case. -/
def capitalize (text : String) : String :=
  match text.toList with
  | [] => ""
  | first :: rest => String.ofList (Casing.upper first ++ rest.flatMap Casing.lower)

end Text

end ApiReference
