namespace ApiReference

/-! Blank and control characters, and texts freed of blanks at their ends.

Functions on characters live in `Chars`; the function of the same name in `Text`
is their lift to strings. -/

namespace Chars

/-- The characters with the Unicode property `White_Space`. -/
def isBlank (c : Char) : Bool :=
  ('\t' ≤ c && c ≤ '\r') || c == ' ' || c == '\u0085' || c == '\u00a0' || c == '\u1680' ||
    ('\u2000' ≤ c && c ≤ '\u200a') || c == '\u2028' || c == '\u2029' || c == '\u202f' ||
    c == '\u205f' || c == '\u3000'

/-- The characters of the Unicode category `Cc`. -/
def isControl (c : Char) : Bool :=
  c < ' ' || ('\u007f' ≤ c && c ≤ '\u009f')

def trimStart (cs : List Char) : List Char :=
  cs.dropWhile isBlank

def trimEnd (cs : List Char) : List Char :=
  (cs.reverse.dropWhile isBlank).reverse

def trim (cs : List Char) : List Char :=
  trimEnd (trimStart cs)

end Chars

namespace Text

def trimStart (text : String) : String :=
  String.ofList (Chars.trimStart text.toList)

/-- The text without the blanks at its two ends. -/
def trim (text : String) : String :=
  String.ofList (Chars.trim text.toList)

/-- A text is blank when nothing is left of it after trimming. -/
def isBlank (text : String) : Bool :=
  text.toList.all Chars.isBlank

@[simp] theorem toList_trim (text : String) : (trim text).toList = Chars.trim text.toList := by
  simp [trim]

end Text

end ApiReference
