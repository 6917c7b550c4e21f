import Mathlib.Data.String.Basic

namespace ApiReference.Text

/-! The bytes of a text in UTF-8. They compare as the characters of the text do.

The first byte of a character tells how many follow, and a greater character has no smaller one.
The bytes that follow are digits of the character's code to the base 64, the highest one first. -/

def bytes (text : String) : List UInt8 := text.toUTF8.data.toList

theorem bytes_eq_flatMap (text : String) : bytes text = text.toList.flatMap String.utf8EncodeChar := by
  have encoded : text.toUTF8 = text.toList.utf8Encode := by
    rw [String.toUTF8_eq_toByteArray]
    conv => lhs; rw [← String.ofList_toList (s := text)]
    rfl
  rw [bytes, encoded]
  exact List.toList_data_toByteArray

/-- One list of bytes falls below another at a byte that both have. -/
inductive FallsBelow : List UInt8 → List UInt8 → Prop where
  | here {byte other : UInt8} {rest others : List UInt8} (less : byte < other) :
      FallsBelow (byte :: rest) (other :: others)
  | later {byte : UInt8} {rest others : List UInt8} (below : FallsBelow rest others) :
      FallsBelow (byte :: rest) (byte :: others)

namespace FallsBelow

variable {first second : List UInt8}

/-- What follows does not matter. -/
theorem append (below : FallsBelow first second) (rest others : List UInt8) :
    FallsBelow (first ++ rest) (second ++ others) := by
  induction below with
  | here less => exact .here less
  | later _ ih => exact .later ih

theorem after (common : List UInt8) (below : FallsBelow first second) :
    FallsBelow (common ++ first) (common ++ second) := by
  induction common with
  | nil => exact below
  | cons byte rest ih => exact .later ih

theorem lt (below : FallsBelow first second) : first < second := by
  induction below with
  | here less => exact List.cons_lt_cons_iff.mpr (.inl less)
  | later _ ih => exact List.cons_lt_cons_iff.mpr (.inr ⟨rfl, ih⟩)

end FallsBelow

/-- The number of bytes after the first one. -/
def following (code : Nat) : Nat :=
  if code ≤ 0x7f then 0 else if code ≤ 0x7ff then 1 else if code ≤ 0xffff then 2 else 3

/-- The least first byte with a number of bytes after it. -/
def base : Nat → Nat
  | 0 => 0
  | 1 => 0xc0
  | 2 => 0xe0
  | _ => 0xf0

def lead (code : Nat) : Nat := code / 64 ^ following code + base (following code)

/-- The last digits of a code to the base 64, as bytes. -/
def trail : Nat → Nat → List UInt8
  | 0, _ => []
  | count + 1, code => trail count (code / 64) ++ [UInt8.ofNat (code % 64 + 0x80)]

theorem toNat_lt_top (c : Char) : c.toNat < 0x110000 := by
  have valid := c.valid
  simp only [UInt32.isValidChar, Nat.isValidChar] at valid
  change c.val.toNat < _
  omega

theorem utf8EncodeChar_eq (c : Char) :
    String.utf8EncodeChar c = UInt8.ofNat (lead c.toNat) :: trail (following c.toNat) c.toNat := by
  have top := toNat_lt_top c
  have code : c.val.toNat = c.toNat := rfl
  simp only [String.utf8EncodeChar, code, lead, following]
  split_ifs with one two three
  · simp [trail, base]
  · have digit : c.toNat / 64 % 32 = c.toNat / 64 := by omega
    simp [trail, base, digit]
  · have digit : c.toNat / 4096 % 16 = c.toNat / 4096 := by omega
    simp [trail, base, digit]
  · have digit : c.toNat / 262144 % 8 = c.toNat / 262144 := by omega
    simp [trail, base, digit, Nat.div_div_eq_div_mul]

theorem ofNat_lt_ofNat {code other : Nat} (before : code < other) (top : other < 256) :
    UInt8.ofNat code < UInt8.ofNat other :=
  (UInt8.ofNat_lt_iff_lt (before.trans top) top).mpr before

theorem lead_lt {code : Nat} (top : code < 0x110000) : lead code < 256 := by
  unfold lead following
  split_ifs <;> simp only [base, Nat.reducePow] <;> omega

theorem lead_lt_or_following_eq {code other : Nat} (before : code < other) :
    lead code < lead other ∨ following code = following other := by
  unfold lead following
  split_ifs <;> simp only [base, Nat.reducePow, or_true] <;> omega

/-- Of two codes the greater one has the greater digits, from the highest one on. -/
theorem trail_fallsBelow {code other : Nat} (before : code < other) (count : Nat) :
    code / 64 ^ count < other / 64 ^ count ∨
      code / 64 ^ count = other / 64 ^ count ∧ FallsBelow (trail count code) (trail count other) := by
  induction count generalizing code other with
  | zero => exact .inl (by simpa using before)
  | succ count ih =>
      rw [Nat.pow_succ', ← Nat.div_div_eq_div_mul, ← Nat.div_div_eq_div_mul]
      by_cases higher : code / 64 < other / 64
      · rcases ih higher with less | ⟨same, below⟩
        · exact .inl less
        · exact .inr ⟨same, below.append _ _⟩
      · have same : code / 64 = other / 64 := by omega
        have digit : code % 64 < other % 64 := by omega
        refine .inr ⟨by rw [same], ?_⟩
        rw [trail, trail, same]
        apply FallsBelow.after
        exact .here (ofNat_lt_ofNat (by omega) (by omega))

theorem utf8EncodeChar_fallsBelow {c d : Char} (before : c < d) :
    FallsBelow (String.utf8EncodeChar c) (String.utf8EncodeChar d) := by
  have codes : c.toNat < d.toNat := before
  have top := lead_lt (toNat_lt_top d)
  rw [utf8EncodeChar_eq, utf8EncodeChar_eq]
  rcases lead_lt_or_following_eq codes with less | same
  · exact .here (ofNat_lt_ofNat less top)
  · rcases trail_fallsBelow codes (following d.toNat) with less | ⟨equal, below⟩
    · refine .here (ofNat_lt_ofNat ?_ top)
      rw [lead, lead, same]
      omega
    · rw [lead, lead, same, equal]
      exact .later below

theorem bytes_lt_bytes {first second : String} (before : first < second) : bytes first < bytes second := by
  rw [bytes_eq_flatMap, bytes_eq_flatMap]
  have chars : first.toList < second.toList := before
  generalize first.toList = cs at chars
  generalize second.toList = ds at chars
  induction cs generalizing ds with
  | nil =>
      cases ds with
      | nil => exact absurd chars (lt_irrefl _)
      | cons d rest =>
          rw [List.flatMap_cons, utf8EncodeChar_eq]
          exact List.nil_lt_cons _ _
  | cons c rest ih =>
      cases ds with
      | nil => exact absurd chars (List.not_lt_nil _)
      | cons d others =>
          rw [List.flatMap_cons, List.flatMap_cons]
          rcases List.cons_lt_cons_iff.mp chars with less | ⟨same, later⟩
          · exact ((utf8EncodeChar_fallsBelow less).append _ _).lt
          · rw [same]
            exact List.append_left_lt (ih others later)

/-- The order of the bytes is the order of the texts. -/
theorem bytes_lt_iff {first second : String} : bytes first < bytes second ↔ first < second := by
  refine ⟨?_, bytes_lt_bytes⟩
  intro before
  rcases lt_trichotomy first second with less | same | greater
  · exact less
  · rw [same] at before
    exact absurd before (List.lt_irrefl _)
  · exact absurd before (List.lt_asymm (bytes_lt_bytes greater))

end ApiReference.Text
