import ApiReference.Json.Reader
import ApiReference.Json.Writer
import Mathlib.Data.List.DropRight

namespace ApiReference.Json

/-! Reading back what the writer of JSON has written. -/

namespace Reader

theorem hexValue?_hexDigit : ∀ n < 16, hexValue? (Chars.hexDigit n) = some n := by
  decide

theorem unicodeEscape?_hexDigits {c : Char} (control : c < ' ') :
    unicodeEscape? '0' '0' (Chars.hexDigit (c.toNat / 16)) (Chars.hexDigit (c.toNat % 16)) =
      some (.scalar c) := by
  have bound : c.toNat < 32 := control
  have zero : hexValue? '0' = some 0 := by decide
  have high := hexValue?_hexDigit (c.toNat / 16) (by omega)
  have low := hexValue?_hexDigit (c.toNat % 16) (by omega)
  have code : ((0 * 16 + 0) * 16 + c.toNat / 16) * 16 + c.toNat % 16 = c.toNat := by omega
  have notLeading : ¬ (0xd800 ≤ c.toNat ∧ c.toNat < 0xdc00) := by omega
  have notTrailing : ¬ (0xdc00 ≤ c.toNat ∧ c.toNat < 0xe000) := by omega
  simp only [unicodeEscape?, zero, high, low, Option.pure_def, Option.bind_eq_bind,
    Option.bind_some, code, Unit.ofCode, notLeading, notTrailing, if_false, Char.ofNat_toNat]

theorem units?_shortEscape {letter c : Char} (named : shortEscape? letter = some c)
    (rest : List Char) :
    units? ('\\' :: letter :: rest) =
      (units? rest).map fun (units, rest) => (.scalar c :: units, rest) := by
  have notUnicode : letter ≠ 'u' := by
    rintro rfl
    cases named
  rw [units?]
  · rw [named]
    cases units? rest <;> rfl
  · intro a b d e tail same
    exact absurd same notUnicode

theorem units?_escape (c : Char) (rest : List Char) :
    units? (escape c ++ rest) = (units? rest).map fun (units, rest) => (.scalar c :: units, rest) := by
  unfold escape
  split
  case h_8 quote backslash _ _ _ _ _ =>
    split
    · rename_i control
      simp only [List.cons_append, List.nil_append, units?, unicodeEscape?_hexDigits control]
      cases units? rest <;> rfl
    · rename_i printable
      rw [List.singleton_append, units?]
      · rw [if_neg (by simpa [printable] using backslash)]
        cases units? rest <;> rfl
      · exact quote
      · intro a b d e tail same
        exact absurd same backslash
      · intro letter tail same
        exact absurd same backslash
  all_goals exact units?_shortEscape rfl rest

theorem units?_flatMap_escape (cs rest : List Char) :
    units? (cs.flatMap escape ++ '"' :: rest) = some (cs.map .scalar, rest) := by
  induction cs with
  | nil => simp [units?]
  | cons c cs ih =>
      rw [List.flatMap_cons, List.append_assoc, units?_escape, ih]
      rfl

theorem spelling?_map_scalar (cs : List Char) : spelling? (cs.map .scalar) = some cs := by
  induction cs with
  | nil => rfl
  | cons c cs ih => simp [spelling?, ih]

theorem string?_flatMap_escape (text : String) (rest : List Char) :
    string? (text.toList.flatMap escape ++ '"' :: rest) = some (some text, rest) := by
  simp [string?, units?_flatMap_escape, spelling?_map_scalar]

/-! Blanks. -/

theorem skipSpace_cons_of_isSpace {c : Char} (space : isSpace c = true) (cs : List Char) :
    skipSpace (c :: cs) = skipSpace cs := by
  simp [skipSpace, space]

theorem skipSpace_cons_of_not_isSpace {c : Char} (solid : isSpace c = false) (cs : List Char) :
    skipSpace (c :: cs) = c :: cs := by
  simp [skipSpace, solid]

theorem skipSpace_skipSpace (cs : List Char) : skipSpace (skipSpace cs) = skipSpace cs :=
  List.dropWhile_idempotent isSpace cs

theorem skipSpace_indent (level : Nat) (cs : List Char) :
    skipSpace ((indent level).toList ++ cs) = skipSpace cs := by
  rw [indent, String.toList_ofList]
  induction 2 * level with
  | zero => rfl
  | succ width ih =>
      rw [List.replicate_succ, List.cons_append, skipSpace_cons_of_isSpace rfl, ih]

theorem value?_eq_of_skipSpace_eq {first second : List Char} (same : skipSpace first = skipSpace second)
    (calls : Nat) : value? calls first = value? calls second := by
  cases calls with
  | zero => rfl
  | succ calls => rw [value?, value?, same]

theorem items?_eq_of_skipSpace_eq {first second : List Char} (same : skipSpace first = skipSpace second)
    (calls : Nat) : items? calls first = items? calls second := by
  cases calls with
  | zero => rfl
  | succ calls => rw [items?, items?, value?_eq_of_skipSpace_eq same]

theorem members?_eq_of_skipSpace_eq {first second : List Char}
    (same : skipSpace first = skipSpace second) (calls : Nat) :
    members? calls first = members? calls second := by
  cases calls with
  | zero => rfl
  | succ calls => rw [members?, members?, same]

/-! One step of the reader, by what stands in front of it. -/

theorem value?_string {cs rest : List Char} {text : Option String}
    (read : string? cs = some (text, rest)) (calls : Nat) :
    value? (calls + 1) ('"' :: cs) = some (.string text, rest) := by
  rw [value?, skipSpace_cons_of_not_isSpace rfl]
  simp [read]

theorem value?_items {cs tail : List Char} {c : Char} (start : skipSpace cs = c :: tail)
    (notClosed : c ≠ ']') (calls : Nat) :
    value? (calls + 1) ('[' :: cs) =
      (items? calls cs).map fun (items, rest) => (.array items, rest) := by
  have same : items? calls (c :: tail) = items? calls cs :=
    items?_eq_of_skipSpace_eq (by rw [← start, skipSpace_skipSpace]) calls
  rw [value?, skipSpace_cons_of_not_isSpace rfl]
  simp [start, notClosed, same]

theorem value?_members {cs tail : List Char} (start : skipSpace cs = '"' :: tail) (calls : Nat) :
    value? (calls + 1) ('\x7b' :: cs) =
      (members? calls cs).map fun (members, rest) => (.object members, rest) := by
  have same : members? calls ('"' :: tail) = members? calls cs :=
    members?_eq_of_skipSpace_eq (by rw [← start, skipSpace_skipSpace]) calls
  rw [value?, skipSpace_cons_of_not_isSpace rfl]
  simp [start, same]

section Items

variable {calls : Nat} {cs rest tail after : List Char} {item : Json} {items : List Json}

theorem items?_last (read : value? calls cs = some (item, rest))
    (closed : skipSpace rest = ']' :: tail) : items? (calls + 1) cs = some ([item], tail) := by
  simp [items?, read, closed]

theorem items?_more (read : value? calls cs = some (item, rest))
    (next : skipSpace rest = ',' :: tail) (others : items? calls tail = some (items, after)) :
    items? (calls + 1) cs = some (item :: items, after) := by
  simp [items?, read, next, others]

end Items

section Members

variable {calls : Nat} {cs inner afterName valueText rest tail after : List Char}
  {name : Option String} {value : Json} {members : List (Option String × Json)}

theorem members?_last (opened : skipSpace cs = '"' :: inner)
    (named : string? inner = some (name, afterName)) (colon : skipSpace afterName = ':' :: valueText)
    (read : value? calls valueText = some (value, rest)) (closed : skipSpace rest = '\x7d' :: tail) :
    members? (calls + 1) cs = some ([(name, value)], tail) := by
  simp [members?, opened, named, colon, read, closed]

theorem members?_more (opened : skipSpace cs = '"' :: inner)
    (named : string? inner = some (name, afterName)) (colon : skipSpace afterName = ':' :: valueText)
    (read : value? calls valueText = some (value, rest)) (next : skipSpace rest = ',' :: tail)
    (others : members? calls tail = some (members, after)) :
    members? (calls + 1) cs = some ((name, value) :: members, after) := by
  simp [members?, opened, named, colon, read, next, others]

end Members

end Reader

/-! The characters of a written value. -/

theorem toList_quote (text : String) :
    (quote (some text)).toList = '"' :: (text.toList.flatMap escape ++ ['"']) := by
  simp [quote]

theorem toList_pretty_array (level : Nat) (item : Json) (items : List Json) :
    (pretty level (.array (item :: items))).toList =
      '[' :: '\n' :: ((prettyItems (level + 1) (item :: items)).toList ++
        '\n' :: ((indent level).toList ++ [']'])) := by
  simp [pretty]

theorem toList_pretty_object (level : Nat) (member : Option String × Json)
    (members : List (Option String × Json)) :
    (pretty level (.object (member :: members))).toList =
      '\x7b' :: '\n' :: ((prettyMembers (level + 1) (member :: members)).toList ++
        '\n' :: ((indent level).toList ++ ['\x7d'])) := by
  simp [pretty]

theorem toList_prettyItems_singleton (level : Nat) (item : Json) :
    (prettyItems level [item]).toList = (indent level).toList ++ (pretty level item).toList := by
  simp [prettyItems]

theorem toList_prettyItems_cons (level : Nat) (item next : Json) (items : List Json) :
    (prettyItems level (item :: next :: items)).toList =
      (indent level).toList ++ ((pretty level item).toList ++
        ',' :: '\n' :: (prettyItems level (next :: items)).toList) := by
  rw [prettyItems]
  · simp
  · simp

theorem toList_prettyMembers_singleton (level : Nat) (name : Option String) (value : Json) :
    (prettyMembers level [(name, value)]).toList =
      (indent level).toList ++ ((quote name).toList ++ ':' :: ' ' :: (pretty level value).toList) := by
  simp [prettyMembers]

theorem toList_prettyMembers_cons (level : Nat) (name : Option String) (value : Json)
    (next : Option String × Json) (members : List (Option String × Json)) :
    (prettyMembers level ((name, value) :: next :: members)).toList =
      (indent level).toList ++ ((quote name).toList ++ ':' :: ' ' :: ((pretty level value).toList ++
        ',' :: '\n' :: (prettyMembers level (next :: members)).toList)) := by
  rw [prettyMembers]
  · simp
  · simp

/-- The values whose text names no other value: without numbers, and with a text for every
string. -/
inductive Spelled : Json → Prop where
  | null : Spelled .null
  | bool (value : Bool) : Spelled (.bool value)
  | text (text : String) : Spelled (ofText text)
  | array {items : List Json} (each : ∀ item ∈ items, Spelled item) : Spelled (.array items)
  | object {members : List (Option String × Json)} (named : ∀ member ∈ members, member.1.isSome)
      (each : ∀ member ∈ members, Spelled member.2) : Spelled (.object members)

open Reader

theorem Spelled.exists_pretty_eq_cons {json : Json} (spelled : Spelled json) (level : Nat) :
    ∃ c cs, (json.pretty level).toList = c :: cs ∧ isSpace c = false ∧ c ≠ ']' := by
  cases spelled with
  | null => exact ⟨'n', ['u', 'l', 'l'], by simp [pretty], rfl, by decide⟩
  | bool value =>
      cases value with
      | true => exact ⟨'t', ['r', 'u', 'e'], by simp [pretty], rfl, by decide⟩
      | false => exact ⟨'f', ['a', 'l', 's', 'e'], by simp [pretty], rfl, by decide⟩
  | text text => exact ⟨'"', _, by rw [ofText, pretty, toList_quote], rfl, by decide⟩
  | @array items each =>
      cases items with
      | nil => exact ⟨'[', [']'], by simp [pretty], rfl, by decide⟩
      | cons item items => exact ⟨'[', _, toList_pretty_array level item items, rfl, by decide⟩
  | @object members named each =>
      cases members with
      | nil => exact ⟨'\x7b', ['\x7d'], by simp [pretty], rfl, by decide⟩
      | cons member members => exact ⟨'\x7b', _, toList_pretty_object level _ _, rfl, by decide⟩

/-- The text of a value, at any level and with anything behind it, is read as that value.
Two calls for each of its characters are enough. -/
def ReadBack (json : Json) : Prop :=
  ∀ (level calls : Nat) (rest : List Char), 2 * (pretty level json).toList.length ≤ calls →
    value? (calls + 1) ((pretty level json).toList ++ rest) = some (json, rest)

theorem items?_prettyItems {items : List Json} (nonempty : items ≠ [])
    (each : ∀ item ∈ items, ReadBack item) {level outer calls : Nat} (rest : List Char)
    (enough : 2 * (prettyItems level items).toList.length + 2 ≤ calls) :
    items? calls ((prettyItems level items).toList ++
      '\n' :: ((indent outer).toList ++ ']' :: rest)) = some (items, rest) := by
  induction items generalizing calls with
  | nil => exact absurd rfl nonempty
  | cons item items ih =>
      -- One call is spent on the item and one on its place; the separator pays for both.
      obtain ⟨calls, rfl⟩ : ∃ fewer, calls = fewer + 2 := ⟨calls - 2, by omega⟩
      have first := each item (by simp)
      cases items with
      | nil =>
          rw [toList_prettyItems_singleton, List.append_assoc] at *
          rw [List.length_append] at enough
          rw [items?_eq_of_skipSpace_eq (skipSpace_indent level _)]
          refine items?_last (first level calls _ (by omega)) ?_
          rw [skipSpace_cons_of_isSpace rfl, skipSpace_indent, skipSpace_cons_of_not_isSpace rfl]
      | cons next items =>
          rw [toList_prettyItems_cons] at *
          simp only [List.length_append, List.length_cons] at enough
          simp only [List.append_assoc, List.cons_append]
          rw [items?_eq_of_skipSpace_eq (skipSpace_indent level _)]
          refine items?_more (first level calls _ (by omega)) (skipSpace_cons_of_not_isSpace rfl _) ?_
          rw [items?_eq_of_skipSpace_eq (skipSpace_cons_of_isSpace rfl _)]
          exact ih (by simp) (fun item member => each item (by simp [member])) (by omega)

theorem members?_prettyMembers {members : List (Option String × Json)} (nonempty : members ≠ [])
    (named : ∀ member ∈ members, member.1.isSome) (each : ∀ member ∈ members, ReadBack member.2)
    {level outer calls : Nat} (rest : List Char)
    (enough : 2 * (prettyMembers level members).toList.length + 2 ≤ calls) :
    members? calls ((prettyMembers level members).toList ++
      '\n' :: ((indent outer).toList ++ '\x7d' :: rest)) = some (members, rest) := by
  induction members generalizing calls with
  | nil => exact absurd rfl nonempty
  | cons member members ih =>
      obtain ⟨name, value⟩ := member
      obtain ⟨text, rfl⟩ := Option.isSome_iff_exists.mp (named (name, value) (by simp))
      obtain ⟨calls, rfl⟩ : ∃ fewer, calls = fewer + 2 := ⟨calls - 2, by omega⟩
      have first : ReadBack value := each (some text, value) (by simp)
      cases members with
      | nil =>
          rw [toList_prettyMembers_singleton, toList_quote] at *
          simp only [List.length_append, List.length_cons] at enough
          simp only [List.append_assoc, List.cons_append, List.nil_append]
          rw [members?_eq_of_skipSpace_eq (skipSpace_indent level _)]
          refine members?_last (skipSpace_cons_of_not_isSpace rfl _) (string?_flatMap_escape text _)
            (skipSpace_cons_of_not_isSpace rfl _)
            ((value?_eq_of_skipSpace_eq (skipSpace_cons_of_isSpace rfl _) (calls + 1)).trans
              (first level calls _ (by omega))) ?_
          rw [skipSpace_cons_of_isSpace rfl, skipSpace_indent, skipSpace_cons_of_not_isSpace rfl]
      | cons next members =>
          rw [toList_prettyMembers_cons, toList_quote] at *
          simp only [List.length_append, List.length_cons] at enough
          simp only [List.append_assoc, List.cons_append, List.nil_append]
          rw [members?_eq_of_skipSpace_eq (skipSpace_indent level _)]
          refine members?_more (skipSpace_cons_of_not_isSpace rfl _) (string?_flatMap_escape text _)
            (skipSpace_cons_of_not_isSpace rfl _)
            ((value?_eq_of_skipSpace_eq (skipSpace_cons_of_isSpace rfl _) (calls + 1)).trans
              (first level calls _ (by omega))) (skipSpace_cons_of_not_isSpace rfl _) ?_
          rw [members?_eq_of_skipSpace_eq (skipSpace_cons_of_isSpace rfl _)]
          exact ih (by simp) (fun member held => named member (by simp [held]))
            (fun member held => each member (by simp [held])) (by omega)

theorem skipSpace_prettyMembers (level : Nat) (text : String) (value : Json)
    (members : List (Option String × Json)) (rest : List Char) :
    ∃ tail, skipSpace ((prettyMembers level ((some text, value) :: members)).toList ++ rest) =
      '"' :: tail := by
  cases members with
  | nil =>
      rw [toList_prettyMembers_singleton, toList_quote, List.append_assoc, skipSpace_indent]
      exact ⟨_, skipSpace_cons_of_not_isSpace rfl _⟩
  | cons next members =>
      rw [toList_prettyMembers_cons, toList_quote, List.append_assoc, skipSpace_indent]
      exact ⟨_, skipSpace_cons_of_not_isSpace rfl _⟩

theorem Spelled.skipSpace_prettyItems {item : Json} (spelled : Spelled item) (level : Nat)
    (items : List Json) (rest : List Char) :
    ∃ c tail, skipSpace ((prettyItems level (item :: items)).toList ++ rest) = c :: tail ∧ c ≠ ']' := by
  obtain ⟨c, cs, written, solid, notClosed⟩ := spelled.exists_pretty_eq_cons level
  cases items with
  | nil =>
      rw [toList_prettyItems_singleton, written, List.append_assoc, skipSpace_indent]
      exact ⟨c, _, skipSpace_cons_of_not_isSpace solid _, notClosed⟩
  | cons next items =>
      rw [toList_prettyItems_cons, written, List.append_assoc, skipSpace_indent]
      exact ⟨c, _, skipSpace_cons_of_not_isSpace solid _, notClosed⟩

theorem readBack_array {items : List Json} (spelled : ∀ item ∈ items, Spelled item)
    (each : ∀ item ∈ items, ReadBack item) : ReadBack (.array items) := by
  intro level calls rest enough
  cases items with
  | nil =>
      simp [pretty, value?, skipSpace, isSpace]
  | cons item items =>
      rw [toList_pretty_array] at *
      simp only [List.length_append, List.length_cons] at enough
      simp only [List.append_assoc, List.cons_append, List.nil_append]
      -- The reader looks for a closing bracket first, and no item begins with one.
      obtain ⟨c, tail, start, notClosed⟩ :=
        (spelled item (by simp)).skipSpace_prettyItems (level + 1) items
          ('\n' :: ((indent level).toList ++ ']' :: rest))
      rw [value?_items ((skipSpace_cons_of_isSpace rfl _).trans start) notClosed,
        items?_eq_of_skipSpace_eq (skipSpace_cons_of_isSpace rfl _),
        items?_prettyItems (by simp) each rest (by omega)]
      rfl

theorem readBack_object {members : List (Option String × Json)}
    (named : ∀ member ∈ members, member.1.isSome) (each : ∀ member ∈ members, ReadBack member.2) :
    ReadBack (.object members) := by
  intro level calls rest enough
  cases members with
  | nil =>
      simp [pretty, value?, skipSpace, isSpace]
  | cons member members =>
      obtain ⟨name, value⟩ := member
      obtain ⟨text, rfl⟩ := Option.isSome_iff_exists.mp (named (name, value) (by simp))
      rw [toList_pretty_object] at *
      simp only [List.length_append, List.length_cons] at enough
      simp only [List.append_assoc, List.cons_append, List.nil_append]
      obtain ⟨tail, start⟩ := skipSpace_prettyMembers (level + 1) text value members
        ('\n' :: ((indent level).toList ++ '\x7d' :: rest))
      rw [value?_members ((skipSpace_cons_of_isSpace rfl _).trans start),
        members?_eq_of_skipSpace_eq (skipSpace_cons_of_isSpace rfl _),
        members?_prettyMembers (by simp) named each rest (by omega)]
      rfl

theorem Spelled.readBack {json : Json} (spelled : Spelled json) : ReadBack json := by
  induction spelled with
  | null =>
      intro level calls rest enough
      simp [pretty, value?, skipSpace, isSpace]
  | bool value =>
      intro level calls rest enough
      cases value <;> simp [pretty, value?, skipSpace, isSpace]
  | text text =>
      intro level calls rest enough
      rw [ofText, pretty, toList_quote]
      simp only [List.append_assoc, List.cons_append, List.nil_append]
      exact value?_string (string?_flatMap_escape text rest) calls
  | array each ih => exact readBack_array each ih
  | object named each ih => exact readBack_object named ih

theorem Spelled.parse?_pretty {json : Json} (spelled : Spelled json) (level : Nat) :
    parse? (json.pretty level) = some json := by
  have read := spelled.readBack level (2 * (json.pretty level).toList.length + 1) [] (by omega)
  rw [List.append_nil] at read
  simp [parse?, read, skipSpace]

end ApiReference.Json
