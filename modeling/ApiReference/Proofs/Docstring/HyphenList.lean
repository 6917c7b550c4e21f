import ApiReference.Docstring.HyphenList
import ApiReference.Proofs.OrderedMap
import ApiReference.Proofs.Text.Line
import ApiReference.Proofs.Text.Trim
import Mathlib.Tactic.MkIffOfInductiveProp

namespace ApiReference

/-! Hyphenated lists written out: the lines of the introduction, then one line `- key: text`
for each other entry. -/

namespace Chars

theorem after?_append (beginning rest : List Char) : after? beginning (beginning ++ rest) = some rest := by
  induction beginning with
  | nil => rfl
  | cons c more ih => simp [after?, ih]

theorem after?_eq_none {beginning cs : List Char} (other : ¬ beginning <+: cs) :
    after? beginning cs = none := by
  induction beginning generalizing cs with
  | nil => exact absurd List.nil_prefix other
  | cons c more ih =>
      cases cs with
      | nil => rfl
      | cons d rest =>
          by_cases same : c = d
          · subst same
            rw [after?, if_pos rfl]
            exact ih fun begins => other (List.cons_prefix_cons.mpr ⟨rfl, begins⟩)
          · rw [after?, if_neg same]

theorem splitFirst?_append {separator : Char} {before : List Char} (absent : separator ∉ before)
    (after : List Char) :
    splitFirst? separator (before ++ separator :: after) = some (before, after) := by
  induction before with
  | nil => simp [splitFirst?]
  | cons c more ih =>
      rw [List.mem_cons, not_or] at absent
      simp [splitFirst?, Ne.symm absent.1, ih absent.2]

end Chars

namespace HyphenList

def row (key text : String) : String :=
  if key = introKey then text else "- " ++ key ++ ": " ++ text

def rows (list : HyphenList) : List String :=
  list.entries.entries.map fun (key, text) => row key text

/-- The lines of an introduction cannot be taken for those of an entry. -/
@[mk_iff]
structure IntroWritable (text : String) : Prop where
  nonempty : text ≠ ""
  trimmed : Text.trim text = text
  lineTrimmed : ∀ line ∈ Text.splitOn '\n' text, Text.trim line = line
  unhyphened : ∀ line ∈ Text.splitOn '\n' text, Text.startsWith "-" line = false

@[mk_iff]
structure EntryWritable (key text : String) : Prop where
  keyTrimmed : Text.trim key = key
  keyUnbroken : '\n' ∉ key.toList
  keyUncut : ':' ∉ key.toList
  nonempty : text ≠ ""
  trimmed : Text.trim text = text
  unbroken : '\n' ∉ text.toList

/-- The lists that can be read back: not empty, and the introduction before all entries. -/
@[mk_iff]
structure Writable (list : HyphenList) : Prop where
  nonempty : list.isEmpty = false
  introFirst : introKey ∉ list.entries.keys.tail
  intro : ∀ text ∈ list.intro?, IntroWritable text
  keyed : ∀ entry ∈ list.keyed, EntryWritable entry.1 entry.2

instance (text : String) : Decidable (IntroWritable text) := decidable_of_iff' _ (introWritable_iff text)

instance (key text : String) : Decidable (EntryWritable key text) :=
  decidable_of_iff' _ (entryWritable_iff key text)

instance (list : HyphenList) : Decidable list.Writable := decidable_of_iff' _ (writable_iff list)

def introLines (list : HyphenList) : List String :=
  match list.intro? with
  | some text => Text.splitOn '\n' text
  | none => []

theorem assign_of_unhyphened {line : String} (unhyphened : Text.startsWith "-" line = false)
    (current : String) : assign current line = (current, Text.trim line) := by
  have noEntry : Text.after? "-" line = none := by
    rw [Text.after?, Chars.after?_eq_none]
    · rfl
    · rwa [← List.isPrefixOf_iff_prefix, Bool.not_eq_true]
  simp [assign, noEntry]

theorem assign_row {key text : String} (named : key ≠ introKey) (writable : EntryWritable key text)
    (current : String) : assign current (row key text) = (key, text) := by
  have written : (row key text).toList = "-".toList ++ (' ' :: key.toList ++ ':' :: ' ' :: text.toList) := by
    simp [row, named]
  have entry : Text.after? "-" (row key text) =
      some (String.ofList (' ' :: key.toList ++ ':' :: ' ' :: text.toList)) := by
    rw [Text.after?, written, Chars.after?_append]
    rfl
  have cut : Text.splitFirst? ':' (String.ofList (' ' :: key.toList ++ ':' :: ' ' :: text.toList)) =
      some (String.ofList (' ' :: key.toList), String.ofList (' ' :: text.toList)) := by
    rw [Text.splitFirst?, String.toList_ofList, Chars.splitFirst?_append]
    · rfl
    · simpa using writable.keyUncut
  have unspaced : ∀ part : String, Text.trim part = part →
      Text.trim (String.ofList (' ' :: part.toList)) = part := by
    intro part trimmed
    rw [Text.trim, String.toList_ofList, Chars.trim_cons_of_blank (by decide)]
    exact trimmed
  simp only [assign, entry, cut]
  rw [unspaced key writable.keyTrimmed, unspaced text writable.trimmed]

theorem Reading.foldl_intro {lines : List String} (trimmed : ∀ line ∈ lines, Text.trim line = line)
    (unhyphened : ∀ line ∈ lines, Text.startsWith "-" line = false) {reading : Reading}
    {held : List String} (current : reading.current = introKey)
    (pieces : reading.pieces.entries = [(introKey, held)]) :
    (lines.foldl Reading.line reading).pieces.entries = [(introKey, held ++ lines)] := by
  induction lines generalizing reading held with
  | nil => simpa using pieces
  | cons line rest ih =>
      have assigned : assign reading.current line = (introKey, line) := by
        rw [assign_of_unhyphened (unhyphened line (by simp)), trimmed line (by simp), current]
      have stays : (reading.line line).current = introKey := by
        simp [Reading.line, assigned]
      have added : (reading.line line).pieces.entries = [(introKey, held ++ [line])] := by
        simp [Reading.line, assigned, OrderedMap.upsert, pieces, OrderedMap.upsertIn]
      have others := ih (fun other member => trimmed other (by simp [member]))
        (fun other member => unhyphened other (by simp [member])) stays added
      rw [List.foldl_cons, others, List.append_assoc, List.singleton_append]

theorem Reading.foldl_keyed {entries : List (String × String)} (reading : Reading)
    (writable : ∀ entry ∈ entries, entry.1 ≠ introKey ∧ EntryWritable entry.1 entry.2)
    (distinct : (reading.pieces.entries.map Prod.fst ++ entries.map Prod.fst).Nodup) :
    ((entries.map fun entry => row entry.1 entry.2).foldl Reading.line reading).pieces.entries =
      reading.pieces.entries ++ entries.map fun entry => (entry.1, [entry.2]) := by
  induction entries generalizing reading with
  | nil => simp
  | cons entry rest ih =>
      obtain ⟨key, text⟩ := entry
      obtain ⟨named, entryWritable⟩ := writable (key, text) (by simp)
      have fresh : key ∉ reading.pieces.entries.map Prod.fst := by
        intro known
        exact (List.nodup_append.mp distinct).2.2 key known key (by simp) rfl
      have added : (reading.line (row key text)).pieces.entries =
          reading.pieces.entries ++ [(key, [text])] := by
        simp only [Reading.line, assign_row named entryWritable, OrderedMap.upsert]
        rw [OrderedMap.upsertIn_of_not_mem fresh]
        rfl
      rw [List.map_cons, List.foldl_cons, ih, added]
      · simp
      · intro other member
        exact writable other (by simp [member])
      · rw [added]
        simpa using distinct

/-- The introduction stands before the other entries. -/
theorem entries_eq_append {list : HyphenList} (introFirst : introKey ∉ list.entries.keys.tail) :
    list.entries.entries = (list.intro?.toList.map fun text => (introKey, text)) ++ list.keyed := by
  obtain ⟨entries, distinct⟩ := list
  cases entries with
  | nil => rfl
  | cons entry rest =>
      obtain ⟨key, text⟩ := entry
      have named : ∀ other ∈ rest, other.1 ≠ introKey := by
        intro other member same
        exact introFirst (List.mem_map.mpr ⟨other, member, same⟩)
      have kept : (rest.filter fun other => !decide (other.1 = introKey)) = rest := by
        rw [List.filter_eq_self]
        simpa using named
      by_cases same : key = introKey
      · subst same
        simp [intro?, get?, OrderedMap.get?, keyed, kept]
      · have absent : rest.lookup introKey = none := by
          rw [List.lookup_eq_none_iff]
          intro other member
          simpa using Ne.symm (named other member)
        simp [intro?, get?, OrderedMap.get?, keyed, kept, OrderedMap.lookup_cons_eq_ite, same,
          Ne.symm same, absent]

theorem rows_eq_append {list : HyphenList} (writable : list.Writable) :
    list.rows = list.intro?.toList ++ list.keyed.map fun entry => row entry.1 entry.2 := by
  have introRow : ∀ text, row introKey text = text := fun text => if_pos rfl
  rw [rows, entries_eq_append writable.introFirst]
  simp [introRow, Function.comp_def]

theorem named_of_mem_keyed {list : HyphenList} {entry : String × String}
    (member : entry ∈ list.keyed) : entry.1 ≠ introKey := by
  simpa [keyed] using (List.mem_filter.mp member).2

theorem row_unbroken {key text : String} (writable : EntryWritable key text) :
    '\n' ∉ (row key text).toList := by
  unfold row
  split
  · exact writable.unbroken
  · simp [writable.keyUnbroken, writable.unbroken]

theorem row_trimmed {key text : String} (named : key ≠ introKey) (writable : EntryWritable key text) :
    row key text ≠ "" ∧ Text.trim (row key text) = row key text := by
  have written : (row key text).toList = ('-' :: ' ' :: key.toList ++ [':', ' ']) ++ text.toList := by
    simp [row, named]
  have full : text.toList ≠ [] := by simpa using writable.nonempty
  constructor
  · intro empty
    rw [empty] at written
    cases written
  · rw [Text.trim_eq_self_iff, written]
    constructor
    · intro c first
      cases first
      decide
    · rw [List.getLast?_append_of_ne_nil _ full]
      exact (Text.trim_eq_self_iff.mp writable.trimmed).2

theorem rows_trimmed {list : HyphenList} (writable : list.Writable) :
    ∀ chunk ∈ list.rows, chunk ≠ "" ∧ Text.trim chunk = chunk := by
  intro chunk member
  rw [rows_eq_append writable] at member
  rcases List.mem_append.mp member with member | member
  · have introWritable := writable.intro chunk (Option.mem_toList.mp member)
    exact ⟨introWritable.nonempty, introWritable.trimmed⟩
  · obtain ⟨entry, isKeyed, rfl⟩ := List.mem_map.mp member
    exact row_trimmed (named_of_mem_keyed isKeyed) (writable.keyed entry isKeyed)

theorem splitOn_rows {list : HyphenList} (writable : list.Writable) :
    list.rows.flatMap (Text.splitOn '\n') =
      list.introLines ++ list.keyed.map fun entry => row entry.1 entry.2 := by
  have entries : ∀ entry ∈ list.keyed, Text.splitOn '\n' (row entry.1 entry.2) = [row entry.1 entry.2] :=
    fun entry member => Text.splitOn_of_not_mem (row_unbroken (writable.keyed entry member))
  rw [rows_eq_append writable, List.flatMap_append, List.flatMap_map, List.flatMap_congr entries]
  unfold introLines
  cases list.intro? <;> simp [List.map_eq_flatMap]

theorem introLines_trimmed {list : HyphenList} (intro : ∀ text ∈ list.intro?, IntroWritable text)
    {line : String} (member : line ∈ list.introLines) :
    Text.trim line = line ∧ Text.startsWith "-" line = false := by
  unfold introLines at member
  split at member
  · rename_i text present
    have introWritable := intro text present
    exact ⟨introWritable.lineTrimmed line member, introWritable.unhyphened line member⟩
  · cases member

theorem rows_noReturn {list : HyphenList} (writable : list.Writable) {line : String}
    (member : line ∈ list.rows.flatMap (Text.splitOn '\n')) : line.toList.getLast? ≠ some '\r' := by
  rw [splitOn_rows writable] at member
  rcases List.mem_append.mp member with member | member
  · exact Text.getLast?_ne_of_trimmed (introLines_trimmed writable.intro member).1 (by decide)
  · obtain ⟨entry, isKeyed, rfl⟩ := List.mem_map.mp member
    have inner := row_trimmed (named_of_mem_keyed isKeyed) (writable.keyed entry isKeyed)
    exact Text.getLast?_ne_of_trimmed inner.2 (by decide)

theorem lines_rows {list : HyphenList} (writable : list.Writable) :
    Text.lines ("\n".intercalate list.rows) =
      list.introLines ++ list.keyed.map fun entry => row entry.1 entry.2 := by
  rw [← splitOn_rows writable]
  apply Text.lines_intercalate
  · intro chunk inside piece isPiece
    exact rows_noReturn writable (List.mem_flatMap.mpr ⟨chunk, inside, isPiece⟩)
  · intro chunk last
    exact rows_trimmed writable chunk (List.mem_of_getLast? last)

theorem eq_of_entries_eq {first second : HyphenList}
    (same : first.entries.entries = second.entries.entries) : first = second := by
  obtain ⟨firstEntries, _⟩ := first
  obtain ⟨secondEntries, _⟩ := second
  cases same
  rfl

/-- The text that is kept of the pieces under a key. -/
def merged? (key : String) (pieces : List String) : Option String :=
  let text := Text.trim ((separator key).intercalate pieces)
  if text = "" then none else some text

theorem merged?_of_trimmed {key text : String} {pieces : List String} (nonempty : text ≠ "")
    (trimmed : Text.trim text = text) (joined : (separator key).intercalate pieces = text) :
    merged? key pieces = some text := by
  simp [merged?, joined, trimmed, nonempty]

section Reading

variable {list : HyphenList} (intro : ∀ text ∈ list.intro?, IntroWritable text)
  (keyed : ∀ entry ∈ list.keyed, EntryWritable entry.1 entry.2)

include intro

theorem merged?_introLines : merged? introKey list.introLines = list.intro? := by
  unfold introLines
  cases present : list.intro? with
  | none => rfl
  | some text =>
      have introWritable := intro text present
      exact merged?_of_trimmed introWritable.nonempty introWritable.trimmed
        (Text.intercalate_splitOn_feed text)

include keyed

theorem pieces_rows :
    ((list.introLines ++ list.keyed.map fun entry => row entry.1 entry.2).foldl
      Reading.line Reading.start).pieces.entries =
      (introKey, list.introLines) :: list.keyed.map fun entry => (entry.1, [entry.2]) := by
  have introduced : (list.introLines.foldl Reading.line Reading.start).pieces.entries =
      [(introKey, [] ++ list.introLines)] :=
    Reading.foldl_intro (fun _ member => (introLines_trimmed intro member).1)
      (fun _ member => (introLines_trimmed intro member).2) rfl rfl
  rw [List.foldl_append, Reading.foldl_keyed, introduced]
  · rfl
  · intro entry member
    exact ⟨named_of_mem_keyed member, keyed entry member⟩
  · rw [introduced]
    refine List.nodup_cons.mpr ⟨?_, ?_⟩
    · intro member
      obtain ⟨entry, isKeyed, same⟩ := List.mem_map.mp member
      exact named_of_mem_keyed isKeyed same
    · exact list.entries.distinct.sublist (List.filter_sublist.map Prod.fst)

/-- Reading the lines of a list gives the list. -/
theorem ofPieces_rows (introFirst : introKey ∉ list.entries.keys.tail) :
    ofPieces ((list.introLines ++ list.keyed.map fun entry => row entry.1 entry.2).foldl
      Reading.line Reading.start).pieces = list := by
  apply eq_of_entries_eq
  change List.filterMap (fun held => (merged? held.1 held.2).map (held.1, ·))
    ((list.introLines ++ list.keyed.map fun entry => row entry.1 entry.2).foldl
      Reading.line Reading.start).pieces.entries = _
  have entries : ∀ entry ∈ list.keyed,
      ((fun held : String × List String => (merged? held.1 held.2).map (held.1, ·)) ∘
        fun entry => (entry.1, [entry.2])) entry = some entry := by
    intro entry member
    have entryWritable := keyed entry member
    have kept : merged? entry.1 [entry.2] = some entry.2 :=
      merged?_of_trimmed entryWritable.nonempty entryWritable.trimmed (by simp)
    simp [kept]
  rw [pieces_rows intro keyed, entries_eq_append introFirst, List.filterMap_cons,
    merged?_introLines intro, List.filterMap_map, List.filterMap_congr entries, List.filterMap_some]
  cases list.intro? with
  | none => simp
  | some text => simp

end Reading

/-- Reading a list that was written out gives the list. -/
theorem parse_rows {list : HyphenList} (writable : list.Writable) :
    parse ("\n".intercalate list.rows) = list := by
  rw [parse, lines_rows writable]
  exact ofPieces_rows writable.intro writable.keyed writable.introFirst

end HyphenList

end ApiReference
