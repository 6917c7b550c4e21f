import ApiReference.Proofs.Docstring.Grouping
import ApiReference.Proofs.Docstring.Layout

namespace ApiReference

/-! What can be relied on in a docstring that was read, whatever its text.

The entries of a list come from the groups of its lines, so that what is said of an entry follows
from what is said of a line (`mem_keys_parse`, `exists_of_mem_kept`). -/

namespace HyphenList

/-- The form of every list that was read. -/
structure Tidy (list : HyphenList) : Prop where
  keyDistinct : list.entries.keys.Nodup
  keyTrimmed : ∀ key ∈ list.entries.keys, Text.trim key = key
  keyUncut : ∀ key ∈ list.entries.keys, ':' ∉ key.toList
  keyUnbroken : ∀ key ∈ list.entries.keys, '\n' ∉ key.toList
  nonempty : ∀ entry ∈ list.entries.entries, entry.2 ≠ ""
  trimmed : ∀ entry ∈ list.entries.entries, Text.trim entry.2 = entry.2
  unbroken : ∀ entry ∈ list.keyed, '\n' ∉ entry.2.toList
  introLines : ∀ text ∈ list.intro?, Text.splitOn '\n' text = Text.lines text
  introLineTrimmed : ∀ text ∈ list.intro?, ∀ line ∈ Text.lines text, Text.trim line = line
  introFirst : ∀ text ∈ list.intro?, list.entries.entries.head? = some (introKey, text)

theorem openKey_cases (lines : List String) :
    openKey lines = introKey ∨ ∃ line ∈ lines, ∃ text, opened? line = some (openKey lines, text) := by
  cases last : (lines.filterMap opened?).getLast? with
  | none =>
      left
      rw [openKey, last]
      rfl
  | some own =>
      right
      obtain ⟨line, member, opens⟩ := List.mem_filterMap.mp (List.mem_of_getLast? last)
      have same : openKey lines = own.1 := by rw [openKey, last]; rfl
      exact ⟨line, member, own.2, by rw [opens, same]⟩

theorem mem_keys_parse {text key : String} (member : key ∈ (parse text).entries.keys) :
    key = introKey ∨ ∃ line ∈ Text.lines text, ∃ piece, opened? line = some (key, piece) := by
  obtain ⟨entry, listed, rfl⟩ := List.mem_map.mp member
  rw [entries_parse] at listed
  have merged := mem_grouped_iff.mp listed
  have full : piecesOf (assigned (Text.lines text)) entry.1 ≠ [] := by
    intro empty
    rw [empty, merged?_nil] at merged
    cases merged
  obtain ⟨other, inside⟩ := List.exists_mem_of_ne_nil _ full
  obtain ⟨pair, paired, rfl⟩ := List.mem_map.mp inside
  obtain ⟨isAssigned, same⟩ := List.mem_filter.mp paired
  obtain ⟨index, _, rfl⟩ := List.mem_mapIdx.mp isAssigned
  rw [← of_decide_eq_true same]
  rcases openKey_cases ((Text.lines text).take (index + 1)) with isIntro | ⟨line, before, opens⟩
  · exact .inl isIntro
  · exact .inr ⟨line, List.take_subset _ _ before, opens⟩

theorem exists_of_mem_kept {lines : List String} {key text : String}
    (member : text ∈ kept (assigned lines) key) : ∃ line ∈ lines, piece line = text :=
  exists_of_mem_piecesOf (Text.mem_of_mem_withoutEmptyEnds member)

theorem unbroken_of_mem_kept {text key part : String} (member : part ∈ kept (assigned (Text.lines text)) key) :
    '\n' ∉ part.toList := by
  obtain ⟨line, inside, rfl⟩ := exists_of_mem_kept member
  exact fun broken => Text.unbroken_of_mem_lines inside (piece_subset line broken)

theorem trimmed_of_mem_kept {lines : List String} {key text : String}
    (member : text ∈ kept (assigned lines) key) : Text.trim text = text := by
  obtain ⟨line, _, rfl⟩ := exists_of_mem_kept member
  exact piece_trimmed line

theorem key_of_mem_keys {text key : String} (member : key ∈ (parse text).entries.keys) :
    Text.trim key = key ∧ ':' ∉ key.toList ∧ '\n' ∉ key.toList := by
  rcases mem_keys_parse member with rfl | ⟨line, inside, piece, opens⟩
  · exact ⟨rfl, List.not_mem_nil, List.not_mem_nil⟩
  · obtain ⟨⟨trimmed, uncut, taken⟩, _⟩ := opened?_eq_some opens
    exact ⟨trimmed, uncut, fun broken => Text.unbroken_of_mem_lines inside (taken broken)⟩

theorem text_of_mem_entries {text : String} {entry : String × String} (member : entry ∈ (parse text).entries.entries) :
    entry.2 ≠ "" ∧ Text.trim entry.2 = entry.2 := by
  rw [entries_parse] at member
  obtain ⟨joined, full⟩ := merged?_eq_some_iff.mp (mem_grouped_iff.mp member)
  exact ⟨full, by rw [← joined, Text.trim_trim]⟩

/-- The lines of an introduction are the pieces that it was made of. -/
theorem lines_intro {text intro : String} (present : (parse text).intro? = some intro) :
    Text.lines intro = kept (assigned (Text.lines text)) introKey ∧
      Text.splitOn '\n' intro = kept (assigned (Text.lines text)) introKey := by
  have member : (introKey, intro) ∈ (parse text).entries.entries := OrderedMap.get?_eq_some_iff.mp present
  have full : intro ≠ "" := (text_of_mem_entries member).1
  rw [entries_parse] at member
  have joined : intro = "\n".intercalate (kept (assigned (Text.lines text)) introKey) :=
    text_eq_of_mem_grouped member
  have whole : ∀ part ∈ kept (assigned (Text.lines text)) introKey, Text.splitOn '\n' part = [part] :=
    fun part inside => Text.splitOn_of_not_mem (unbroken_of_mem_kept inside)
  have parts : (kept (assigned (Text.lines text)) introKey).flatMap (Text.splitOn '\n') =
      kept (assigned (Text.lines text)) introKey := by
    rw [List.flatMap_congr whole, List.flatMap_singleton']
  constructor
  · rw [joined, Text.lines_intercalate, parts]
    · intro part inside line isLine
      rw [whole part inside, List.mem_singleton] at isLine
      rw [isLine]
      exact Text.getLast?_ne_of_trimmed (trimmed_of_mem_kept inside) (by decide)
    · intro part last
      refine ⟨?_, trimmed_of_mem_kept (List.mem_of_getLast? last)⟩
      rintro rfl
      exact (Text.ends_of_withoutEmptyEnds _).2 last
  · rw [joined, Text.splitOn_intercalate, parts]
    intro empty
    rw [empty, String.intercalate_nil] at joined
    exact full joined

theorem unbroken_of_mem_keyed {text : String} {entry : String × String} (member : entry ∈ (parse text).keyed) :
    '\n' ∉ entry.2.toList := by
  obtain ⟨listed, _⟩ := List.mem_filter.mp member
  rw [entries_parse] at listed
  have spaced : separator entry.1 = " " := if_neg (named_of_mem_keyed member)
  rw [text_eq_of_mem_grouped listed, spaced, String.toList_intercalate]
  apply Chars.not_mem_intercalate (by decide)
  intro part isPart
  obtain ⟨own, inside, rfl⟩ := List.mem_map.mp isPart
  exact unbroken_of_mem_kept inside

theorem head?_entries_parse {text intro : String} (present : (parse text).intro? = some intro) :
    (parse text).entries.entries.head? = some (introKey, intro) := by
  have merged : merged? introKey (piecesOf (assigned (Text.lines text)) introKey) = some intro := by
    rw [← get?_parse]
    exact present
  rw [entries_parse, grouped, firstKeys, List.eraseDups_cons, List.filterMap_cons, merged]
  rfl

theorem tidy_parse (text : String) : (parse text).Tidy where
  keyDistinct := (parse text).entries.distinct
  keyTrimmed _ member := (key_of_mem_keys member).1
  keyUncut _ member := (key_of_mem_keys member).2.1
  keyUnbroken _ member := (key_of_mem_keys member).2.2
  nonempty _ member := (text_of_mem_entries member).1
  trimmed _ member := (text_of_mem_entries member).2
  unbroken _ member := unbroken_of_mem_keyed member
  introLines _ present := (lines_intro present).2.trans (lines_intro present).1.symm
  introLineTrimmed _ present line member := by
    rw [(lines_intro present).1] at member
    exact trimmed_of_mem_kept member
  introFirst _ present := head?_entries_parse present

end HyphenList

namespace Docstring

/-- The form of every docstring that was read. -/
structure Tidy (doc : Docstring) : Prop where
  description : ∀ text ∈ doc.description, text ≠ "" ∧ Text.trim text = text
  parameters : ∀ list ∈ doc.parameters, list.entries.entries ≠ [] ∧ list.Tidy
  returns : ∀ text ∈ doc.returns, text ≠ "" ∧ Text.trim text = text ∧ '\n' ∉ text.toList
  yields : ∀ text ∈ doc.yields, text ≠ "" ∧ Text.trim text = text ∧ '\n' ∉ text.toList
  exceptions : ∀ list ∈ doc.exceptions, list.entries.entries ≠ [] ∧ list.Tidy

def Present (doc : Docstring) : Section → Prop
  | .description => doc.description ≠ none
  | .parameters => doc.parameters ≠ none
  | .returns => doc.returns ≠ none
  | .yields => doc.yields ≠ none
  | .exceptions => doc.exceptions ≠ none

theorem nonEmpty?_eq_some {text found : String} (present : nonEmpty? text = some found) :
    text = found ∧ found ≠ "" := by
  unfold nonEmpty? at present
  split at present
  · cases present
  · rename_i full
    cases present
    exact ⟨rfl, full⟩

theorem block?_tidy {lines : List String} {text : String} (present : block? lines = some text) :
    text ≠ "" ∧ Text.trim text = text := by
  obtain ⟨rfl, full⟩ := nonEmpty?_eq_some present
  exact ⟨full, Text.trim_trim _⟩

theorem flat?_tidy {lines : List String} (unbroken : ∀ line ∈ lines, '\n' ∉ line.toList) {text : String}
    (present : flat? lines = some text) : text ≠ "" ∧ Text.trim text = text ∧ '\n' ∉ text.toList := by
  obtain ⟨rfl, full⟩ := nonEmpty?_eq_some present
  refine ⟨full, Text.trim_intercalate " " ?_, ?_⟩
  · intro chunk member
    obtain ⟨listed, nonempty⟩ := List.mem_filter.mp member
    obtain ⟨line, _, rfl⟩ := List.mem_map.mp listed
    exact ⟨of_decide_eq_true nonempty, Text.trim_trim line⟩
  · rw [String.toList_intercalate]
    apply Chars.not_mem_intercalate (by decide)
    intro part isPart
    obtain ⟨chunk, member, rfl⟩ := List.mem_map.mp isPart
    obtain ⟨line, inside, rfl⟩ := List.mem_map.mp (List.mem_filter.mp member).1
    exact fun broken => unbroken line inside (Text.trim_subset line broken)

theorem list?_tidy {lines : List String} {list : HyphenList} (present : list? lines = some list) :
    list.entries.entries ≠ [] ∧ list.Tidy := by
  simp only [list?] at present
  split at present
  · cases present
  · rename_i full
    obtain rfl := Option.some.inj present
    refine ⟨?_, HyphenList.tidy_parse _⟩
    simpa [HyphenList.isEmpty, OrderedMap.isEmpty] using full

/-- A line that is read adds itself to a section, or nothing. -/
theorem Reading.mem_of_mem_line {reading : Reading} {line found : String} {wanted : Section}
    (member : found ∈ (reading.line line).bodies.get wanted) : found ∈ reading.bodies.get wanted ∨ found = line := by
  unfold Reading.line at member
  split at member
  · rw [get_openSection] at member
    split at member
    · cases member
    · exact .inl member
  · rw [get_addLine, List.mem_append] at member
    rcases member with earlier | added
    · exact .inl earlier
    · split at added
      · exact .inr (List.mem_singleton.mp added)
      · cases added

theorem Reading.mem_of_mem_foldl {lines : List String} {reading : Reading} {found : String} {wanted : Section}
    (member : found ∈ (lines.foldl Reading.line reading).bodies.get wanted) :
    found ∈ reading.bodies.get wanted ∨ found ∈ lines := by
  induction lines generalizing reading with
  | nil => exact .inl member
  | cons line rest ih =>
      rcases ih member with earlier | later
      · rcases mem_of_mem_line earlier with before | rfl
        · exact .inl before
        · exact .inr List.mem_cons_self
      · exact .inr (List.mem_cons_of_mem _ later)

theorem ofBodies_tidy {bodies : Bodies} (returns : ∀ line ∈ bodies.returns, '\n' ∉ line.toList)
    (yields : ∀ line ∈ bodies.yields, '\n' ∉ line.toList) : (ofBodies bodies).Tidy where
  description text present := by
    simp only [ofBodies, Option.mem_def] at present
    exact block?_tidy present
  parameters list present := by
    simp only [ofBodies, Option.mem_def] at present
    exact list?_tidy present
  returns text present := by
    simp only [ofBodies, Option.mem_def] at present
    exact flat?_tidy returns present
  yields text present := by
    simp only [ofBodies, Option.mem_def] at present
    exact flat?_tidy yields present
  exceptions list present := by
    simp only [ofBodies, Option.mem_def] at present
    exact list?_tidy present

theorem parse_tidy (source : Option String) : (parse source).Tidy := by
  cases source with
  | none => refine ⟨?_, ?_, ?_, ?_, ?_⟩ <;> exact fun _ absent => nomatch absent
  | some text =>
      have unbroken : ∀ wanted, ∀ line ∈ ((Text.lines text).foldl Reading.line Reading.start).bodies.get wanted,
          '\n' ∉ line.toList := by
        intro wanted line member
        rcases Reading.mem_of_mem_foldl member with early | inside
        · cases wanted <;> cases early
        · exact Text.unbroken_of_mem_lines inside
      exact ofBodies_tidy (unbroken .returns) (unbroken .yields)

theorem mem_sections_iff {doc : Docstring} {tag : Section} : tag ∈ doc.sections ↔ doc.Present tag := by
  have known : tag ∈ Section.all := by cases tag <;> decide
  rw [sections, List.mem_filter, and_iff_right known]
  cases tag <;> exact Option.isSome_iff_ne_none

theorem isEmpty_iff {doc : Docstring} : doc.isEmpty = true ↔ doc = {} := by
  constructor
  · intro empty
    have absent : ∀ tag, ¬ doc.Present tag := by
      intro tag present
      rw [isEmpty, List.isEmpty_iff] at empty
      have listed := mem_sections_iff.mpr present
      rw [empty] at listed
      cases listed
    obtain ⟨description, parameters, returns, yields, exceptions⟩ := doc
    rw [mk.injEq]
    exact ⟨not_not.mp (absent .description), not_not.mp (absent .parameters), not_not.mp (absent .returns),
      not_not.mp (absent .yields), not_not.mp (absent .exceptions)⟩
  · rintro rfl
    rfl

/-- Whatever is read, each section of it has content in the form of `Tidy`, and the sections that
are there are listed, in the order in which they are rendered. -/
theorem parse_invariant (source : Option String) :
    (parse source).Tidy ∧
    (∀ tag, tag ∈ (parse source).sections ↔ (parse source).Present tag) ∧
    (parse source).sections.Sublist Section.all ∧
    ((parse source).sections = [] ↔ (parse source).isEmpty = true) ∧
    ((parse source).isEmpty = true ↔ parse source = {}) :=
  ⟨parse_tidy source, fun _ => mem_sections_iff, List.filter_sublist, List.isEmpty_iff.symm, isEmpty_iff⟩

end Docstring

end ApiReference
