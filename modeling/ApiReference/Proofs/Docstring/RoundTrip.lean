import ApiReference.Proofs.Docstring.HyphenList
import ApiReference.Proofs.Docstring.Layout
import Mathlib.Data.List.Infix

namespace ApiReference

/-! Docstrings written out: the description, then every tagged section below a header.

`Docstring.Writable` says which docstrings can be read back. The reader goes through the lines
of the text, so the lines of the text come first (`lines_write`), then what each section takes
of them (`get_foldl_write`), and last what is made of the lines of a section. -/

namespace Casing

/-- What holds of a letter in either case. -/
theorem letter_of_toLower {c : Char} (lowered : 'a' ≤ c.toLower ∧ c.toLower ≤ 'z') :
    c ≠ '[' ∧ c ≠ ']' ∧ Chars.isBlank c = false ∧ lower c = [c.toLower] := by
  have small : c.toNat < 128 := by
    by_cases upper : c.val ≥ 'A'.val ∧ c.val ≤ 'Z'.val
    · have bound : c.toNat ≤ 90 := upper.2
      omega
    · have fixed : c.toLower = c := dif_neg upper
      rw [fixed] at lowered
      have bound : c.toNat ≤ 122 := lowered.2
      omega
  have all : ∀ n : Fin 128, 'a' ≤ (Char.ofNat n).toLower ∧ (Char.ofNat n).toLower ≤ 'z' →
      Char.ofNat n ≠ '[' ∧ Char.ofNat n ≠ ']' ∧ Chars.isBlank (Char.ofNat n) = false ∧
        lower (Char.ofNat n) = [(Char.ofNat n).toLower] := by
    decide
  have spelled := all ⟨c.toNat, small⟩
  rw [Char.ofNat_toNat] at spelled
  exact spelled lowered

end Casing

namespace Section

theorem names_letters (tag : Section) : ∀ name ∈ tag.names, ∀ c ∈ name.toList, 'a' ≤ c ∧ c ≤ 'z' := by
  have letters : ∀ name ∈ tag.names, (name.toList.all fun c => 'a' ≤ c ∧ c ≤ 'z') = true := by
    cases tag <;> decide
  intro name member c inside
  simpa using List.all_eq_true.mp (letters name member) c inside

theorem find?_of_mem_names (tag : Section) : ∀ name ∈ tag.names,
    (all.find? fun candidate => name ∈ candidate.names) = some tag := by
  cases tag <;> decide

end Section
namespace Docstring

/-- A header for a section: one of its names in any letter case, below some empty lines. -/
structure Heading where
  tag : Section
  spelling : String
  gap : Nat
  spells : String.ofList (spelling.toList.map Char.toLower) ∈ tag.names

namespace Heading

def line (heading : Heading) : String := "[" ++ heading.spelling ++ "]"

theorem letters (heading : Heading) {c : Char} (member : c ∈ heading.spelling.toList) :
    'a' ≤ c.toLower ∧ c.toLower ≤ 'z' := by
  apply heading.tag.names_letters _ heading.spells
  rw [String.toList_ofList]
  exact List.mem_map_of_mem member

theorem isHeader (heading : Heading) : IsHeader heading.line heading.spelling := by
  refine ⟨heading.spelling.toList, [], by simp [line], ?_, by simp, ?_⟩
  · intro c member
    have letter := Casing.letter_of_toLower (heading.letters member)
    exact ⟨letter.1, letter.2.1⟩
  · have trimmed : Text.trim heading.spelling = heading.spelling := by
      rw [Text.trim_eq_self_iff]
      constructor
      · intro c first
        exact (Casing.letter_of_toLower (heading.letters (List.mem_of_mem_head? first))).2.2.1
      · intro c last
        exact (Casing.letter_of_toLower (heading.letters (List.mem_of_getLast? last))).2.2.1
    simp [trimmed]

theorem ofName?_spelling (heading : Heading) :
    Section.ofName? heading.spelling = some heading.tag := by
  have lowered : Text.toLower heading.spelling =
      String.ofList (heading.spelling.toList.map Char.toLower) := by
    rw [Text.toLower, List.map_eq_flatMap]
    apply congrArg String.ofList
    apply List.flatMap_congr
    intro c member
    exact (Casing.letter_of_toLower (heading.letters member)).2.2.2
  rw [Section.ofName?, lowered]
  exact heading.tag.find?_of_mem_names _ heading.spells

theorem line_closed (heading : Heading) : heading.line ≠ "" ∧ Text.trim heading.line = heading.line := by
  have written : heading.line.toList = '[' :: heading.spelling.toList ++ [']'] := by simp [line]
  constructor
  · intro empty
    rw [empty] at written
    cases written
  · rw [Text.trim_eq_self_iff, written]
    constructor
    · intro c first
      cases first
      decide
    · intro c last
      rw [List.getLast?_append, List.getLast?_singleton] at last
      cases last
      decide

theorem line_unbroken (heading : Heading) : '\n' ∉ heading.line.toList := by
  intro broken
  have member : '\n' ∈ heading.spelling.toList := by simpa [line] using broken
  have letter := Casing.letter_of_toLower (heading.letters member)
  exact absurd letter.2.2.1 (by decide)

end Heading

def rows (doc : Docstring) : Section → List String
  | .description => doc.description.toList
  | .parameters => doc.parameters.toList.flatMap (·.rows)
  | .returns => doc.returns.toList
  | .yields => doc.yields.toList
  | .exceptions => doc.exceptions.toList.flatMap (·.rows)

def headedRows (doc : Docstring) (heading : Heading) : List String :=
  List.replicate heading.gap "" ++ heading.line :: doc.rows heading.tag

/-- The text of a docstring, with its tagged sections below the given headers. -/
def write (doc : Docstring) (headings : List Heading) : String :=
  "\n".intercalate (doc.rows .description ++ headings.flatMap doc.headedRows)

def IsPlain (line : String) : Prop := ∀ name, ¬ IsHeader line name

instance (line : String) : Decidable (IsPlain line) := decidable_of_iff _ headerName?_eq_none_iff

/-- A text of several lines, none of which is a header. -/
@[mk_iff]
structure BlockWritable (text : String) : Prop where
  nonempty : text ≠ ""
  trimmed : Text.trim text = text
  noReturn : ¬ ['\r', '\n'] <:+: text.toList
  plain : ∀ line ∈ Text.lines text, IsPlain line

/-- A text of one line that is no header. -/
@[mk_iff]
structure SentenceWritable (text : String) : Prop where
  nonempty : text ≠ ""
  trimmed : Text.trim text = text
  unbroken : '\n' ∉ text.toList
  plain : IsPlain text

@[mk_iff]
structure ListWritable (list : HyphenList) : Prop where
  writable : list.Writable
  plain : ∀ text ∈ list.intro?, ∀ line ∈ Text.splitOn '\n' text, IsPlain line

/-- The docstrings that can be read back. -/
@[mk_iff]
structure Writable (doc : Docstring) : Prop where
  description : ∀ text ∈ doc.description, BlockWritable text
  parameters : ∀ list ∈ doc.parameters, ListWritable list
  returns : ∀ text ∈ doc.returns, SentenceWritable text
  yields : ∀ text ∈ doc.yields, SentenceWritable text
  exceptions : ∀ list ∈ doc.exceptions, ListWritable list

instance (text : String) : Decidable (BlockWritable text) := decidable_of_iff' _ (blockWritable_iff text)

instance (text : String) : Decidable (SentenceWritable text) :=
  decidable_of_iff' _ (sentenceWritable_iff text)

instance (list : HyphenList) : Decidable (ListWritable list) := decidable_of_iff' _ (listWritable_iff list)

instance (doc : Docstring) : Decidable doc.Writable := decidable_of_iff' _ (writable_iff doc)

def bodyLines (doc : Docstring) (wanted : Section) : List String :=
  (doc.rows wanted).flatMap (Text.splitOn '\n')

/-- What a row has to be like so that the lines it consists of are read back. -/
structure RowReadable (row : String) : Prop where
  nonempty : row ≠ ""
  trimmed : Text.trim row = row
  noReturn : ∀ line ∈ Text.splitOn '\n' row, line.toList.getLast? ≠ some '\r'
  plain : ∀ line ∈ Text.splitOn '\n' row, IsPlain line

theorem SentenceWritable.readable {text : String} (writable : SentenceWritable text) :
    RowReadable text := by
  have single := Text.splitOn_of_not_mem writable.unbroken
  refine ⟨writable.nonempty, writable.trimmed, ?_, ?_⟩
  · intro line member
    rw [single, List.mem_singleton] at member
    subst member
    exact Text.getLast?_ne_of_trimmed writable.trimmed (by decide)
  · intro line member
    rw [single, List.mem_singleton] at member
    subst member
    exact writable.plain

theorem BlockWritable.noReturn_of_mem {text : String} (writable : BlockWritable text) :
    ∀ line ∈ Text.splitOn '\n' text, line.toList.getLast? ≠ some '\r' := by
  intro line member returned
  obtain ⟨front, written⟩ := List.getLast?_eq_some_iff.mp returned
  have joined : ['\n'].intercalate (Chars.splitOn '\n' text.toList) = text.toList := by
    rw [Chars.splitOn_eq, List.intercalate_splitOn]
  have placed := Chars.suffix_or_infix_of_mem '\n' (Text.toList_mem_splitOn.mp member)
  rw [joined, written] at placed
  rcases placed with ⟨before, ending⟩ | inside
  · apply Text.getLast?_ne_of_trimmed writable.trimmed (c := '\r') (by decide)
    simp [← ending]
  · rw [List.append_assoc, List.singleton_append] at inside
    exact writable.noReturn ((List.suffix_append _ _).isInfix.trans inside)

theorem BlockWritable.readable {text : String} (writable : BlockWritable text) :
    RowReadable text := by
  have single : Text.lines ("\n".intercalate [text]) = [text].flatMap (Text.splitOn '\n') := by
    apply Text.lines_intercalate
    · intro chunk inside
      rw [List.mem_singleton.mp inside]
      exact writable.noReturn_of_mem
    · intro chunk last
      cases last
      exact ⟨writable.nonempty, writable.trimmed⟩
  have lines : Text.lines text = Text.splitOn '\n' text := by simpa using single
  refine ⟨writable.nonempty, writable.trimmed, writable.noReturn_of_mem, ?_⟩
  rw [← lines]
  exact writable.plain

theorem isPlain_of_head {line : String} {c : Char} (begins : line.toList.head? = some c)
    (other : c ≠ '[') : IsPlain line := by
  rintro name ⟨inner, tail, written, _⟩
  rw [written] at begins
  exact other (Option.some.inj begins).symm

theorem ListWritable.readable {list : HyphenList} (writable : ListWritable list) :
    ∀ row ∈ list.rows, RowReadable row := by
  intro row member
  obtain ⟨nonempty, trimmed⟩ := HyphenList.rows_trimmed writable.writable row member
  refine ⟨nonempty, trimmed, ?_, ?_⟩
  · intro line isLine
    exact HyphenList.rows_noReturn writable.writable (List.mem_flatMap.mpr ⟨row, member, isLine⟩)
  · rw [HyphenList.rows_eq_append writable.writable] at member
    rcases List.mem_append.mp member with member | member
    · exact writable.plain row (Option.mem_toList.mp member)
    · obtain ⟨entry, isKeyed, rfl⟩ := List.mem_map.mp member
      rw [Text.splitOn_of_not_mem (HyphenList.row_unbroken (writable.writable.keyed entry isKeyed))]
      intro line isLine
      rw [List.mem_singleton.mp isLine]
      apply isPlain_of_head (c := '-')
      · simp [HyphenList.row, HyphenList.named_of_mem_keyed isKeyed]
      · decide

theorem Writable.readable {doc : Docstring} (writable : doc.Writable) (wanted : Section) :
    ∀ row ∈ doc.rows wanted, RowReadable row := by
  intro row member
  cases wanted with
  | description => exact (writable.description row (Option.mem_toList.mp member)).readable
  | parameters =>
      obtain ⟨list, present, member⟩ := List.mem_flatMap.mp member
      exact (writable.parameters list (Option.mem_toList.mp present)).readable row member
  | returns => exact (writable.returns row (Option.mem_toList.mp member)).readable
  | yields => exact (writable.yields row (Option.mem_toList.mp member)).readable
  | exceptions =>
      obtain ⟨list, present, member⟩ := List.mem_flatMap.mp member
      exact (writable.exceptions list (Option.mem_toList.mp present)).readable row member

def headedLines (doc : Docstring) (heading : Heading) : List String :=
  List.replicate heading.gap "" ++ heading.line :: doc.bodyLines heading.tag

theorem splitOn_headedRows (doc : Docstring) (heading : Heading) :
    (doc.headedRows heading).flatMap (Text.splitOn '\n') = doc.headedLines heading := by
  have empty : ∀ count, (List.replicate count "").flatMap (Text.splitOn '\n') = List.replicate count "" := by
    intro count
    have whole : ∀ row ∈ List.replicate count "", Text.splitOn '\n' row = [row] := by
      intro row member
      rw [(List.mem_replicate.mp member).2]
      rfl
    rw [List.flatMap_congr whole]
    exact List.flatMap_singleton' _
  rw [headedRows, List.flatMap_append, empty, List.flatMap_cons,
    Text.splitOn_of_not_mem heading.line_unbroken]
  rfl

theorem closed_of_getLast? {doc : Docstring} (writable : doc.Writable) {headings : List Heading}
    {row : String} (last : (doc.rows .description ++ headings.flatMap doc.headedRows).getLast? = some row) :
    row ≠ "" ∧ Text.trim row = row := by
  rcases List.eq_nil_or_concat headings with rfl | ⟨front, heading, rfl⟩
  · have member : row ∈ doc.rows .description := List.mem_of_getLast? (by simpa using last)
    have readable := writable.readable .description row member
    exact ⟨readable.nonempty, readable.trimmed⟩
  · have final : (heading.line :: doc.rows heading.tag).getLast? = some row := by
      rw [List.concat_eq_append, List.flatMap_append, List.flatMap_singleton, headedRows,
        ← List.append_assoc, ← List.append_assoc, List.getLast?_append_of_ne_nil _ (by simp)] at last
      exact last
    rcases List.mem_cons.mp (List.mem_of_getLast? final) with rfl | member
    · exact heading.line_closed
    · have readable := writable.readable heading.tag row member
      exact ⟨readable.nonempty, readable.trimmed⟩

/-- The lines of a docstring that was written out. -/
theorem lines_write {doc : Docstring} (writable : doc.Writable) (headings : List Heading) :
    Text.lines (doc.write headings) =
      doc.bodyLines .description ++ headings.flatMap doc.headedLines := by
  have sections : (headings.flatMap doc.headedRows).flatMap (Text.splitOn '\n') =
      headings.flatMap doc.headedLines := by
    rw [List.flatMap_assoc]
    exact List.flatMap_congr fun heading _ => doc.splitOn_headedRows heading
  rw [write, Text.lines_intercalate, List.flatMap_append, sections]
  · rfl
  · intro row member
    rcases List.mem_append.mp member with member | member
    · exact (writable.readable .description row member).noReturn
    · obtain ⟨heading, _, member⟩ := List.mem_flatMap.mp member
      rcases List.mem_append.mp member with member | member
      · rw [(List.mem_replicate.mp member).2]
        decide
      · rcases List.mem_cons.mp member with rfl | member
        · rw [Text.splitOn_of_not_mem heading.line_unbroken]
          intro line isLine
          rw [List.mem_singleton.mp isLine]
          exact Text.getLast?_ne_of_trimmed heading.line_closed.2 (by decide)
        · exact (writable.readable heading.tag row member).noReturn
  · exact fun row last => closed_of_getLast? writable last

theorem plain_bodyLines {doc : Docstring} (writable : doc.Writable) (wanted : Section) :
    ∀ line ∈ doc.bodyLines wanted, IsPlain line := by
  intro line member
  obtain ⟨row, isRow, isLine⟩ := List.mem_flatMap.mp member
  exact (writable.readable wanted row isRow).plain line isLine

theorem plain_replicate (count : Nat) : ∀ line ∈ List.replicate count "", IsPlain line := by
  intro line member
  rw [(List.mem_replicate.mp member).2]
  rintro name ⟨inner, tail, written, _⟩
  cases written

/-- One headed section: it takes over its lines, and the section before it the gap. -/
theorem Reading.get_foldl_headed {doc : Docstring} (writable : doc.Writable) {heading : Heading}
    (tagged : heading.tag ≠ .description) (reading : Reading) (wanted : Section) :
    ∃ gap, ((doc.headedLines heading).foldl line reading).bodies.get wanted =
      if wanted = heading.tag then doc.bodyLines wanted
      else reading.bodies.get wanted ++ List.replicate gap "" := by
  rw [headedLines, List.foldl_append, List.foldl_cons, line_of_header heading.isHeader,
    get_foldl_plain (plain_bodyLines writable heading.tag), current_openSection, get_openSection,
    get_foldl_plain (plain_replicate heading.gap), heading.ofName?_spelling]
  by_cases same : wanted = heading.tag
  · subst same
    exact ⟨0, by simp [tagged]⟩
  · by_cases opened : reading.current = some wanted
    · exact ⟨heading.gap, by simp [same, Ne.symm same, opened]⟩
    · exact ⟨0, by simp [same, Ne.symm same, opened]⟩

/-- Headed sections are read one after the other; only empty lines are added to a section. -/
theorem Reading.get_foldl_sections {doc : Docstring} (writable : doc.Writable) {headings : List Heading}
    (tagged : ∀ heading ∈ headings, heading.tag ≠ .description)
    (reading : Reading) (wanted : Section) :
    ∃ gap, ((headings.flatMap doc.headedLines).foldl line reading).bodies.get wanted =
      (if wanted ∈ headings.map (·.tag) then doc.bodyLines wanted else reading.bodies.get wanted) ++
        List.replicate gap "" := by
  induction headings generalizing reading with
  | nil => exact ⟨0, by simp⟩
  | cons heading rest ih =>
      rw [List.flatMap_cons, List.foldl_append]
      obtain ⟨later, laterLines⟩ := ih (fun other member => tagged other (by simp [member]))
        ((doc.headedLines heading).foldl line reading)
      obtain ⟨gap, ownLines⟩ := get_foldl_headed writable (tagged heading (by simp)) reading wanted
      rw [laterLines, ownLines]
      by_cases again : wanted ∈ rest.map (·.tag)
      · exact ⟨later, by simp [again]⟩
      · by_cases same : wanted = heading.tag
        · exact ⟨later, by simp [same]⟩
        · refine ⟨gap + later, ?_⟩
          simp [again, same, List.replicate_append_replicate]

theorem block?_append_replicate (lines : List String) (gap : Nat) :
    block? (lines ++ List.replicate gap "") = block? lines := by
  rw [block?, Text.trim_intercalate_replicate, block?]

theorem list?_append_replicate (lines : List String) (gap : Nat) :
    list? (lines ++ List.replicate gap "") = list? lines := by
  rw [list?, Text.trim_intercalate_replicate, list?]

theorem flat?_append_replicate (lines : List String) (gap : Nat) :
    flat? (lines ++ List.replicate gap "") = flat? lines := by
  have empty : Text.trim "" = "" := rfl
  simp [flat?, empty]

theorem intercalate_bodyLines (doc : Docstring) (wanted : Section) :
    "\n".intercalate (doc.bodyLines wanted) = "\n".intercalate (doc.rows wanted) := by
  by_cases empty : doc.rows wanted = []
  · simp [bodyLines, empty]
  · rw [bodyLines, ← Text.splitOn_intercalate empty, Text.intercalate_splitOn_feed]

theorem block?_bodyLines {doc : Docstring} (writable : doc.Writable) :
    block? (doc.bodyLines .description) = doc.description := by
  rw [block?, intercalate_bodyLines, rows]
  cases present : doc.description with
  | none => rfl
  | some text =>
      have block := writable.description text present
      simp [nonEmpty?, block.trimmed, block.nonempty]

theorem flat?_sentence {text : Option String}
    (writable : ∀ present ∈ text, SentenceWritable present) :
    flat? (text.toList.flatMap (Text.splitOn '\n')) = text := by
  cases text with
  | none => rfl
  | some present =>
      have sentence := writable present rfl
      simp [flat?, nonEmpty?, Text.splitOn_of_not_mem sentence.unbroken, sentence.trimmed, sentence.nonempty]

theorem list?_rows {list : Option HyphenList}
    (writable : ∀ present ∈ list, ListWritable present) {lines : List String}
    (joined : "\n".intercalate lines = "\n".intercalate (list.toList.flatMap (·.rows))) :
    list? lines = list := by
  rw [list?, joined]
  cases list with
  | none => rfl
  | some present =>
      have written := (writable present rfl).writable
      have trimmed := Text.trim_intercalate "\n" (HyphenList.rows_trimmed written)
      simp [trimmed, HyphenList.parse_rows written, written.nonempty]

/-- The tagged sections of a docstring. -/
def tagged (doc : Docstring) : List Section := doc.sections.filter (· ≠ .description)

theorem rows_eq_nil_of_not_mem {doc : Docstring} {wanted : Section} (other : wanted ≠ .description)
    (absent : wanted ∉ doc.tagged) : doc.rows wanted = [] := by
  have missing : doc.has wanted = false := by
    by_contra present
    apply absent
    rw [tagged, sections, List.mem_filter, List.mem_filter]
    refine ⟨⟨by cases wanted <;> decide, by simpa using present⟩, by simpa using other⟩
  cases wanted <;> simp_all [has, rows]

theorem get_foldl_write {doc : Docstring} (writable : doc.Writable) {headings : List Heading}
    (complete : (headings.map (·.tag)).Perm doc.tagged) (wanted : Section) :
    ∃ gap, ((Text.lines (doc.write headings)).foldl Reading.line Reading.start).bodies.get wanted =
      doc.bodyLines wanted ++ List.replicate gap "" := by
  have tagged : ∀ heading ∈ headings, heading.tag ≠ .description := by
    intro heading member
    have isTagged := complete.mem_iff.mp (List.mem_map_of_mem member)
    simpa [Docstring.tagged] using (List.mem_filter.mp isTagged).2
  rw [lines_write writable, List.foldl_append]
  obtain ⟨gap, read⟩ := Reading.get_foldl_sections writable tagged
    ((doc.bodyLines .description).foldl Reading.line Reading.start) wanted
  refine ⟨gap, ?_⟩
  rw [read, Reading.get_foldl_plain (plain_bodyLines writable .description)]
  by_cases headed : wanted ∈ headings.map (·.tag)
  · rw [if_pos headed]
  · rw [if_neg headed]
    by_cases described : wanted = .description
    · subst described
      rfl
    · have absent := rows_eq_nil_of_not_mem described (mt complete.mem_iff.mpr headed)
      cases wanted <;> simp_all [Reading.start, Bodies.get, bodyLines]

/-- Reading a docstring that was written out gives the docstring, whatever the order of its
sections, the names and the letter case of their headers. -/
theorem parse_write {doc : Docstring} (writable : doc.Writable) {headings : List Heading}
    (complete : (headings.map (·.tag)).Perm doc.tagged) :
    parse (some (doc.write headings)) = doc := by
  obtain ⟨_, description⟩ := get_foldl_write writable complete .description
  obtain ⟨_, parameters⟩ := get_foldl_write writable complete .parameters
  obtain ⟨_, returns⟩ := get_foldl_write writable complete .returns
  obtain ⟨_, yields⟩ := get_foldl_write writable complete .yields
  obtain ⟨_, exceptions⟩ := get_foldl_write writable complete .exceptions
  simp only [Bodies.get] at description parameters returns yields exceptions
  simp only [parse, ofBodies, description, parameters, returns, yields, exceptions,
    block?_append_replicate, list?_append_replicate, flat?_append_replicate]
  rw [block?_bodyLines writable, list?_rows writable.parameters (doc.intercalate_bodyLines .parameters),
    list?_rows writable.exceptions (doc.intercalate_bodyLines .exceptions)]
  have returned := flat?_sentence writable.returns
  have yielded := flat?_sentence writable.yields
  simp only [bodyLines, rows, returned, yielded]

/-- The docstring of a division, with an introduction to its parameters. -/
def division : Docstring where
  description := some "Divide.\n\n  [The] result is exact."
  parameters := some ⟨⟨[("", "Both are\n\nintegers"), ("a", "the dividend"), ("b", "the divisor: not 0")],
    by decide⟩⟩
  returns := some "a fraction - reduced"
  exceptions := some ⟨⟨[("ZeroDivisionError", "- if b is 0")], by decide⟩⟩

def divisionHeadings : List Heading :=
  [⟨.exceptions, "Raises", 1, by decide⟩, ⟨.returns, "RETURN", 0, by decide⟩,
    ⟨.parameters, "aRgs", 2, by decide⟩]

theorem parse_write_division :
    division.write divisionHeadings =
      "Divide.\n\n  [The] result is exact.\n\n[Raises]\n- ZeroDivisionError: - if b is 0\n[RETURN]\n" ++
      "a fraction - reduced\n\n\n[aRgs]\nBoth are\n\nintegers\n- a: the dividend\n- b: the divisor: not 0" ∧
    parse (some (division.write divisionHeadings)) = division :=
  ⟨by decide +kernel, parse_write (by decide +kernel) (by decide)⟩

end Docstring

end ApiReference
