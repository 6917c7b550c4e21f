import ApiReference.Docstring.Basic
import ApiReference.Proofs.Text.Trim

namespace ApiReference

/-! The layout of a docstring: a preamble, then stretches of lines, each below a header.

`Layout.docstring` says what a layout means without going through its lines one by one.
Every text has exactly one layout, and reading the text gives the meaning of its layout. -/

namespace Chars

/-- A header line has brackets from its first column on, none between them, and only
blanks behind them. -/
theorem headerName?_eq_some_iff {line name : List Char} :
    headerName? line = some name ↔
      ∃ inner tail, line = '[' :: (inner ++ ']' :: tail) ∧
        (∀ c ∈ inner, c ≠ '[' ∧ c ≠ ']') ∧ (∀ c ∈ tail, isBlank c = true) ∧
        name = trim inner := by
  constructor
  · intro named
    unfold headerName? at named
    split at named
    · rename_i rest
      split at named
      · rename_i tail stopped
        split at named
        · rename_i blank
          refine ⟨rest.takeWhile fun c => !isBracket c, tail, ?_, ?_, ?_, ?_⟩
          · rw [← stopped, List.takeWhile_append_dropWhile]
          · intro c member
            have free := List.all_takeWhile (l := rest) (p := fun c => !isBracket c)
            have outside := List.all_eq_true.mp free c member
            simpa [isBracket] using outside
          · exact List.all_eq_true.mp blank
          · exact (Option.some.inj named).symm
        · cases named
      · cases named
    · cases named
  · rintro ⟨inner, tail, rfl, free, blank, rfl⟩
    have outside : ∀ c ∈ inner, (!isBracket c) = true := by
      intro c member
      simp [isBracket, free c member]
    have taken : (inner ++ ']' :: tail).takeWhile (fun c => !isBracket c) = inner := by
      rw [List.takeWhile_append_of_pos outside]
      simp [isBracket]
    have dropped : (inner ++ ']' :: tail).dropWhile (fun c => !isBracket c) = ']' :: tail := by
      rw [List.dropWhile_append_of_pos outside]
      simp [isBracket]
    have allBlank : tail.all isBlank = true := List.all_eq_true.mpr blank
    simp [headerName?, taken, dropped, allBlank]

end Chars

namespace Casing

theorem lower_ne_nil (c : Char) : lower c ≠ [] := by
  unfold lower
  split
  · simp
  · unfold lookup
    split
    · rename_i images found
      simp only [lowerSequences, List.lookup_cons, List.lookup_nil] at found
      split at found
      · cases found
        simp
      · cases found
    · simp

end Casing

/-- Only the empty name stands for the description. -/
theorem Section.ofName?_eq_description_iff {name : String} :
    Section.ofName? name = some .description ↔ name = "" := by
  have lowered : Text.toLower name = "" ↔ name = "" := by
    constructor
    · intro empty
      have noImage : name.toList.flatMap Casing.lower = [] := by
        simpa [Text.toLower] using congrArg String.toList empty
      have noCharacter : name.toList = [] := by
        rcases characters : name.toList with _ | ⟨c, rest⟩
        · rfl
        · rw [characters, List.flatMap_cons] at noImage
          exact absurd (List.append_eq_nil_iff.mp noImage).1 (Casing.lower_ne_nil c)
      simpa using noCharacter
    · rintro rfl
      rfl
  rw [← lowered]
  constructor
  · intro found
    have named := List.find?_some found
    simpa [names] using named
  · intro empty
    simp [ofName?, all, names, empty]

namespace Docstring

/-- A line `[...]` with blanks behind it, together with the text between its brackets,
trimmed. -/
def IsHeader (line name : String) : Prop :=
  ∃ inner tail : List Char, line.toList = '[' :: (inner ++ ']' :: tail) ∧
    (∀ c ∈ inner, c ≠ '[' ∧ c ≠ ']') ∧ (∀ c ∈ tail, Chars.isBlank c = true) ∧
    name = Text.trim (String.ofList inner)

theorem headerName?_eq_some_iff {line name : String} :
    Text.headerName? line = some name ↔ IsHeader line name := by
  simp only [Text.headerName?, Option.map_eq_some_iff, Chars.headerName?_eq_some_iff, IsHeader]
  constructor
  · rintro ⟨_, ⟨inner, tail, written, free, blank, rfl⟩, rfl⟩
    exact ⟨inner, tail, written, free, blank, by simp [Text.trim]⟩
  · rintro ⟨inner, tail, written, free, blank, rfl⟩
    exact ⟨_, ⟨inner, tail, written, free, blank, rfl⟩, by simp [Text.trim]⟩

theorem headerName?_eq_none_iff {line : String} :
    Text.headerName? line = none ↔ ∀ name, ¬ IsHeader line name := by
  simp only [Option.eq_none_iff_forall_ne_some, ne_eq, headerName?_eq_some_iff]

/-- A header line with the lines up to the next header. -/
structure Stretch where
  header : String
  name : String
  body : List String
  opens : IsHeader header name
  plain : ∀ line ∈ body, ∀ name, ¬ IsHeader line name

namespace Stretch

def lines (stretch : Stretch) : List String := stretch.header :: stretch.body

/-- The section that the header opens, if it opens a known one. -/
def section? (stretch : Stretch) : Option Section := Section.ofName? stretch.name

end Stretch

/-- The lines before the first header, and a stretch for every header. -/
structure Layout where
  preamble : List String
  stretches : List Stretch
  plain : ∀ line ∈ preamble, ∀ name, ¬ IsHeader line name

namespace Layout

def lines (layout : Layout) : List String :=
  layout.preamble ++ layout.stretches.flatMap (·.lines)

/-- The preamble, and the lines below every header with the empty name. -/
def described (layout : Layout) : List String :=
  layout.preamble ++ (layout.stretches.filter (·.name = "")).flatMap (·.body)

/-- The lines below the last header of a section. -/
def tagged? (layout : Layout) (wanted : Section) : Option (List String) :=
  (layout.stretches.filter (·.section? = some wanted)).getLast?.map (·.body)

def textOf? (lines : List String) : Option String :=
  let text := Text.trim ("\n".intercalate lines)
  if text = "" then none else some text

def sentenceOf? (lines : List String) : Option String :=
  match (lines.filter fun line => !Text.isBlank line).map Text.trim with
  | [] => none
  | pieces => some (" ".intercalate pieces)

def listOf? (lines : List String) : Option HyphenList :=
  let list := HyphenList.parse (Text.trim ("\n".intercalate lines))
  if list.isEmpty then none else some list

/-- What a layout says. Unknown sections, and all stretches of a tagged section but the
last, count for nothing. -/
def docstring (layout : Layout) : Docstring where
  description := textOf? layout.described
  parameters := (layout.tagged? .parameters).bind listOf?
  returns := (layout.tagged? .returns).bind sentenceOf?
  yields := (layout.tagged? .yields).bind sentenceOf?
  exceptions := (layout.tagged? .exceptions).bind listOf?

/-- The layout of one header line more. -/
def underHeader (header name : String) (opens : IsHeader header name) (rest : Layout) : Layout where
  preamble := []
  stretches := ⟨header, name, rest.preamble, opens, rest.plain⟩ :: rest.stretches
  plain := by simp

/-- The layout of one line more that is no header. -/
def afterLine (line : String) (noHeader : ∀ name, ¬ IsHeader line name) (rest : Layout) : Layout where
  preamble := line :: rest.preamble
  stretches := rest.stretches
  plain := by
    intro other member
    rcases List.mem_cons.mp member with rfl | member
    · exact noHeader
    · exact rest.plain other member

theorem lines_underHeader {header name : String} (opens : IsHeader header name) (rest : Layout) :
    (underHeader header name opens rest).lines = header :: rest.lines := by
  simp [lines, underHeader, Stretch.lines]

theorem lines_afterLine {line : String} (noHeader : ∀ name, ¬ IsHeader line name) (rest : Layout) :
    (afterLine line noHeader rest).lines = line :: rest.lines := by
  simp [lines, afterLine]

theorem exists_lines_eq (lines : List String) : ∃ layout : Layout, layout.lines = lines := by
  induction lines with
  | nil => exact ⟨⟨[], [], by simp⟩, rfl⟩
  | cons line rest ih =>
      obtain ⟨layout, rfl⟩ := ih
      by_cases header : ∃ name, IsHeader line name
      · obtain ⟨name, opens⟩ := header
        exact ⟨underHeader line name opens layout, lines_underHeader opens layout⟩
      · have noHeader : ∀ name, ¬ IsHeader line name := not_exists.mp header
        exact ⟨afterLine line noHeader layout, lines_afterLine noHeader layout⟩

/-- The first line of a layout decides how the layout begins. -/
theorem lines_eq_cons {layout : Layout} {line : String} {others : List String}
    (begins : layout.lines = line :: others) :
    ∃ rest : Layout, rest.lines = others ∧
      ((∃ name opens, layout = underHeader line name opens rest) ∨
        ∃ noHeader, layout = afterLine line noHeader rest) := by
  obtain ⟨preamble, stretches, plain⟩ := layout
  cases preamble with
  | cons first more =>
      obtain ⟨rfl, tail⟩ := List.cons.inj begins
      have noHeader := plain first (by simp)
      refine ⟨⟨more, stretches, fun other member => plain other (by simp [member])⟩, tail, .inr ?_⟩
      exact ⟨noHeader, rfl⟩
  | nil =>
      cases stretches with
      | nil => cases begins
      | cons stretch more =>
          obtain ⟨header, name, body, opens, free⟩ := stretch
          obtain ⟨rfl, tail⟩ := List.cons.inj begins
          exact ⟨⟨body, more, free⟩, tail, .inl ⟨name, opens, rfl⟩⟩

theorem eq_of_lines_eq {first second : Layout} (same : first.lines = second.lines) :
    first = second := by
  generalize written : second.lines = lines at same
  induction lines generalizing first second with
  | nil =>
      obtain ⟨_ | _, _ | _, _⟩ := first
      · obtain ⟨_ | _, _ | _, _⟩ := second
        · rfl
        all_goals cases written
      all_goals cases same
  | cons line others ih =>
      obtain ⟨left, leftLines, leftCase⟩ := lines_eq_cons same
      obtain ⟨right, rightLines, rightCase⟩ := lines_eq_cons written
      obtain rfl := ih leftLines rightLines
      rcases leftCase with ⟨name, opens, rfl⟩ | ⟨noHeader, rfl⟩ <;>
        rcases rightCase with ⟨other, alsoOpens, rfl⟩ | ⟨alsoNone, rfl⟩
      · -- the name of a header line is a function of the line
        have names : some name = some other := by
          rw [← headerName?_eq_some_iff.mpr opens, headerName?_eq_some_iff.mpr alsoOpens]
        obtain rfl := Option.some.inj names
        rfl
      · exact absurd opens (alsoNone name)
      · exact absurd alsoOpens (noHeader other)
      · rfl

end Layout

@[simp] theorem Bodies.get_set (bodies : Bodies) (lines : List String) (changed wanted : Section) :
    (bodies.set lines changed).get wanted = if wanted = changed then lines else bodies.get wanted := by
  cases changed <;> cases wanted <;> rfl

namespace Reading

theorem line_of_header {header name : String} (opens : IsHeader header name) (reading : Reading) :
    reading.line header = reading.openSection name := by
  simp [line, headerName?_eq_some_iff.mpr opens]

theorem line_of_plain {text : String} (noHeader : ∀ name, ¬ IsHeader text name)
    (reading : Reading) : reading.line text = reading.addLine text := by
  simp [line, headerName?_eq_none_iff.mpr noHeader]

@[simp] theorem current_openSection (reading : Reading) (name : String) :
    (reading.openSection name).current = Section.ofName? name := by
  unfold openSection
  split <;> simp [*]

theorem get_openSection (reading : Reading) (name : String) (wanted : Section) :
    (reading.openSection name).bodies.get wanted =
      if Section.ofName? name = some wanted ∧ wanted ≠ .description then []
      else reading.bodies.get wanted := by
  unfold openSection
  split
  · rename_i unknown
    simp [unknown]
  · rename_i described
    rw [described, if_neg]
    rintro ⟨same, other⟩
    exact other (Option.some.inj same).symm
  · rename_i tagged notDescription known
    rw [Bodies.get_set, known]
    by_cases same : wanted = tagged
    · subst same
      have tagged : wanted ≠ .description := notDescription
      simp [tagged]
    · simp [same, Ne.symm same]

@[simp] theorem current_addLine (reading : Reading) (text : String) :
    (reading.addLine text).current = reading.current := by
  unfold addLine
  split <;> rfl

theorem get_addLine (reading : Reading) (text : String) (wanted : Section) :
    (reading.addLine text).bodies.get wanted =
      reading.bodies.get wanted ++ if reading.current = some wanted then [text] else [] := by
  unfold addLine
  split
  · rename_i closed
    simp [closed]
  · rename_i current known
    rw [Bodies.get_set, known]
    by_cases same : wanted = current
    · simp [same]
    · simp [same, Ne.symm same]

/-- Lines that are no header all go to the section that is open. -/
theorem get_foldl_plain {lines : List String} (plain : ∀ line ∈ lines, ∀ name, ¬ IsHeader line name)
    (reading : Reading) (wanted : Section) :
    (lines.foldl line reading).bodies.get wanted =
      reading.bodies.get wanted ++ if reading.current = some wanted then lines else [] := by
  induction lines generalizing reading with
  | nil => simp
  | cons first rest ih =>
      rw [List.foldl_cons, line_of_plain (plain first (by simp)),
        ih (fun other member => plain other (by simp [member])), get_addLine, current_addLine]
      by_cases isOpen : reading.current = some wanted
      · simp [isOpen]
      · simp [isOpen]

/-- A stretch starts its section anew, except the description, and touches no other. -/
theorem get_foldl_stretch (stretch : Stretch) (reading : Reading) (wanted : Section) :
    (stretch.lines.foldl line reading).bodies.get wanted =
      if stretch.section? = some wanted then
        if wanted = .description then reading.bodies.get wanted ++ stretch.body else stretch.body
      else reading.bodies.get wanted := by
  rw [Stretch.lines, List.foldl_cons, line_of_header stretch.opens,
    get_foldl_plain stretch.plain, get_openSection, current_openSection]
  change (if stretch.section? = some wanted ∧ wanted ≠ .description then []
    else reading.bodies.get wanted) ++ (if stretch.section? = some wanted then stretch.body else []) = _
  by_cases named : stretch.section? = some wanted
  · by_cases described : wanted = .description
    · simp [named, described]
    · simp [named, described]
  · simp [named]

theorem description_foldl_stretches (stretches : List Stretch) (reading : Reading) :
    ((stretches.flatMap (·.lines)).foldl line reading).bodies.get .description =
      reading.bodies.get .description ++
        (stretches.filter (·.name = "")).flatMap (·.body) := by
  induction stretches generalizing reading with
  | nil => simp
  | cons stretch rest ih =>
      rw [List.flatMap_cons, List.foldl_append, ih, get_foldl_stretch]
      have described : stretch.section? = some .description ↔ stretch.name = "" :=
        Section.ofName?_eq_description_iff
      by_cases empty : stretch.name = ""
      · simp [described.mpr empty, empty]
      · simp [mt described.mp empty, empty]

/-- Of all stretches of a tagged section only the last one is left. -/
theorem tagged_foldl_stretches {wanted : Section} (tagged : wanted ≠ .description)
    (stretches : List Stretch) (reading : Reading) :
    ((stretches.flatMap (·.lines)).foldl line reading).bodies.get wanted =
      ((stretches.filter (·.section? = some wanted)).getLast?.map (·.body)).getD
        (reading.bodies.get wanted) := by
  induction stretches generalizing reading with
  | nil => simp
  | cons stretch rest ih =>
      rw [List.flatMap_cons, List.foldl_append, ih, get_foldl_stretch]
      by_cases named : stretch.section? = some wanted
      · simp only [named, tagged, if_true, if_false, List.filter_cons, decide_true,
          List.getLast?_cons]
        cases (rest.filter (·.section? = some wanted)).getLast? <;> rfl
      · simp [named]

end Reading

namespace Layout

theorem get_foldl_start (layout : Layout) (wanted : Section) :
    (layout.lines.foldl Reading.line Reading.start).bodies.get wanted =
      if wanted = .description then layout.described else (layout.tagged? wanted).getD [] := by
  have preamble : ∀ wanted, (layout.preamble.foldl Reading.line Reading.start).bodies.get wanted =
      if wanted = .description then layout.preamble else [] := by
    intro wanted
    rw [Reading.get_foldl_plain layout.plain]
    cases wanted <;> simp [Reading.start, Bodies.get]
  rw [lines, List.foldl_append]
  by_cases same : wanted = .description
  · subst same
    rw [Reading.description_foldl_stretches, preamble]
    simp [described]
  · rw [Reading.tagged_foldl_stretches same, preamble]
    simp [same, tagged?]

theorem block?_eq_textOf? (lines : List String) : block? lines = textOf? lines := rfl

theorem list?_eq_listOf? (lines : List String) : list? lines = listOf? lines := rfl

theorem flat?_eq_sentenceOf? (lines : List String) : flat? lines = sentenceOf? lines := by
  have pieces : (lines.map Text.trim).filter (· ≠ "") =
      (lines.filter fun line => !Text.isBlank line).map Text.trim := by
    rw [List.filter_map]
    congr 1
    apply List.filter_congr
    intro line _
    by_cases blank : Text.isBlank line = true
    · simp [blank, Text.trim_eq_empty_iff.mpr blank]
    · simp [blank, mt Text.trim_eq_empty_iff.mp blank]
  have full : ∀ piece ∈ (lines.map Text.trim).filter (· ≠ ""), piece ≠ "" := by
    intro piece member
    simpa using (List.mem_filter.mp member).2
  unfold flat? sentenceOf?
  rw [← pieces]
  cases kept : (lines.map Text.trim).filter (· ≠ "") with
  | nil => simp [nonEmpty?]
  | cons first rest =>
      rw [kept] at full
      have joined : " ".intercalate (first :: rest) ≠ "" := by
        cases rest with
        | nil => simpa using full first
        | cons second more => simp [full first]
      simp [nonEmpty?, joined]

theorem sentenceOf?_getD (lines : Option (List String)) :
    sentenceOf? (lines.getD []) = lines.bind sentenceOf? := by
  cases lines <;> rfl

theorem listOf?_nil : listOf? [] = none := by
  have blank : Text.trim ("\n".intercalate []) = "" := by
    rw [String.intercalate_nil]
    rfl
  unfold listOf?
  rw [blank]
  rfl

theorem listOf?_getD (lines : Option (List String)) :
    listOf? (lines.getD []) = lines.bind listOf? := by
  cases lines with
  | none => rw [Option.getD_none, Option.bind_none, listOf?_nil]
  | some lines => rw [Option.getD_some, Option.bind_some]

/-- Every text has one layout, and reading the text gives what the layout says. -/
theorem parse_eq_docstring (text : String) :
    ∃ layout : Layout, layout.lines = Text.lines text ∧
      (∀ other : Layout, other.lines = Text.lines text → other = layout) ∧
      parse (some text) = layout.docstring := by
  obtain ⟨layout, written⟩ := exists_lines_eq (Text.lines text)
  refine ⟨layout, written, fun other alsoWritten => eq_of_lines_eq (alsoWritten.trans written.symm), ?_⟩
  have described := layout.get_foldl_start .description
  have parameters := layout.get_foldl_start .parameters
  have returns := layout.get_foldl_start .returns
  have yields := layout.get_foldl_start .yields
  have exceptions := layout.get_foldl_start .exceptions
  simp only [written, Bodies.get, if_true, reduceCtorEq, if_false] at described parameters returns yields exceptions
  simp only [parse, ofBodies, docstring, described, parameters, returns, yields, exceptions,
    block?_eq_textOf?, flat?_eq_sentenceOf?, list?_eq_listOf?, sentenceOf?_getD, listOf?_getD]

end Layout

end Docstring

end ApiReference
