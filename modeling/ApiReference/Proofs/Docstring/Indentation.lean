import ApiReference.Docstring.Basic
import ApiReference.Proofs.Docstring.Grouping
import ApiReference.Proofs.Text.Margin

namespace ApiReference

/-! When it matters that the block of a list is trimmed before it is read.

Blank lines around a list, and blanks at the end of a line, add nothing to it. So all depends on
the first line with text: its indentation hides a hyphen, and then the introduction has more
visible characters than without the indentation. -/

namespace HyphenList

/-- The keys and pieces of lines that come after a line of the key `current`. -/
def assignAll (current : String) : List String → List (String × String)
  | [] => []
  | line :: rest => assign current line :: assignAll (assign current line).1 rest

theorem assigned_append (earlier later : List String) :
    assigned (earlier ++ later) = assigned earlier ++ assignAll (openKey earlier) later := by
  induction later generalizing earlier with
  | nil => simp [assignAll]
  | cons line rest ih =>
      have key : (assign (openKey earlier) line).1 = openKey (earlier ++ [line]) := by rw [assign_openKey]
      rw [List.append_cons, ih, assigned_concat, assignAll, key, List.append_assoc, List.singleton_append]

theorem merged?_cons_empty (key : String) (pieces : List String) :
    merged? key ("" :: pieces) = merged? key pieces := by
  have dropped : ("" :: pieces).dropWhile (· = "") = pieces.dropWhile (· = "") :=
    List.dropWhile_cons_of_pos (by simp)
  have same : Text.trim ((separator key).intercalate ("" :: pieces)) =
      Text.trim ((separator key).intercalate pieces) := by
    rw [← Text.trim_intercalate_dropWhile (separator_blank key), dropped,
      Text.trim_intercalate_dropWhile (separator_blank key)]
  rw [merged?, merged?, same]

theorem merged?_concat_empty (key : String) (pieces : List String) :
    merged? key (pieces ++ [""]) = merged? key pieces := by
  have dropped : (pieces ++ [""]).rdropWhile (· = "") = pieces.rdropWhile (· = "") :=
    List.rdropWhile_concat_pos _ _ _ (by simp)
  have same : Text.trim ((separator key).intercalate (pieces ++ [""])) =
      Text.trim ((separator key).intercalate pieces) := by
    rw [← Text.trim_intercalate_rdropWhile (separator_blank key), dropped,
      Text.trim_intercalate_rdropWhile (separator_blank key)]
  rw [merged?, merged?, same]

/-- An empty piece at the start of the introduction adds nothing. -/
theorem grouped_cons_intro (assignment : List (String × String)) :
    grouped ((introKey, "") :: assignment) = grouped assignment := by
  have keys : firstKeys ((introKey, "") :: assignment) = firstKeys assignment := by
    simp [firstKeys, List.eraseDups_cons]
  rw [grouped, grouped, keys]
  apply List.filterMap_congr
  intro key _
  by_cases same : introKey = key
  · subst same
    simp [piecesOf, merged?_cons_empty]
  · simp [piecesOf, same]

/-- An empty piece behind all others adds nothing. -/
theorem grouped_concat_empty (assignment : List (String × String)) (key : String) :
    grouped (assignment ++ [(key, "")]) = grouped assignment := by
  have merged : ∀ wanted, merged? wanted (piecesOf (assignment ++ [(key, "")]) wanted) =
      merged? wanted (piecesOf assignment wanted) := by
    intro wanted
    rw [piecesOf_concat]
    split
    · exact merged?_concat_empty wanted _
    · rfl
  simp only [grouped, merged]
  rw [firstKeys_concat]
  split
  · rfl
  · rename_i fresh
    simp [piecesOf_eq_nil fresh, merged?_nil]

theorem grouped_append_empty (assignment : List (String × String)) {added : List (String × String)}
    (empty : ∀ entry ∈ added, entry.2 = "") : grouped (assignment ++ added) = grouped assignment := by
  induction added using List.reverseRecOn with
  | nil => rw [List.append_nil]
  | append_singleton front last ih =>
      obtain ⟨key, text⟩ := last
      obtain rfl : text = "" := empty (key, text) (by simp)
      rw [← List.append_assoc, grouped_concat_empty, ih fun entry member => empty entry (by simp [member])]

theorem grouped_intro_append {added : List (String × String)} (empty : ∀ entry ∈ added, entry = (introKey, ""))
    (assignment : List (String × String)) : grouped (added ++ assignment) = grouped assignment := by
  induction added with
  | nil => rfl
  | cons entry rest ih =>
      rw [empty entry (by simp), List.cons_append, grouped_cons_intro, ih fun entry member => empty entry (by simp [member])]

theorem opened?_of_colon {before after : List Char} (absent : ':' ∉ before) :
    opened? (String.ofList ('-' :: (before ++ ':' :: after))) =
      some (Text.trim (String.ofList before), Text.trim (String.ofList after)) := by
  have passed : ∀ c ∈ before, decide (c ≠ ':') = true := by
    intro c member
    exact decide_eq_true fun colon => absent (colon ▸ member)
  have taken : (before ++ ':' :: after).takeWhile (· ≠ ':') = before := by
    rw [List.takeWhile_append_of_pos passed]
    simp
  have dropped : (before ++ ':' :: after).dropWhile (· ≠ ':') = ':' :: after := by
    rw [List.dropWhile_append_of_pos passed]
    simp
  have colon : ':' ∈ before ++ ':' :: after := by simp
  simp only [opened?, String.toList_ofList, if_pos colon, taken, dropped, List.tail_cons]

theorem opened?_of_uncut {rest : List Char} (uncut : ':' ∉ rest) :
    opened? (String.ofList ('-' :: rest)) = some (introKey, Text.trim (String.ofList rest)) := by
  simp [opened?, uncut]

theorem trim_append_blank {line ending : List Char} (blank : ∀ c ∈ ending, Chars.isBlank c = true) :
    Text.trim (String.ofList (line ++ ending)) = Text.trim (String.ofList line) := by
  rw [String.ofList_append]
  exact Text.trim_append_of_blank (by simpa using blank) _

theorem opened?_append_blank (line : List Char) {ending : List Char}
    (blank : ∀ c ∈ ending, Chars.isBlank c = true) :
    opened? (String.ofList (line ++ ending)) = opened? (String.ofList line) := by
  by_cases hyphen : line.head? = some '-'
  · obtain ⟨rest, rfl⟩ := List.head?_eq_some_iff.mp hyphen
    by_cases colon : ':' ∈ rest
    · obtain ⟨before, after, rfl, absent⟩ := List.eq_append_cons_of_mem colon
      rw [List.cons_append, List.append_assoc, List.cons_append, opened?_of_colon absent, opened?_of_colon absent,
        trim_append_blank blank]
    · have uncut : ':' ∉ rest ++ ending := by
        intro member
        rcases List.mem_append.mp member with early | late
        · exact colon early
        · exact absurd (blank ':' late) (by decide)
      rw [List.cons_append, opened?_of_uncut uncut, opened?_of_uncut colon, trim_append_blank blank]
  · have other : (line ++ ending).head? ≠ some '-' := by
      cases line with
      | nil =>
          intro first
          exact absurd (blank '-' (List.mem_of_mem_head? first)) (by decide)
      | cons c rest => simpa using hyphen
    rw [opened?_of_unhyphened (by simpa using other), opened?_of_unhyphened (by simpa using hyphen)]

/-- Blanks at the end of a line change neither its key nor its piece. -/
theorem assign_append_blank (current : String) (line : List Char) {ending : List Char}
    (blank : ∀ c ∈ ending, Chars.isBlank c = true) :
    assign current (String.ofList (line ++ ending)) = assign current (String.ofList line) := by
  rw [assign_eq, assign_eq, piece, piece, opened?_append_blank line blank, trim_append_blank blank]

/-- An indented line has no key of its own. -/
theorem opened?_indented {indent : List Char} (blank : ∀ c ∈ indent, Chars.isBlank c = true)
    (indented : indent ≠ []) (line : List Char) : opened? (String.ofList (indent ++ line)) = none := by
  apply opened?_of_unhyphened
  obtain ⟨c, rest, rfl⟩ := List.exists_cons_of_ne_nil indented
  have visible : Chars.isBlank c = true := blank c List.mem_cons_self
  intro first
  have hyphen : c = '-' := by simpa using first
  subst hyphen
  exact absurd visible (by decide)

theorem assign_indented (current : String) {indent : List Char} (blank : ∀ c ∈ indent, Chars.isBlank c = true)
    (indented : indent ≠ []) (line : List Char) :
    assign current (String.ofList (indent ++ line)) = (current, Text.trim (String.ofList line)) := by
  have trimmed : Text.trim (String.ofList (indent ++ line)) = Text.trim (String.ofList line) := by
    rw [String.ofList_append]
    exact Text.trim_append_of_blank_front (by simpa using blank) _
  rw [assign_eq, piece, opened?_indented blank indented, ← trimmed]
  rfl

/-- A blank line stays under the key before it and adds an empty piece. -/
theorem assign_of_blank {line : List Char} (blank : ∀ c ∈ line, Chars.isBlank c = true) (current : String) :
    assign current (String.ofList line) = (current, "") := by
  have empty := assign_append_blank current [] blank
  rw [List.nil_append] at empty
  rw [empty]
  rfl

theorem assigned_eq_assignAll (lines : List String) : assigned lines = assignAll introKey lines :=
  assigned_append [] lines

theorem assignAll_of_blank {lines : List (List Char)} (blank : ∀ line ∈ lines, ∀ c ∈ line, Chars.isBlank c = true)
    (current : String) : ∀ entry ∈ assignAll current (lines.map String.ofList), entry = (current, "") := by
  induction lines with
  | nil => simp [assignAll]
  | cons line rest ih =>
      intro entry member
      rw [List.map_cons, assignAll, assign_of_blank (blank line (by simp))] at member
      rcases List.mem_cons.mp member with rfl | later
      · rfl
      · exact ih (fun other inside => blank other (by simp [inside])) entry later

theorem openKey_of_blank {lines : List (List Char)} (blank : ∀ line ∈ lines, ∀ c ∈ line, Chars.isBlank c = true) :
    openKey (lines.map String.ofList) = introKey := by
  have none : (lines.map String.ofList).filterMap opened? = [] := by
    rw [List.filterMap_eq_nil_iff]
    intro line member
    obtain ⟨cs, listed, rfl⟩ := List.mem_map.mp member
    have empty := opened?_append_blank [] (blank cs listed)
    rw [List.nil_append] at empty
    rw [empty]
    rfl
  rw [openKey, none]
  rfl

theorem entries_parse_ofList (cs : List Char) :
    (parse (String.ofList cs)).entries.entries = grouped (assigned ((Chars.lines cs).map String.ofList)) := by
  rw [entries_parse, Text.lines, String.toList_ofList]

theorem entries_of_blank {cs : List Char} (blank : ∀ c ∈ cs, Chars.isBlank c = true) :
    (parse (String.ofList cs)).entries.entries = [] := by
  have blankLines : ∀ line ∈ Chars.lines cs, ∀ c ∈ line, Chars.isBlank c = true :=
    fun line member c inside => blank c (Chars.mem_of_mem_lines member inside).1
  have nothing := grouped_intro_append (assignAll_of_blank blankLines introKey) []
  rw [List.append_nil, ← assigned_eq_assignAll, ← entries_parse_ofList] at nothing
  rw [nothing]
  rfl

/-- Blanks at the end of a block add nothing to its list. -/
theorem parse_trimEnd (cs : List Char) : parse (String.ofList (Chars.trimEnd cs)) = parse (String.ofList cs) := by
  apply eq_of_entries_eq
  rcases Chars.exists_trimEnd cs with blank | ⟨front, last, tail, rfl, trimmed, blank, visible⟩
  · rw [entries_of_blank blank, Chars.trimEnd_eq_nil_iff.mpr blank, entries_of_blank (by simp)]
  · obtain ⟨init, final, ending, skipped, short, long, endingBlank, skippedBlank⟩ :=
      Chars.lines_append_tail blank visible front
    have added : assigned ((Chars.lines (front ++ last :: tail)).map String.ofList) =
        assigned ((Chars.lines (front ++ [last])).map String.ofList) ++
          assignAll (assign (openKey (init.map String.ofList)) (String.ofList final)).1 (skipped.map String.ofList) := by
      rw [short, long, List.map_append, List.map_append, assigned_append, assigned_append]
      simp only [List.map_cons, List.map_nil, assignAll, assign_append_blank _ _ endingBlank, List.append_assoc,
        List.singleton_append]
    rw [entries_parse_ofList, entries_parse_ofList, trimmed, added, grouped_append_empty]
    intro entry member
    rw [assignAll_of_blank skippedBlank _ entry member]

/-- The first line that is not blank. -/
def firstLine? (block : String) : Option String :=
  (Text.lines block).find? fun line => !Text.isBlank line

/-- A hyphen with blanks before it, and nothing else before it, in a line. -/
def IndentedHyphen (line : String) : Prop :=
  ∃ indent rest : List Char, line.toList = indent ++ '-' :: rest ∧ indent ≠ [] ∧ ∀ c ∈ indent, Chars.isBlank c = true

theorem indentedHyphen_iff {indent rest : List Char} {first : Char} (blank : ∀ c ∈ indent, Chars.isBlank c = true)
    (visible : Chars.isBlank first = false) :
    IndentedHyphen (String.ofList (indent ++ first :: rest)) ↔ indent ≠ [] ∧ first = '-' := by
  constructor
  · rintro ⟨front, after, written, indented, frontBlank⟩
    rw [String.toList_ofList] at written
    have same : indent = front := by
      have taken := congrArg (List.takeWhile Chars.isBlank) written
      have stops : Chars.isBlank '-' = false := by decide
      rw [List.takeWhile_append_of_pos blank, List.takeWhile_append_of_pos frontBlank,
        List.takeWhile_cons_of_neg (by simp [visible]), List.takeWhile_cons_of_neg (by simp [stops]),
        List.append_nil, List.append_nil] at taken
      exact taken
    subst same
    exact ⟨indented, (List.cons.inj (List.append_cancel_left written)).1⟩
  · rintro ⟨indented, rfl⟩
    exact ⟨indent, rest, String.toList_ofList, indented, blank⟩

/-- A block is blank, or its first line with text stands after blank lines and some indentation. -/
theorem exists_firstLine (cs : List Char) :
    (∀ c ∈ cs, Chars.isBlank c = true) ∨ ∃ skipped indent first rest more,
      Chars.lines cs = skipped ++ (indent ++ first :: rest) :: more ∧
      Chars.lines (Chars.trimStart cs) = (first :: rest) :: more ∧
      (∀ line ∈ skipped, ∀ c ∈ line, Chars.isBlank c = true) ∧ (∀ c ∈ indent, Chars.isBlank c = true) ∧
      Chars.isBlank first = false ∧
      firstLine? (String.ofList cs) = some (String.ofList (indent ++ first :: rest)) := by
  rcases Chars.exists_trimStart cs with blank | ⟨front, first, rest, rfl, kept, blank, visible⟩
  · exact .inl blank
  · obtain ⟨line, more, short⟩ := Chars.exists_lines_of_visible visible rest
    obtain ⟨skipped, indent, long, skippedBlank, indentBlank⟩ := Chars.lines_append_front blank visible short
    refine .inr ⟨skipped, indent, first, line, more, long, by rw [kept, short], skippedBlank, indentBlank, visible, ?_⟩
    have none : (skipped.map String.ofList).find? (fun line => !Text.isBlank line) = none := by
      rw [List.find?_eq_none]
      intro text member
      obtain ⟨cs, listed, rfl⟩ := List.mem_map.mp member
      simpa [Text.isBlank] using skippedBlank cs listed
    have found : (!Text.isBlank (String.ofList (indent ++ first :: line))) = true := by
      simp [Text.isBlank, visible]
    rw [firstLine?, Text.lines, String.toList_ofList, long, List.map_append, List.find?_append, none, List.map_cons,
      Option.none_or]
    exact List.find?_cons_of_pos found

section Weight

/-- The number of visible characters of the introduction. -/
def introWeight (assignment : List (String × String)) : Nat :=
  ((piecesOf assignment introKey).map Text.visible).sum

theorem introWeight_cons (entry : String × String) (rest : List (String × String)) :
    introWeight (entry :: rest) = (if entry.1 = introKey then Text.visible entry.2 else 0) + introWeight rest := by
  by_cases isIntro : entry.1 = introKey
  · simp [introWeight, piecesOf, isIntro]
  · simp [introWeight, piecesOf, isIntro]

theorem introWeight_append (earlier later : List (String × String)) :
    introWeight (earlier ++ later) = introWeight earlier + introWeight later := by
  simp [introWeight, piecesOf]

theorem elim_merged? (key : String) (pieces : List String) :
    (merged? key pieces).elim 0 Text.visible = (pieces.map Text.visible).sum := by
  rw [← Text.visible_intercalate (separator_blank key), ← Text.visible_trim]
  cases merged : merged? key pieces with
  | none =>
      have empty : Text.trim ((separator key).intercalate pieces) = "" := by
        by_contra full
        rw [merged?_eq_some_iff.mpr ⟨rfl, full⟩] at merged
        cases merged
      rw [empty]
      rfl
  | some text => rw [(merged?_eq_some_iff.mp merged).1, Option.elim_some]

theorem elim_intro? (text : String) :
    (parse text).intro?.elim 0 Text.visible = introWeight (assigned (Text.lines text)) := by
  rw [intro?, get?_parse, elim_merged?, introWeight]

/-- Nothing gets into the introduction by the key of the lines before. -/
theorem introWeight_assignAll_le (key : String) (lines : List String) :
    introWeight (assignAll key lines) ≤ introWeight (assignAll introKey lines) := by
  induction lines generalizing key with
  | nil => exact Nat.le_refl _
  | cons line rest ih =>
      rw [assignAll, assignAll, assign_eq, assign_eq]
      cases opens : opened? line with
      | some own => exact Nat.le_refl _
      | none =>
          simp only [Option.map_none, Option.getD_none, introWeight_cons, if_true]
          have later := ih key
          split
          · omega
          · omega

/-- What a line gives to its entry has fewer visible characters than the line: the hyphen is left out. -/
theorem visible_opened {rest : List Char} {own : String × String}
    (opens : opened? (String.ofList ('-' :: rest)) = some own) :
    Text.visible own.2 < Text.visible (String.ofList ('-' :: rest)) := by
  have hyphen : Chars.isBlank '-' = false := by decide
  by_cases colon : ':' ∈ rest
  · obtain ⟨before, after, rfl, absent⟩ := List.eq_append_cons_of_mem colon
    rw [opened?_of_colon absent] at opens
    rw [← Option.some.inj opens, Text.visible_trim]
    simp only [Text.visible, String.toList_ofList, List.countP_cons, List.countP_append, hyphen]
    simp
    omega
  · rw [opened?_of_uncut colon] at opens
    rw [← Option.some.inj opens, Text.visible_trim]
    simp [Text.visible, hyphen]

theorem introWeight_hyphen (rest : List Char) (more : List String) :
    introWeight (assignAll introKey (String.ofList ('-' :: rest) :: more)) <
      introWeight ((introKey, Text.trim (String.ofList ('-' :: rest))) :: assignAll introKey more) := by
  have opens := opened?_of_hyphen (String.toList_ofList (l := '-' :: rest)) introKey
  have fewer := visible_opened opens
  have later := introWeight_assignAll_le (assign introKey (String.ofList ('-' :: rest))).1 more
  rw [assignAll, introWeight_cons, introWeight_cons, if_pos rfl, Text.visible_trim]
  split
  · omega
  · omega

end Weight

theorem assigned_of_skipped {skipped : List (List Char)}
    (blank : ∀ line ∈ skipped, ∀ c ∈ line, Chars.isBlank c = true) (later : List String) :
    assigned (skipped.map String.ofList ++ later) = assigned (skipped.map String.ofList) ++ assigned later ∧
      grouped (assigned (skipped.map String.ofList ++ later)) = grouped (assigned later) := by
  have parted : assigned (skipped.map String.ofList ++ later) = assigned (skipped.map String.ofList) ++ assigned later := by
    rw [assigned_append, openKey_of_blank blank, ← assigned_eq_assignAll]
  refine ⟨parted, ?_⟩
  rw [parted, assigned_eq_assignAll (skipped.map String.ofList), grouped_intro_append (assignAll_of_blank blank introKey)]

/-- An indented line counts like the line without its indentation, unless this starts with a hyphen. -/
theorem assign_unindented {indent rest : List Char} {first : Char} (blank : ∀ c ∈ indent, Chars.isBlank c = true)
    (free : ¬ (indent ≠ [] ∧ first = '-')) (current : String) :
    assign current (String.ofList (indent ++ first :: rest)) = assign current (String.ofList (first :: rest)) := by
  by_cases indented : indent = []
  · rw [indented, List.nil_append]
  · have unhyphened : (String.ofList (first :: rest)).toList.head? ≠ some '-' := by
      simpa using fun hyphen => free ⟨indented, hyphen⟩
    rw [assign_indented current blank indented, assign_eq, piece, opened?_of_unhyphened unhyphened]
    rfl

theorem firstLine?_of_blank {cs : List Char} (blank : ∀ c ∈ cs, Chars.isBlank c = true) :
    firstLine? (String.ofList cs) = none := by
  rw [firstLine?, Text.lines, String.toList_ofList, List.find?_eq_none]
  intro line member
  obtain ⟨chars, listed, rfl⟩ := List.mem_map.mp member
  have blankLine : ∀ c ∈ chars, Chars.isBlank c = true := fun c inside => blank c (Chars.mem_of_mem_lines listed inside).1
  simpa [Text.isBlank] using blankLine

/-- The indented line of an entry makes the introduction longer than its entry does. -/
theorem introWeight_indented {indent : List Char} (blank : ∀ c ∈ indent, Chars.isBlank c = true)
    (indented : indent ≠ []) (rest : List Char) (more : List String) :
    introWeight (assigned (String.ofList ('-' :: rest) :: more)) <
      introWeight (assigned (String.ofList (indent ++ '-' :: rest) :: more)) := by
  have stays : assignAll introKey (String.ofList (indent ++ '-' :: rest) :: more) =
      (introKey, Text.trim (String.ofList ('-' :: rest))) :: assignAll introKey more := by
    rw [assignAll, assign_indented introKey blank indented]
  rw [assigned_eq_assignAll, assigned_eq_assignAll, stays]
  exact introWeight_hyphen rest more

/-- Reading a block without the blanks around it gives the same list as reading it as it is,
unless its first line with text is a hyphen that is indented. -/
theorem parse_trim_iff (block : String) :
    parse (Text.trim block) = parse block ↔ ∀ line ∈ firstLine? block, ¬ IndentedHyphen line := by
  have started : parse (Text.trim block) = parse (String.ofList (Chars.trimStart block.toList)) := parse_trimEnd _
  obtain ⟨cs, rfl⟩ : ∃ cs, block = String.ofList cs := ⟨block.toList, by simp⟩
  rw [started, String.toList_ofList]
  rcases exists_firstLine cs with
    blank | ⟨skipped, indent, first, rest, more, long, short, skippedBlank, indentBlank, visible, found⟩
  · have trimmed : ∀ c ∈ Chars.trimStart cs, Chars.isBlank c = true :=
      fun c member => blank c (List.dropWhile_subset _ member)
    rw [firstLine?_of_blank blank]
    refine iff_of_true (eq_of_entries_eq ?_) (by simp)
    rw [entries_of_blank blank, entries_of_blank trimmed]
  · obtain ⟨parted, kept⟩ :=
      assigned_of_skipped skippedBlank (String.ofList (indent ++ first :: rest) :: more.map String.ofList)
    rw [found]
    constructor
    · intro same line isFirst
      obtain rfl := Option.some.inj isFirst
      rw [indentedHyphen_iff indentBlank visible]
      rintro ⟨indented, rfl⟩
      -- equal lists have equal introductions, but the indented hyphen makes one of them longer
      have weights := congrArg (fun list : HyphenList => list.intro?.elim 0 Text.visible) same
      simp only [elim_intro?, Text.lines, String.toList_ofList, short, long, List.map_append, List.map_cons] at weights
      rw [parted, introWeight_append] at weights
      have longer := introWeight_indented indentBlank indented rest (more.map String.ofList)
      omega
    · intro free
      have unindented := (indentedHyphen_iff indentBlank visible).not.mp (free _ rfl)
      apply eq_of_entries_eq
      rw [entries_parse_ofList, entries_parse_ofList, short, long, List.map_append, List.map_cons, List.map_cons, kept,
        assigned_eq_assignAll, assigned_eq_assignAll, assignAll, assignAll, assign_unindented indentBlank unindented]

theorem entries_eq_nil {list : HyphenList} (empty : list.isEmpty = true) : list.entries.entries = [] :=
  List.isEmpty_iff.mp empty

/-- A list that is kept only if it has entries. -/
def present? (list : HyphenList) : Option HyphenList :=
  if list.isEmpty then none else some list

theorem present?_inj {first second : HyphenList} : present? first = present? second ↔ first = second := by
  constructor
  · intro same
    unfold present? at same
    split at same <;> split at same
    · rename_i firstEmpty secondEmpty
      exact eq_of_entries_eq (by rw [entries_eq_nil firstEmpty, entries_eq_nil secondEmpty])
    · cases same
    · cases same
    · exact Option.some.inj same
  · rintro rfl
    rfl

end HyphenList

namespace Docstring

def bodiesOf (text : String) : Bodies := ((Text.lines text).foldl Reading.line Reading.start).bodies

/-- The lines of a section as one block. -/
def blockOf (text : String) (tag : Section) : String := "\n".intercalate ((bodiesOf text).get tag)

/-- The docstring of a text when the blocks of its lists are read as they are. -/
def untrimmed (text : String) : Docstring :=
  { ofBodies (bodiesOf text) with
    parameters := HyphenList.present? (HyphenList.parse (blockOf text .parameters))
    exceptions := HyphenList.present? (HyphenList.parse (blockOf text .exceptions)) }

theorem list?_eq_present? (lines : List String) :
    list? lines = HyphenList.present? (HyphenList.parse (Text.trim ("\n".intercalate lines))) := by
  simp only [list?, HyphenList.present?]

theorem parameters_parse (text : String) :
    (parse (some text)).parameters = HyphenList.present? (HyphenList.parse (Text.trim (blockOf text .parameters))) := by
  simp only [parse, ofBodies, list?_eq_present?, blockOf, bodiesOf, Bodies.get]

theorem exceptions_parse (text : String) :
    (parse (some text)).exceptions = HyphenList.present? (HyphenList.parse (Text.trim (blockOf text .exceptions))) := by
  simp only [parse, ofBodies, list?_eq_present?, blockOf, bodiesOf, Bodies.get]

/-- It matters that the block of a list is trimmed exactly if its first line with text is a
hyphen that is indented. So the parameters and the exceptions of a docstring depend on it
exactly if the first line of their list is one. -/
theorem trim_matters_iff :
    (∀ block, HyphenList.parse (Text.trim block) = HyphenList.parse block ↔
      ∀ line ∈ HyphenList.firstLine? block, ¬ HyphenList.IndentedHyphen line) ∧
    ∀ text,
      ((parse (some text)).parameters = (untrimmed text).parameters ↔
        ∀ line ∈ HyphenList.firstLine? (blockOf text .parameters), ¬ HyphenList.IndentedHyphen line) ∧
      ((parse (some text)).exceptions = (untrimmed text).exceptions ↔
        ∀ line ∈ HyphenList.firstLine? (blockOf text .exceptions), ¬ HyphenList.IndentedHyphen line) := by
  refine ⟨HyphenList.parse_trim_iff, fun text => ⟨?_, ?_⟩⟩
  · rw [parameters_parse, untrimmed, HyphenList.present?_inj, HyphenList.parse_trim_iff]
  · rw [exceptions_parse, untrimmed, HyphenList.present?_inj, HyphenList.parse_trim_iff]

example : (HyphenList.parse (Text.trim "\n  - a: b\n")).entries.entries = [("a", "b")] ∧
    (HyphenList.parse "\n  - a: b\n").entries.entries = [("", "- a: b")] := by
  decide +kernel

end Docstring

end ApiReference
