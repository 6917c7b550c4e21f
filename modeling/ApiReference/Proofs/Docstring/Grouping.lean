import ApiReference.Proofs.Docstring.HyphenList
import ApiReference.Proofs.Ranking
import ApiReference.Proofs.Text.Joined

namespace ApiReference.HyphenList

/-! A hyphenated list as its lines grouped by key.

Every line belongs to a key and adds a piece of text to it (`assigned`). Reading the lines one
by one collects the pieces of each key (`reads_foldl`), and what is kept of them is their text. -/

/-- The key and the piece of a line that starts with a hyphen. -/
def opened? (line : String) : Option (String × String) :=
  match line.toList with
  | '-' :: rest =>
      if ':' ∈ rest then
        some (Text.trim (String.ofList (rest.takeWhile (· ≠ ':'))),
          Text.trim (String.ofList (rest.dropWhile (· ≠ ':')).tail))
      else some (introKey, Text.trim (String.ofList rest))
  | _ => none

/-- The key of the last line that starts with a hyphen. -/
def openKey (lines : List String) : String :=
  ((lines.filterMap opened?).getLast?.map Prod.fst).getD introKey

def piece (line : String) : String :=
  ((opened? line).map Prod.snd).getD (Text.trim line)

/-- The key and the piece of each line. A line without a hyphen has the key of the nearest
line before it that has one. -/
def assigned (lines : List String) : List (String × String) :=
  lines.mapIdx fun index line => (openKey (lines.take (index + 1)), piece line)

/-- The keys in the order in which they first come; that of the introduction is always there. -/
def firstKeys (assignment : List (String × String)) : List String :=
  (introKey :: assignment.map Prod.fst).eraseDups

def piecesOf (assignment : List (String × String)) (key : String) : List String :=
  (assignment.filter (·.1 = key)).map Prod.snd

theorem splitFirst?_eq (cs : List Char) :
    Chars.splitFirst? ':' cs =
      if ':' ∈ cs then some (cs.takeWhile (· ≠ ':'), (cs.dropWhile (· ≠ ':')).tail) else none := by
  induction cs with
  | nil => rfl
  | cons c rest ih =>
      by_cases colon : c = ':'
      · simp [Chars.splitFirst?, colon]
      · by_cases later : ':' ∈ rest
        · simp [Chars.splitFirst?, colon, ih, later]
        · simp [Chars.splitFirst?, colon, Ne.symm colon, ih, later]

theorem opened?_of_hyphen {line : String} {rest : List Char} (hyphen : line.toList = '-' :: rest)
    (current : String) : opened? line = some (assign current line) := by
  have found : Text.after? "-" line = some (String.ofList rest) := by
    rw [Text.after?, hyphen]
    rfl
  by_cases colon : ':' ∈ rest
  · simp only [opened?, assign, hyphen, found, Text.splitFirst?, String.toList_ofList, splitFirst?_eq,
      if_pos colon, Option.map_some]
  · simp only [opened?, assign, hyphen, found, Text.splitFirst?, String.toList_ofList, splitFirst?_eq,
      if_neg colon, Option.map_none]

theorem opened?_of_unhyphened {line : String} (other : line.toList.head? ≠ some '-') : opened? line = none := by
  unfold opened?
  split
  · rename_i rest hyphen
    rw [hyphen] at other
    exact absurd rfl other
  · rfl

/-- A line that starts with a hyphen has a key of its own; any other stays under the current one. -/
theorem assign_eq (current line : String) :
    assign current line = (((opened? line).map Prod.fst).getD current, piece line) := by
  by_cases hyphen : line.toList.head? = some '-'
  · obtain ⟨rest, chars⟩ := List.head?_eq_some_iff.mp hyphen
    simp [piece, opened?_of_hyphen chars current]
  · have unhyphened : Text.startsWith "-" line = false := by
      cases chars : line.toList with
      | nil => simp [Text.startsWith, chars]
      | cons c rest =>
          have other : c ≠ '-' := by simpa [chars] using hyphen
          simp [Text.startsWith, chars, List.isPrefixOf, Ne.symm other]
    simp [piece, opened?_of_unhyphened hyphen, assign_of_unhyphened unhyphened]

theorem openKey_concat (lines : List String) (line : String) :
    openKey (lines ++ [line]) = ((opened? line).map Prod.fst).getD (openKey lines) := by
  cases opens : opened? line with
  | none => simp [openKey, List.filterMap_append, opens]
  | some own => simp [openKey, List.filterMap_append, opens]

theorem assign_openKey (lines : List String) (line : String) :
    assign (openKey lines) line = (openKey (lines ++ [line]), piece line) := by
  rw [assign_eq, openKey_concat]

theorem assigned_concat (lines : List String) (line : String) :
    assigned (lines ++ [line]) = assigned lines ++ [assign (openKey lines) line] := by
  have earlier : (lines.mapIdx fun index line' => (openKey ((lines ++ [line]).take (index + 1)), piece line')) =
      assigned lines := by
    apply List.ext_getElem (by simp [assigned])
    intro index inside _
    have short : index < lines.length := by simpa using inside
    have taken : (lines ++ [line]).take (index + 1) = lines.take (index + 1) :=
      List.take_append_of_le_length short
    simp [assigned, taken]
  have last : (lines ++ [line]).take (lines.length + 1) = lines ++ [line] := by
    rw [List.take_of_length_le (by simp)]
  rw [assigned, List.mapIdx_concat, earlier, last, assign_openKey]

theorem firstKeys_concat (assignment : List (String × String)) (key text : String) :
    firstKeys (assignment ++ [(key, text)]) =
      if key ∈ firstKeys assignment then firstKeys assignment else firstKeys assignment ++ [key] := by
  rw [firstKeys, firstKeys, List.map_append, ← List.cons_append, List.map_singleton,
    OrderedMap.eraseDups_concat]
  simp only [List.mem_eraseDups]

theorem piecesOf_concat (assignment : List (String × String)) (key text wanted : String) :
    piecesOf (assignment ++ [(key, text)]) wanted =
      if wanted = key then piecesOf assignment wanted ++ [text] else piecesOf assignment wanted := by
  by_cases same : wanted = key
  · simp [piecesOf, same]
  · simp [piecesOf, same, Ne.symm same]

theorem piecesOf_eq_nil {assignment : List (String × String)} {key : String}
    (absent : key ∉ firstKeys assignment) : piecesOf assignment key = [] := by
  rw [piecesOf, List.map_eq_nil_iff, List.filter_eq_nil_iff]
  intro entry member
  have other : entry.1 ≠ key := by
    rintro rfl
    apply absent
    rw [firstKeys, List.mem_eraseDups]
    exact List.mem_cons_of_mem _ (List.mem_map_of_mem member)
  simpa using other

def groups (assignment : List (String × String)) : List (String × List String) :=
  (firstKeys assignment).map fun key => (key, piecesOf assignment key)

theorem firstKeys_nodup (assignment : List (String × String)) : (firstKeys assignment).Nodup :=
  OrderedMap.nodup_eraseDups _

/-- One more piece goes to the end of its group, or opens a group at the end. -/
theorem groups_concat (assignment : List (String × String)) (key text : String) :
    groups (assignment ++ [(key, text)]) =
      OrderedMap.upsertIn key (fun pieces => pieces.getD [] ++ [text]) (groups assignment) := by
  rw [groups, groups, OrderedMap.upsertIn_map (firstKeys_nodup assignment), firstKeys_concat]
  have others : ∀ wanted, wanted ≠ key → piecesOf (assignment ++ [(key, text)]) wanted = piecesOf assignment wanted := by
    intro wanted other
    rw [piecesOf_concat, if_neg other]
  have own : piecesOf (assignment ++ [(key, text)]) key = piecesOf assignment key ++ [text] := by
    rw [piecesOf_concat, if_pos rfl]
  by_cases known : key ∈ firstKeys assignment
  · rw [if_pos known, if_pos known]
    apply List.map_congr_left
    intro wanted _
    by_cases same : wanted = key
    · rw [same, own, if_pos rfl, Option.getD_some]
    · rw [others wanted same, if_neg same]
  · rw [if_neg known, if_neg known, List.map_append, List.map_singleton, own, piecesOf_eq_nil known]
    congr 1
    apply List.map_congr_left
    intro wanted member
    rw [others wanted fun same => known (same ▸ member)]

/-- What a reading holds after the given lines: their groups. -/
structure Reads (reading : Reading) (lines : List String) : Prop where
  current : reading.current = openKey lines
  pieces : reading.pieces.entries = groups (assigned lines)

theorem reads_start : Reads Reading.start [] where
  current := rfl
  pieces := rfl

theorem Reads.line {reading : Reading} {lines : List String} (reads : Reads reading lines) (line : String) :
    Reads (reading.line line) (lines ++ [line]) where
  current := by
    simp only [Reading.line, reads.current, assign_openKey]
  pieces := by
    rw [assigned_concat, groups_concat, ← reads.pieces, ← reads.current]
    rfl

theorem reads_foldl (lines : List String) : Reads (lines.foldl Reading.line Reading.start) lines := by
  -- the last line is taken off, since the key of a line depends on the lines before it
  induction lines using List.reverseRecOn with
  | nil => exact reads_start
  | append_singleton lines line ih =>
      rw [List.foldl_concat]
      exact ih.line line

/-- The entries that are left of an assignment: under each key its pieces, joined and trimmed,
unless nothing is left of them. -/
def grouped (assignment : List (String × String)) : List (String × String) :=
  (firstKeys assignment).filterMap fun key => (merged? key (piecesOf assignment key)).map (key, ·)

theorem entries_parse (text : String) :
    (parse text).entries.entries = grouped (assigned (Text.lines text)) := by
  have entries : (parse text).entries.entries = (groups (assigned (Text.lines text))).filterMap
      fun group => (merged? group.1 group.2).map (group.1, ·) := by
    rw [← (reads_foldl (Text.lines text)).pieces]
    rfl
  rw [entries, groups, List.filterMap_map, grouped, Function.comp_def]

theorem merged?_eq_some_iff {key text : String} {pieces : List String} :
    merged? key pieces = some text ↔ Text.trim ((separator key).intercalate pieces) = text ∧ text ≠ "" := by
  unfold merged?
  constructor
  · intro merged
    by_cases empty : Text.trim ((separator key).intercalate pieces) = ""
    · simp [empty] at merged
    · have same : Text.trim ((separator key).intercalate pieces) = text := by simpa [empty] using merged
      exact ⟨same, same ▸ empty⟩
  · rintro ⟨rfl, full⟩
    simp [full]

theorem merged?_nil (key : String) : merged? key [] = none := by
  have empty : Text.trim "" = "" := rfl
  simp [merged?, empty]

theorem mem_grouped_iff {assignment : List (String × String)} {key text : String} :
    (key, text) ∈ grouped assignment ↔ merged? key (piecesOf assignment key) = some text := by
  constructor
  · intro member
    obtain ⟨own, _, kept⟩ := List.mem_filterMap.mp member
    obtain ⟨_, merged, same⟩ := Option.map_eq_some_iff.mp kept
    cases same
    exact merged
  · intro merged
    refine List.mem_filterMap.mpr ⟨key, ?_, by simp [merged]⟩
    by_contra absent
    rw [piecesOf_eq_nil absent, merged?_nil] at merged
    cases merged

theorem get?_parse (text key : String) :
    (parse text).get? key = merged? key (piecesOf (assigned (Text.lines text)) key) := by
  apply Option.ext
  intro found
  rw [get?, OrderedMap.get?_eq_some_iff, entries_parse, mem_grouped_iff]

/-- The pieces that make up the text of a key. -/
def kept (assignment : List (String × String)) (key : String) : List String :=
  Text.withoutEmptyEnds (piecesOf assignment key)

theorem takeWhile_colon {cs : List Char} : ':' ∉ cs.takeWhile (· ≠ ':') := by
  intro member
  simpa using List.mem_takeWhile_imp member

/-- What a line that starts with a hyphen gives is taken from the line and trimmed. -/
theorem opened?_eq_some {line key text : String} (opens : opened? line = some (key, text)) :
    (Text.trim key = key ∧ ':' ∉ key.toList ∧ key.toList ⊆ line.toList) ∧
      Text.trim text = text ∧ text.toList ⊆ line.toList := by
  have taken : ∀ cs : List Char, (Text.trim (String.ofList cs)).toList ⊆ cs := by
    intro cs
    simpa using Text.trim_subset (String.ofList cs)
  unfold opened? at opens
  split at opens
  · rename_i rest hyphen
    have inside : rest ⊆ line.toList := hyphen ▸ List.subset_cons_self '-' rest
    split at opens
    · obtain ⟨rfl, rfl⟩ := Prod.mk.inj (Option.some.inj opens)
      have before := List.takeWhile_subset (fun c => decide (c ≠ ':')) (l := rest)
      have after := List.Subset.trans (List.tail_sublist _).subset
        (List.dropWhile_subset (fun c => decide (c ≠ ':')) (l := rest))
      refine ⟨⟨Text.trim_trim _, ?_, ?_⟩, Text.trim_trim _, ?_⟩
      · exact fun colon => takeWhile_colon (taken _ colon)
      · exact List.Subset.trans (taken _) (List.Subset.trans before inside)
      · exact List.Subset.trans (taken _) (List.Subset.trans after inside)
    · obtain ⟨rfl, rfl⟩ := Prod.mk.inj (Option.some.inj opens)
      refine ⟨⟨rfl, ?_, ?_⟩, Text.trim_trim _, List.Subset.trans (taken _) inside⟩
      · exact List.not_mem_nil
      · exact List.nil_subset _
  · cases opens

theorem piece_trimmed (line : String) : Text.trim (piece line) = piece line := by
  unfold piece
  cases opens : opened? line with
  | none => exact Text.trim_trim line
  | some own => exact (opened?_eq_some opens).2.1

theorem piece_subset (line : String) : (piece line).toList ⊆ line.toList := by
  unfold piece
  cases opens : opened? line with
  | none => exact Text.trim_subset line
  | some own => exact (opened?_eq_some opens).2.2

theorem exists_of_mem_piecesOf {lines : List String} {key text : String}
    (member : text ∈ piecesOf (assigned lines) key) : ∃ line ∈ lines, piece line = text := by
  obtain ⟨entry, listed, rfl⟩ := List.mem_map.mp member
  obtain ⟨index, inside, rfl⟩ := List.mem_mapIdx.mp (List.mem_filter.mp listed).1
  exact ⟨lines[index], List.getElem_mem inside, rfl⟩

theorem separator_blank (key : String) : ∀ c ∈ (separator key).toList, Chars.isBlank c = true := by
  rw [← List.all_eq_true]
  unfold separator
  split <;> decide

/-- Trimming cuts into none of the pieces of a key. -/
theorem trim_piecesOf (lines : List String) (key : String) :
    Text.trim ((separator key).intercalate (piecesOf (assigned lines) key)) =
      (separator key).intercalate (kept (assigned lines) key) := by
  apply Text.trim_intercalate_pieces (separator_blank key)
  intro text member
  obtain ⟨line, _, rfl⟩ := exists_of_mem_piecesOf member
  exact piece_trimmed line

theorem text_eq_of_mem_grouped {lines : List String} {entry : String × String}
    (member : entry ∈ grouped (assigned lines)) :
    entry.2 = (separator entry.1).intercalate (kept (assigned lines) entry.1) := by
  have merged := merged?_eq_some_iff.mp (mem_grouped_iff.mp member)
  rw [← merged.1, trim_piecesOf]

theorem kept_eq_nil {lines : List String} {key : String}
    (dropped : merged? key (piecesOf (assigned lines) key) = none) : kept (assigned lines) key = [] := by
  apply Text.withoutEmptyEnds_eq_nil (separator key)
  change (separator key).intercalate (kept (assigned lines) key) = ""
  rw [← trim_piecesOf]
  by_contra full
  rw [merged?_eq_some_iff.mpr ⟨rfl, full⟩] at dropped
  cases dropped

section Conservation

variable (assignment : List (String × String))

/-- Every entry of an assignment is in the group of exactly one key. -/
theorem flatMap_piecesOf_perm {keys : List String} (distinct : keys.Nodup)
    (covered : ∀ entry ∈ assignment, entry.1 ∈ keys) :
    (keys.flatMap (piecesOf assignment)).Perm (assignment.map Prod.snd) := by
  have perm := (flatMap_filter_perm distinct covered).map Prod.snd
  rwa [List.map_flatMap] at perm

theorem filter_piecesOf (key : String) :
    (piecesOf assignment key).filter (· ≠ "") = piecesOf (assignment.filter (·.2 ≠ "")) key := by
  rw [piecesOf, piecesOf, List.filter_map, List.filter_filter, List.filter_filter]
  congr 1
  apply List.filter_congr
  intro entry _
  exact Bool.and_comm _ _

theorem filter_kept (key : String) :
    (kept assignment key).filter (· ≠ "") = (piecesOf assignment key).filter (· ≠ "") :=
  Text.filter_withoutEmptyEnds _

theorem filter_flatMap_kept (lines : List String) (keys : List String) :
    ((keys.filterMap fun key => (merged? key (piecesOf (assigned lines) key)).map (key, ·)).flatMap
      fun entry => kept (assigned lines) entry.1).filter (· ≠ "") =
    keys.flatMap (piecesOf ((assigned lines).filter (·.2 ≠ ""))) := by
  induction keys with
  | nil => rfl
  | cons key rest ih =>
      rw [List.flatMap_cons, ← filter_piecesOf, ← filter_kept, ← ih]
      cases merged : merged? key (piecesOf (assigned lines) key) with
      | none => simp [merged, kept_eq_nil merged]
      | some text => simp [merged]

end Conservation

/-- A list is its lines grouped by key. The introduction comes first and then the other keys, in
the order of their first lines; a key without text is left out. The text of a key is made of its
pieces from the first to the last that is not empty, on lines of their own in the introduction
and with a space between them elsewhere. Every piece that is not empty is in one entry, once. -/
theorem parse_eq_grouped (text : String) :
    (parse text).entries.entries = grouped (assigned (Text.lines text)) ∧
    (∀ key, (parse text).get? key = merged? key (piecesOf (assigned (Text.lines text)) key)) ∧
    (∀ entry ∈ (parse text).entries.entries,
      entry.2 = (if entry.1 = "" then "\n" else " ").intercalate (kept (assigned (Text.lines text)) entry.1)) ∧
    (((parse text).entries.entries.flatMap fun entry => kept (assigned (Text.lines text)) entry.1).filter
      (· ≠ "")).Perm (((assigned (Text.lines text)).map Prod.snd).filter (· ≠ "")) := by
  refine ⟨entries_parse text, get?_parse text, ?_, ?_⟩
  · intro entry member
    rw [entries_parse] at member
    exact text_eq_of_mem_grouped member
  · have covered : ∀ entry ∈ (assigned (Text.lines text)).filter (·.2 ≠ ""),
        entry.1 ∈ firstKeys (assigned (Text.lines text)) := by
      intro entry member
      rw [firstKeys, List.mem_eraseDups]
      exact List.mem_cons_of_mem _ (List.mem_map_of_mem (List.mem_filter.mp member).1)
    have conserved := flatMap_piecesOf_perm _ (firstKeys_nodup (assigned (Text.lines text))) covered
    rw [entries_parse, grouped, filter_flatMap_kept, List.filter_map]
    exact conserved

end ApiReference.HyphenList
