import ApiReference.Proofs.Text.Trim
import ApiReference.Text.Line
import Mathlib.Data.List.Basic

namespace ApiReference

/-! Lines and pieces of a text that was put together from them. -/

namespace Chars

theorem splitOn_eq (separator : Char) (cs : List Char) :
    splitOn separator cs = cs.splitOn separator := by
  induction cs with
  | nil => rfl
  | cons c rest ih =>
      rw [splitOn, ih, List.splitOn_cons_eq_if_modifyHead]
      by_cases same : c = separator
      · simp [same]
      · cases pieces : rest.splitOn separator with
        | nil => exact absurd pieces (List.splitOn_ne_nil separator rest)
        | cons piece more => simp [same]

theorem splitOn_of_not_mem {separator : Char} {cs : List Char} (absent : separator ∉ cs) :
    splitOn separator cs = [cs] := by
  rw [splitOn_eq, List.splitOn_eq_singleton absent]

theorem not_mem_of_mem_splitOn {separator : Char} {cs piece : List Char}
    (member : piece ∈ splitOn separator cs) : separator ∉ piece := by
  induction cs generalizing piece with
  | nil =>
      rw [splitOn, List.mem_singleton] at member
      simp [member]
  | cons c rest ih =>
      rw [splitOn_eq, List.splitOn_cons_eq_if_modifyHead, ← splitOn_eq] at member
      by_cases same : c = separator
      · rw [if_pos (by simpa using same)] at member
        rcases List.mem_cons.mp member with rfl | member
        · simp
        · exact ih member
      · rw [if_neg (by simpa using same)] at member
        cases pieces : splitOn separator rest with
        | nil => simp [pieces] at member
        | cons first more =>
            rw [pieces] at member ih
            rcases List.mem_cons.mp member with rfl | member
            · have absent : separator ∉ first := ih (by simp)
              simp [absent, Ne.symm same]
            · exact ih (by simp [member])

theorem splitOn_intercalate (separator : Char) {chunks : List (List Char)} (nonempty : chunks ≠ []) :
    splitOn separator ([separator].intercalate chunks) = chunks.flatMap (splitOn separator) := by
  induction chunks with
  | nil => exact absurd rfl nonempty
  | cons chunk more ih =>
      cases more with
      | nil => simp
      | cons second others =>
          rw [List.intercalate_cons_cons, List.append_assoc, List.singleton_append, splitOn_eq,
            List.splitOn_append_cons_self, ← splitOn_eq, ← splitOn_eq, ih (by simp), ← List.flatMap_cons]

theorem lines_cons {c : Char} {rest : List Char} (noFeed : c ≠ '\n')
    (noReturn : c = '\r' → rest.head? ≠ some '\n') :
    lines (c :: rest) =
      match lines rest with
      | [] => [[c]]
      | line :: more => (c :: line) :: more := by
  apply lines.eq_4
  · exact noFeed
  · rintro after rfl rfl
    exact noReturn rfl rfl

theorem lines_append_feed {line : List Char} (unbroken : '\n' ∉ line)
    (noReturn : line.getLast? ≠ some '\r') (rest : List Char) :
    lines (line ++ '\n' :: rest) = line :: lines rest := by
  induction line with
  | nil => rw [List.nil_append, lines]
  | cons c more ih =>
      rw [List.mem_cons, not_or] at unbroken
      rw [List.cons_append, lines_cons (Ne.symm unbroken.1), ih unbroken.2]
      · cases more with
        | nil => simp
        | cons d others => simpa using noReturn
      · rintro rfl
        cases more with
        | nil => simp at noReturn
        | cons d others =>
            have different : d ≠ '\n' := fun same => unbroken.2 (by simp [same])
            simpa using different

theorem lines_of_unbroken {line : List Char} (unbroken : '\n' ∉ line) (nonempty : line ≠ []) :
    lines line = [line] := by
  induction line with
  | nil => exact absurd rfl nonempty
  | cons c more ih =>
      rw [List.mem_cons, not_or] at unbroken
      rw [lines_cons (Ne.symm unbroken.1)]
      · cases more with
        | nil => rfl
        | cons d others => rw [ih unbroken.2 (by simp)]
      · rintro rfl followed
        exact unbroken.2 (List.mem_of_mem_head? followed)

theorem lines_intercalate {pieces : List (List Char)}
    (unbroken : ∀ piece ∈ pieces, '\n' ∉ piece)
    (noReturn : ∀ piece ∈ pieces, piece.getLast? ≠ some '\r')
    (full : pieces.getLast? ≠ some []) :
    lines (['\n'].intercalate pieces) = pieces := by
  induction pieces with
  | nil => rfl
  | cons piece more ih =>
      cases more with
      | nil =>
          rw [List.intercalate_singleton]
          exact lines_of_unbroken (unbroken piece (by simp)) (by simpa using full)
      | cons second others =>
          rw [List.intercalate_cons_cons, List.append_assoc, List.singleton_append,
            lines_append_feed (unbroken piece (by simp)) (noReturn piece (by simp)), ih]
          · intro other member
            exact unbroken other (by simp [member])
          · intro other member
            exact noReturn other (by simp [member])
          · simpa using full

/-- A text by its lines: a line feed ends an empty line, and so does a carriage return with a line
feed behind it; any other character belongs to the first line. -/
theorem lines_induction {holds : List Char → Prop} (empty : holds [])
    (feed : ∀ rest, holds rest → holds ('\n' :: rest))
    (both : ∀ rest, holds rest → holds ('\r' :: '\n' :: rest))
    (other : ∀ c rest, c ≠ '\n' → (c = '\r' → rest.head? ≠ some '\n') → holds rest → holds (c :: rest))
    (cs : List Char) : holds cs := by
  have noReturn : ∀ {c : Char} {rest : List Char}, (∀ after, c = '\r' → rest = '\n' :: after → False) →
      c = '\r' → rest.head? ≠ some '\n' := by
    intro c rest unended isReturn begins
    obtain ⟨after, followed⟩ := List.head?_eq_some_iff.mp begins
    exact unended after isReturn followed
  induction cs using lines.induct with
  | case1 => exact empty
  | case2 rest ih => exact feed rest ih
  | case3 rest ih => exact both rest ih
  | case4 c rest noFeed unended _ ih => exact other c rest noFeed (noReturn unended) ih
  | case5 c rest noFeed unended _ _ _ ih => exact other c rest noFeed (noReturn unended) ih

theorem mem_of_mem_lines {cs line : List Char} (member : line ∈ lines cs) {c : Char} (inside : c ∈ line) :
    c ∈ cs ∧ c ≠ '\n' := by
  induction cs using lines_induction generalizing line with
  | empty => cases member
  | feed rest ih =>
      rw [lines] at member
      rcases List.mem_cons.mp member with rfl | later
      · cases inside
      · obtain ⟨listed, unbroken⟩ := ih later inside
        exact ⟨List.mem_cons_of_mem _ listed, unbroken⟩
  | both rest ih =>
      rw [lines] at member
      rcases List.mem_cons.mp member with rfl | later
      · cases inside
      · obtain ⟨listed, unbroken⟩ := ih later inside
        exact ⟨List.mem_cons_of_mem _ (List.mem_cons_of_mem _ listed), unbroken⟩
  | other first rest noFeed noReturn ih =>
      have later : ∀ {line : List Char}, line ∈ lines rest → c ∈ line → c ∈ first :: rest ∧ c ≠ '\n' := by
        intro line listed inside
        obtain ⟨known, unbroken⟩ := ih listed inside
        exact ⟨List.mem_cons_of_mem _ known, unbroken⟩
      rw [lines_cons noFeed noReturn] at member
      cases found : lines rest with
      | nil =>
          rw [found, List.mem_singleton] at member
          obtain rfl := List.mem_singleton.mp (member ▸ inside)
          exact ⟨List.mem_cons_self, noFeed⟩
      | cons next more =>
          rw [found] at member later
          rcases List.mem_cons.mp member with rfl | listed
          · rcases List.mem_cons.mp inside with rfl | inside
            · exact ⟨List.mem_cons_self, noFeed⟩
            · exact later List.mem_cons_self inside
          · exact later (List.mem_cons_of_mem _ listed) inside

theorem intercalate_append (separator : List Char) {first second : List (List Char)}
    (firstFull : first ≠ []) (secondFull : second ≠ []) :
    separator.intercalate (first ++ second) =
      separator.intercalate first ++ separator ++ separator.intercalate second := by
  induction first with
  | nil => exact absurd rfl firstFull
  | cons piece more ih =>
      cases more with
      | nil =>
          rw [List.singleton_append, List.intercalate_cons_of_ne_nil secondFull,
            List.intercalate_singleton]
      | cons next others =>
          rw [List.cons_append, List.intercalate_cons_of_ne_nil (by simp), ih (by simp),
            List.intercalate_cons_cons]
          simp only [List.append_assoc]

theorem not_mem_intercalate {c : Char} {separator : List Char} (apart : c ∉ separator) {pieces : List (List Char)}
    (absent : ∀ piece ∈ pieces, c ∉ piece) : c ∉ separator.intercalate pieces := by
  induction pieces with
  | nil => exact List.not_mem_nil
  | cons piece more ih =>
      have rest := ih fun other member => absent other (List.mem_cons_of_mem _ member)
      cases more with
      | nil =>
          rw [List.intercalate_singleton]
          exact absent piece List.mem_cons_self
      | cons next others =>
          rw [List.intercalate_cons_cons, List.append_assoc, List.mem_append, List.mem_append, not_or, not_or]
          exact ⟨absent piece List.mem_cons_self, apart, rest⟩

theorem splitLast?_eq_some {separator : Char} {chars before after : List Char}
    (split : splitLast? separator chars = some (before, after)) : chars = before ++ separator :: after := by
  induction chars generalizing before with
  | nil => cases split
  | cons c rest ih =>
      rw [splitLast?] at split
      split at split
      · rename_i found
        cases split
        rw [ih found, List.cons_append]
      · split at split
        · rename_i same
          cases split
          rw [same, List.nil_append]
        · cases split

theorem splitLast?_of_not_mem {separator : Char} {chars : List Char} (absent : separator ∉ chars) :
    splitLast? separator chars = none := by
  induction chars with
  | nil => rfl
  | cons c rest ih =>
      rw [List.mem_cons, not_or] at absent
      rw [splitLast?, ih absent.2]
      exact if_neg (Ne.symm absent.1)

theorem splitLast?_append {separator : Char} (before : List Char) {after : List Char} (absent : separator ∉ after) :
    splitLast? separator (before ++ separator :: after) = some (before, after) := by
  induction before with
  | nil => rw [List.nil_append, splitLast?, splitLast?_of_not_mem absent]; exact if_pos rfl
  | cons c rest ih => rw [List.cons_append, splitLast?, ih]

theorem replaceFrom_single (old new : Char) (chars : List Char) :
    replaceFrom [old] [new] 0 chars = chars.map fun c => if c = old then new else c := by
  induction chars with
  | nil => rfl
  | cons c rest ih =>
      by_cases same : c = old
      · simp [replaceFrom, same, ih]
      · simp [replaceFrom, same, Ne.symm same, ih]

/-- Dots that are turned into slashes cut a text like those that were there. -/
theorem splitOn_slash_map_dots (cs : List Char) :
    splitOn '/' (cs.map fun c => if c = '.' then '/' else c) = (splitOn '.' cs).flatMap (splitOn '/') := by
  induction cs with
  | nil => rfl
  | cons c rest ih =>
      by_cases dot : c = '.'
      · simp [splitOn, dot, ih]
      · cases pieces : splitOn '.' rest with
        | nil => rw [splitOn_eq] at pieces; exact absurd pieces (List.splitOn_ne_nil '.' rest)
        | cons piece more =>
            rw [pieces, List.flatMap_cons] at ih
            cases inner : splitOn '/' piece with
            | nil => rw [splitOn_eq] at inner; exact absurd inner (List.splitOn_ne_nil '/' piece)
            | cons first others =>
                by_cases slash : c = '/'
                · simp [splitOn, slash, pieces, ih]
                · simp [splitOn, dot, slash, pieces, ih, inner]

theorem after?_eq_some {beginning cs rest : List Char} (found : after? beginning cs = some rest) :
    cs = beginning ++ rest := by
  induction beginning generalizing cs with
  | nil => simpa [after?] using found
  | cons first more ih =>
      cases cs with
      | nil => simp [after?] at found
      | cons c others =>
          by_cases same : first = c
          · rw [after?, if_pos same] at found
            rw [← same, ih found, List.cons_append]
          · simp [after?, same] at found

/-- A piece of a text is at its end or before a separator. -/
theorem suffix_or_infix_of_mem (separator : Char) {pieces : List (List Char)} {piece : List Char}
    (member : piece ∈ pieces) :
    piece <:+ [separator].intercalate pieces ∨ piece ++ [separator] <:+: [separator].intercalate pieces := by
  induction pieces with
  | nil => cases member
  | cons first more ih =>
      cases more with
      | nil =>
          rw [List.mem_singleton.mp member, List.intercalate_singleton]
          exact .inl List.suffix_rfl
      | cons second others =>
          rw [List.intercalate_cons_cons]
          rcases List.mem_cons.mp member with rfl | member
          · exact .inr (List.prefix_append _ _).isInfix
          · rcases ih member with ending | inside
            · exact .inl (ending.trans (List.suffix_append _ _))
            · exact .inr (inside.trans (List.suffix_append _ _).isInfix)

theorem subset_of_mem_splitOn {separator : Char} {cs piece : List Char}
    (member : piece ∈ splitOn separator cs) : piece ⊆ cs := by
  have placed := suffix_or_infix_of_mem separator member
  rw [splitOn_eq, List.intercalate_splitOn] at placed
  rcases placed with ending | inside
  · exact ending.subset
  · exact List.Subset.trans (List.subset_append_left piece [separator]) inside.subset

/-- Only the separator gets lost between the pieces. -/
theorem exists_mem_splitOn {separator c : Char} {cs : List Char} (member : c ∈ cs) (other : c ≠ separator) :
    ∃ piece ∈ splitOn separator cs, c ∈ piece := by
  induction cs with
  | nil => cases member
  | cons first rest ih =>
      unfold splitOn
      rcases List.mem_cons.mp member with rfl | member
      · rw [if_neg other]
        cases splitOn separator rest <;> simp
      · obtain ⟨piece, listed, inside⟩ := ih member
        split
        · exact ⟨piece, List.mem_cons_of_mem _ listed, inside⟩
        · split
          · rename_i none
            rw [none] at listed
            cases listed
          · rename_i head more pieces
            rw [pieces] at listed
            rcases List.mem_cons.mp listed with rfl | listed
            · exact ⟨_, List.mem_cons_self, List.mem_cons_of_mem _ inside⟩
            · exact ⟨piece, List.mem_cons_of_mem _ listed, inside⟩

/-- A text that ends in an empty piece ends in the separator, unless it is empty. -/
theorem getLast?_splitOn_ne_nil {separator : Char} {cs : List Char} (nonempty : cs ≠ [])
    (other : cs.getLast? ≠ some separator) : (splitOn separator cs).getLast? ≠ some [] := by
  intro last
  obtain ⟨front, pieces⟩ := List.getLast?_eq_some_iff.mp last
  have joined : [separator].intercalate (splitOn separator cs) = cs := by
    rw [splitOn_eq, List.intercalate_splitOn]
  rw [pieces] at joined
  cases front with
  | nil => exact nonempty (by simpa using joined.symm)
  | cons first more =>
      rw [intercalate_append [separator] (by simp) (by simp)] at joined
      rw [← joined] at other
      simp at other

/-- Without carriage returns at their ends the lines of a text are its pieces between line
feeds. -/
theorem lines_eq_splitOn {cs : List Char}
    (noReturn : ∀ piece ∈ splitOn '\n' cs, piece.getLast? ≠ some '\r')
    (nonempty : cs ≠ []) (ended : cs.getLast? ≠ some '\n') : lines cs = splitOn '\n' cs := by
  have joined : ['\n'].intercalate (splitOn '\n' cs) = cs := by
    rw [splitOn_eq, List.intercalate_splitOn]
  have parted := lines_intercalate (fun piece member => not_mem_of_mem_splitOn member) noReturn
    (getLast?_splitOn_ne_nil nonempty ended)
  rwa [joined] at parted

end Chars

namespace Text

/-- Cutting a text at the last of its separators. -/
theorem splitLast?_eq_some_iff {separator : Char} {text before after : String} (absent : separator ∉ after.toList) :
    splitLast? separator text = some (before, after) ↔ text.toList = before.toList ++ separator :: after.toList := by
  unfold splitLast?
  constructor
  · intro split
    obtain ⟨⟨front, back⟩, found, pieces⟩ := Option.map_eq_some_iff.mp split
    cases pieces
    rw [String.toList_ofList, String.toList_ofList]
    exact Chars.splitLast?_eq_some found
  · intro same
    simp only [same, Chars.splitLast?_append _ absent, Option.map_some, String.ofList_toList]

theorem toList_mem_splitOn {separator : Char} {text piece : String} :
    piece ∈ splitOn separator text ↔ piece.toList ∈ Chars.splitOn separator text.toList := by
  rw [splitOn, List.mem_map]
  constructor
  · rintro ⟨cs, member, rfl⟩
    simpa using member
  · intro member
    exact ⟨piece.toList, member, by simp⟩

theorem splitOn_of_not_mem {separator : Char} {text : String} (absent : separator ∉ text.toList) :
    splitOn separator text = [text] := by
  simp [splitOn, Chars.splitOn_of_not_mem absent]

theorem unbroken_of_mem_lines {text line : String} (member : line ∈ lines text) : '\n' ∉ line.toList := by
  obtain ⟨cs, listed, rfl⟩ := List.mem_map.mp member
  rw [String.toList_ofList]
  exact fun broken => (Chars.mem_of_mem_lines listed broken).2 rfl

theorem intercalate_splitOn_feed (text : String) : "\n".intercalate (splitOn '\n' text) = text := by
  apply String.toList_injective
  rw [String.toList_intercalate, splitOn, List.map_map]
  have same : String.toList ∘ String.ofList = id := by
    funext cs
    simp
  rw [same, List.map_id, Chars.splitOn_eq]
  exact List.intercalate_splitOn '\n'

theorem splitOn_injective (separator : Char) : Function.Injective (splitOn separator) := by
  intro first second same
  have parted := List.map_injective_iff.mpr (fun _ _ => String.ofList_injective) same
  have joined := congrArg [separator].intercalate parted
  rwa [Chars.splitOn_eq, Chars.splitOn_eq, List.intercalate_splitOn, List.intercalate_splitOn, String.toList_inj] at joined

theorem trim_eq_self_iff {text : String} :
    trim text = text ↔ (∀ c, text.toList.head? = some c → Chars.isBlank c = false) ∧
      ∀ c, text.toList.getLast? = some c → Chars.isBlank c = false := by
  rw [← Chars.trim_eq_self_iff, ← String.toList_inj, toList_trim]

theorem getLast?_ne_of_trimmed {text : String} (trimmed : trim text = text) {c : Char}
    (blank : Chars.isBlank c = true) : text.toList.getLast? ≠ some c := by
  intro last
  have open_ := (trim_eq_self_iff.mp trimmed).2 c last
  rw [blank] at open_
  cases open_

theorem splitOn_intercalate {chunks : List String} (nonempty : chunks ≠ []) :
    splitOn '\n' ("\n".intercalate chunks) = chunks.flatMap (splitOn '\n') := by
  have parted : Chars.splitOn '\n' ("\n".intercalate chunks).toList =
      (chunks.map String.toList).flatMap (Chars.splitOn '\n') := by
    rw [String.toList_intercalate]
    exact Chars.splitOn_intercalate '\n' (by simpa using nonempty)
  rw [splitOn, parted, List.flatMap_map, List.map_flatMap]
  rfl

theorem splitOn_intercalate_of_not_mem {separator : Char} {chunks : List String} (nonempty : chunks ≠ [])
    (absent : ∀ chunk ∈ chunks, separator ∉ chunk.toList) :
    splitOn separator ((String.singleton separator).intercalate chunks) = chunks := by
  have own : ∀ chunk ∈ chunks, (Chars.splitOn separator chunk.toList).map String.ofList = [chunk] :=
    fun chunk member => splitOn_of_not_mem (absent chunk member)
  rw [splitOn, String.toList_intercalate, String.toList_singleton, Chars.splitOn_intercalate separator (by simpa using nonempty),
    List.flatMap_map, List.map_flatMap, List.flatMap_congr own, List.flatMap_singleton']

theorem getLast?_intercalate {separator : String} {front : List String} {chunk : String} (nonempty : chunk ≠ "") :
    (separator.intercalate (front ++ [chunk])).toList.getLast? = chunk.toList.getLast? := by
  have full : chunk.toList ≠ [] := by simpa using nonempty
  rw [String.toList_intercalate, List.map_append]
  cases front with
  | nil => simp
  | cons first more =>
      rw [Chars.intercalate_append _ (by simp) (by simp), List.getLast?_append_of_ne_nil _ (by simpa using full)]
      simp

theorem head?_intercalate {separator chunk : String} {more : List String} (nonempty : chunk ≠ "") :
    (separator.intercalate (chunk :: more)).toList.head? = chunk.toList.head? := by
  obtain ⟨c, rest, full⟩ := List.exists_cons_of_ne_nil (show chunk.toList ≠ [] by simpa using nonempty)
  cases more with
  | nil => simp
  | cons second others =>
      rw [String.toList_intercalate]
      simp [full]

/-- Chunks that are trimmed and not empty give a trimmed text. -/
theorem trim_intercalate (separator : String) {chunks : List String}
    (trimmed : ∀ chunk ∈ chunks, chunk ≠ "" ∧ trim chunk = chunk) :
    trim (separator.intercalate chunks) = separator.intercalate chunks := by
  rw [trim_eq_self_iff]
  constructor
  · cases chunks with
    | nil => simp
    | cons first more =>
        have inner := trimmed first (by simp)
        rw [head?_intercalate inner.1]
        exact (trim_eq_self_iff.mp inner.2).1
  · rcases List.eq_nil_or_concat chunks with rfl | ⟨front, last, rfl⟩
    · simp
    · have inner := trimmed last (by simp)
      rw [List.concat_eq_append, getLast?_intercalate inner.1]
      exact (trim_eq_self_iff.mp inner.2).2

/-- Empty lines at the end are trimmed away. -/
theorem trim_intercalate_replicate (lines : List String) (count : Nat) :
    trim ("\n".intercalate (lines ++ List.replicate count "")) = trim ("\n".intercalate lines) := by
  have feeds : ∀ count, ∀ c ∈ ['\n'].intercalate (List.replicate count []), Chars.isBlank c = true := by
    intro count
    induction count with
    | zero => simp
    | succ count ih =>
        cases count with
        | zero => simp
        | succ count =>
            rw [List.replicate_succ, List.intercalate_cons_of_ne_nil (by simp)]
            intro c member
            rcases List.mem_cons.mp member with rfl | member
            · decide
            · exact ih c member
  apply String.toList_injective
  rw [toList_trim, toList_trim, String.toList_intercalate, String.toList_intercalate, List.map_append,
    List.map_replicate]
  change Chars.trim (['\n'].intercalate (lines.map String.toList ++ List.replicate count [])) =
    Chars.trim (['\n'].intercalate (lines.map String.toList))
  cases lines with
  | nil =>
      rw [List.map_nil, List.nil_append]
      exact Chars.trim_eq_nil_iff.mpr (feeds count)
  | cons first more =>
      cases count with
      | zero => simp
      | succ count =>
          rw [Chars.intercalate_append _ (by simp) (by simp), List.append_assoc]
          apply Chars.trim_append_of_blank
          intro c member
          rcases List.mem_cons.mp member with rfl | member
          · decide
          · exact feeds _ c member

/-- The lines of chunks that are joined by line feeds, when no line ends in a carriage return
and the last chunk is trimmed and not empty. -/
theorem lines_intercalate {chunks : List String}
    (noReturn : ∀ chunk ∈ chunks, ∀ piece ∈ splitOn '\n' chunk, piece.toList.getLast? ≠ some '\r')
    (closed : ∀ chunk, chunks.getLast? = some chunk → chunk ≠ "" ∧ trim chunk = chunk) :
    lines ("\n".intercalate chunks) = chunks.flatMap (splitOn '\n') := by
  rcases List.eq_nil_or_concat chunks with rfl | ⟨front, last, joined⟩
  · rfl
  · rw [List.concat_eq_append] at joined
    have nonempty : chunks ≠ [] := by simp [joined]
    obtain ⟨lastFull, lastTrimmed⟩ := closed last (by simp [joined])
    have final : ("\n".intercalate chunks).toList.getLast? = last.toList.getLast? := by
      rw [joined, getLast?_intercalate lastFull]
    have ended : ("\n".intercalate chunks).toList.getLast? ≠ some '\n' := by
      rw [final]
      exact getLast?_ne_of_trimmed lastTrimmed (by decide)
    have full : ("\n".intercalate chunks).toList ≠ [] := by
      intro empty
      rw [empty, List.getLast?_nil] at final
      exact lastFull (String.toList_eq_nil_iff.mp (List.getLast?_eq_none_iff.mp final.symm))
    rw [← splitOn_intercalate nonempty, lines, splitOn, Chars.lines_eq_splitOn _ full ended]
    intro piece member
    have inChunks : String.ofList piece ∈ chunks.flatMap (splitOn '\n') := by
      rw [← splitOn_intercalate nonempty, splitOn]
      exact List.mem_map_of_mem member
    obtain ⟨chunk, inside, isPiece⟩ := List.mem_flatMap.mp inChunks
    simpa using noReturn chunk inside _ isPiece

/-- The given lines, each with a line feed at its end. -/
def unlines (rows : List String) : String :=
  String.join (rows.map (· ++ "\n"))

theorem lines_unlines {rows : List String} (unbroken : ∀ row ∈ rows, '\n' ∉ row.toList)
    (noReturn : ∀ row ∈ rows, row.toList.getLast? ≠ some '\r') : lines (unlines rows) = rows := by
  induction rows with
  | nil => rfl
  | cons row rest ih =>
      have written : (unlines (row :: rest)).toList = row.toList ++ '\n' :: (unlines rest).toList := by
        simp [unlines, String.toList_join]
      have others : lines (unlines rest) = rest :=
        ih (fun other member => unbroken other (by simp [member])) fun other member => noReturn other (by simp [member])
      rw [lines, written, Chars.lines_append_feed (unbroken row (by simp)) (noReturn row (by simp)), List.map_cons,
        String.ofList_toList]
      congr 1

section Trimming

variable {drop : Char → Bool}

theorem trimMatching_infix (drop : Char → Bool) (text : String) :
    (trimMatching drop text).toList <:+: text.toList := by
  rw [trimMatching, String.toList_ofList]
  exact (List.rdropWhile_prefix drop _).isInfix.trans (List.dropWhile_suffix drop).isInfix

theorem getLast?_trimMatching {text : String} {c : Char}
    (last : (trimMatching drop text).toList.getLast? = some c) : drop c = false := by
  rw [trimMatching, String.toList_ofList, List.getLast?_reverse] at last
  have stopped := List.head?_dropWhile_not drop (text.toList.dropWhile drop).reverse
  simpa [last] using stopped

theorem head?_trimMatching {text : String} {c : Char}
    (first : (trimMatching drop text).toList.head? = some c) : drop c = false := by
  have stopped := List.head?_dropWhile_not drop text.toList
  obtain ⟨back, whole⟩ := List.rdropWhile_prefix drop (text.toList.dropWhile drop)
  rw [trimMatching, String.toList_ofList] at first
  change ((text.toList.dropWhile drop).rdropWhile drop).head? = some c at first
  rw [← whole, List.head?_append, first] at stopped
  simpa using stopped

/-- Only what is dropped stands around a text whose ends are kept. -/
theorem trimMatching_append {front text back : List Char} (nonempty : text ≠ [])
    (first : ∀ c, text.head? = some c → drop c = false) (last : ∀ c, text.getLast? = some c → drop c = false)
    (before : ∀ c ∈ front, drop c = true) (after : ∀ c ∈ back, drop c = true) :
    trimMatching drop (String.ofList (front ++ text ++ back)) = String.ofList text := by
  have started : (front ++ text ++ back).dropWhile drop = text ++ back := by
    obtain ⟨c, rest, rfl⟩ := List.exists_cons_of_ne_nil nonempty
    rw [List.append_assoc, List.dropWhile_append_of_pos before, List.cons_append,
      List.dropWhile_cons_of_neg (by simpa using first c rfl)]
  have ended : ((text ++ back).reverse.dropWhile drop).reverse = text := by
    obtain ⟨rest, c, rfl⟩ := (List.eq_nil_or_concat text).resolve_left nonempty
    rw [List.reverse_append, List.dropWhile_append_of_pos fun c member => after c (List.mem_reverse.mp member),
      List.concat_eq_append, List.reverse_append, List.reverse_singleton, List.singleton_append,
      List.dropWhile_cons_of_neg (by simp [last])]
    simp
  rw [trimMatching, String.toList_ofList, started, ended]

end Trimming

end Text

end ApiReference
