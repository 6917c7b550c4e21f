import ApiReference.Proofs.Docstring.Tidy

namespace ApiReference.HyphenList

/-! Lists that are written out after they were read, one line for each entry, and read again. -/

/-- The lines of the introduction. -/
def introRows (list : HyphenList) : List String := list.intro?.toList.flatMap Text.lines

/-- The entries other than the introduction, each as a line `- key: text`. -/
def keyedRows (list : HyphenList) : List String := list.keyed.map fun entry => row entry.1 entry.2

def withoutIntro (list : HyphenList) : HyphenList :=
  ⟨⟨list.keyed, list.entries.distinct.sublist (List.filter_sublist.map Prod.fst)⟩⟩

@[simp] theorem keyed_withoutIntro (list : HyphenList) : list.withoutIntro.keyed = list.keyed := by
  apply List.filter_eq_self.mpr
  intro entry member
  exact decide_eq_true (named_of_mem_keyed member)

@[simp] theorem intro?_withoutIntro (list : HyphenList) : list.withoutIntro.intro? = none := by
  rw [intro?, get?, OrderedMap.get?, List.lookup_eq_none_iff]
  intro entry member
  exact bne_iff_ne.mpr (named_of_mem_keyed member).symm

namespace Tidy

variable {list : HyphenList} (tidy : list.Tidy)

include tidy

theorem introKey_not_mem_tail : introKey ∉ list.entries.keys.tail := by
  intro later
  obtain ⟨text, present⟩ := Option.isSome_iff_exists.mp
    (OrderedMap.isSome_get?_iff.mpr (List.mem_of_mem_tail later))
  have first := tidy.introFirst text present
  have distinct := tidy.keyDistinct
  obtain ⟨rest, entries⟩ := List.head?_eq_some_iff.mp first
  rw [OrderedMap.keys, entries] at later distinct
  exact (List.nodup_cons.mp distinct).1 later

theorem entryWritable {entry : String × String} (member : entry ∈ list.keyed) :
    EntryWritable entry.1 entry.2 := by
  have listed : entry ∈ list.entries.entries := (List.mem_filter.mp member).1
  have isKey : entry.1 ∈ list.entries.keys := List.mem_map_of_mem listed
  exact ⟨tidy.keyTrimmed _ isKey, tidy.keyUnbroken _ isKey, tidy.keyUncut _ isKey, tidy.nonempty entry listed,
    tidy.trimmed entry listed, tidy.unbroken entry member⟩

theorem introLines_eq_introRows : list.introLines = list.introRows := by
  unfold HyphenList.introLines introRows
  cases present : list.intro? with
  | none => rfl
  | some text => simpa using tidy.introLines text present

theorem introWritable (unhyphened : ∀ line ∈ list.introRows, Text.startsWith "-" line = false) :
    ∀ text ∈ list.intro?, IntroWritable text := by
  intro text present
  have listed : (introKey, text) ∈ list.entries.entries := OrderedMap.get?_eq_some_iff.mp present
  have lines : list.introRows = Text.lines text := by
    rw [introRows, present]
    simp
  rw [lines] at unhyphened
  constructor
  · exact tidy.nonempty (introKey, text) listed
  · exact tidy.trimmed (introKey, text) listed
  · rw [tidy.introLines text present]
    exact tidy.introLineTrimmed text present
  · rw [tidy.introLines text present]
    exact unhyphened

theorem row_closed {line : String} (member : line ∈ list.introRows ++ list.keyedRows) :
    '\n' ∉ line.toList ∧ line.toList.getLast? ≠ some '\r' := by
  rcases List.mem_append.mp member with inIntro | isKeyed
  · obtain ⟨text, present, isLine⟩ := List.mem_flatMap.mp inIntro
    have trimmed := tidy.introLineTrimmed text (Option.mem_toList.mp present) line isLine
    exact ⟨Text.unbroken_of_mem_lines isLine, Text.getLast?_ne_of_trimmed trimmed (by decide)⟩
  · obtain ⟨entry, listed, rfl⟩ := List.mem_map.mp isKeyed
    have writable := tidy.entryWritable listed
    have trimmed := (row_trimmed (named_of_mem_keyed listed) writable).2
    exact ⟨row_unbroken writable, Text.getLast?_ne_of_trimmed trimmed (by decide)⟩

/-- A tidy list is read back from its lines, unless one of its introduction would open an entry. -/
theorem parse_unlines (unhyphened : ∀ line ∈ list.introRows, Text.startsWith "-" line = false) :
    parse (Text.unlines (list.introRows ++ list.keyedRows)) = list := by
  rw [parse, Text.lines_unlines (fun row member => (tidy.row_closed member).1)
    (fun row member => (tidy.row_closed member).2), ← tidy.introLines_eq_introRows]
  exact ofPieces_rows (tidy.introWritable unhyphened) (fun _ => tidy.entryWritable) tidy.introKey_not_mem_tail

theorem withoutIntro : list.withoutIntro.Tidy := by
  have keys : ∀ key ∈ list.withoutIntro.entries.keys, key ∈ list.entries.keys := by
    intro key member
    obtain ⟨entry, isKeyed, rfl⟩ := List.mem_map.mp member
    exact List.mem_map_of_mem (List.mem_filter.mp isKeyed).1
  have entries : ∀ entry ∈ list.withoutIntro.entries.entries, entry ∈ list.entries.entries :=
    fun entry member => (List.mem_filter.mp member).1
  have noIntro : ∀ text, text ∉ list.withoutIntro.intro? := by simp
  exact {
    keyDistinct := list.withoutIntro.entries.distinct
    keyTrimmed := fun key member => tidy.keyTrimmed key (keys key member)
    keyUncut := fun key member => tidy.keyUncut key (keys key member)
    keyUnbroken := fun key member => tidy.keyUnbroken key (keys key member)
    nonempty := fun entry member => tidy.nonempty entry (entries entry member)
    trimmed := fun entry member => tidy.trimmed entry (entries entry member)
    unbroken := by
      rw [keyed_withoutIntro]
      exact tidy.unbroken
    introLines := fun text present => absurd present (noIntro text)
    introLineTrimmed := fun text present => absurd present (noIntro text)
    introFirst := fun text present => absurd present (noIntro text) }

end Tidy

/-- A list that was read and is written out without its introduction gives the same entries
again; with its introduction it gives the same list, unless a line of the introduction
would be taken for an entry. -/
theorem parse_unlines_parse (text : String) :
    (parse (Text.unlines (parse text).keyedRows)).entries.entries = (parse text).keyed ∧
    ((∀ line ∈ (parse text).introRows, Text.startsWith "-" line = false) →
      parse (Text.unlines ((parse text).introRows ++ (parse text).keyedRows)) = parse text) := by
  have tidy := tidy_parse text
  refine ⟨?_, tidy.parse_unlines⟩
  have noIntro : (parse text).withoutIntro.introRows = [] := by simp [introRows]
  have sameRows : (parse text).withoutIntro.keyedRows = (parse text).keyedRows := by simp [keyedRows]
  have again := tidy.withoutIntro.parse_unlines (by simp [noIntro])
  rw [noIntro, sameRows, List.nil_append] at again
  rw [again]
  rfl

/-- A list with a repeated key, a key that starts with a hyphen and a late line of the introduction. -/
def options : String := "Flags\r\n\r\n short\n- n: 1\n--n: a:\rb \n  c\n- long\n- n: 2"

def optionsRead : HyphenList :=
  ⟨⟨[("", "Flags\n\nshort\nlong"), ("n", "1 2"), ("-n", "a:\rb c")], by decide⟩⟩

theorem options_unlines_parse :
    parse options = optionsRead ∧
    (∀ line ∈ (parse options).introRows, Text.startsWith "-" line = false) ∧
    Text.unlines ((parse options).introRows ++ (parse options).keyedRows) =
      "Flags\n\nshort\nlong\n- n: 1 2\n- -n: a:\rb c\n" ∧
    parse (Text.unlines ((parse options).introRows ++ (parse options).keyedRows)) = parse options := by
  have read : parse options = optionsRead := eq_of_entries_eq (by decide +kernel)
  have unhyphened : ∀ line ∈ (parse options).introRows, Text.startsWith "-" line = false := by
    rw [read]
    decide +kernel
  refine ⟨read, unhyphened, ?_, (parse_unlines_parse options).2 unhyphened⟩
  rw [read]
  decide +kernel

end ApiReference.HyphenList
