import ApiReference.Proofs.Settings.Line
import Mathlib.Data.List.Infix

namespace ApiReference.SettingsText

/-! How far the reading of a settings text goes. Only a text over several lines passes the end
of a line, and such a text keeps the equals signs and slashes of all it passes. -/

/-- The signs that show what a text has taken in. -/
def isMark (c : Char) : Bool := c = '=' || c = '/'

theorem Parsed.after_eq_some {read text rest : List Char} {parsed : Parsed}
    (found : Parsed.after read parsed = some (text, rest)) :
    ∃ more, parsed = some (more, rest) ∧ text = read ++ more := by
  obtain ⟨⟨more, left⟩, inner, same⟩ := Option.map_eq_some_iff.mp found
  obtain ⟨rfl, rfl⟩ : read ++ more = text ∧ left = rest := by simpa using same
  exact ⟨more, inner, rfl⟩

theorem Parsed.escape_eq_some {text rest : List Char} {escape : Option Char} {parsed : Parsed}
    (found : (do Parsed.after [← escape] parsed) = some (text, rest)) :
    ∃ c more, escape = some c ∧ parsed = some (more, rest) ∧ text = c :: more := by
  obtain ⟨c, isEscape, after⟩ := Option.bind_eq_some_iff.mp found
  obtain ⟨more, inner, same⟩ := Parsed.after_eq_some after
  exact ⟨c, more, isEscape, inner, same⟩

/-- What an escape is made of. -/
def isInert (c : Char) : Bool := c ≠ '\n' && !isMark c

theorem isInert_of_some {α : Type} {read : Char → Option α} (feed : read '\n' = none) (sign : read '=' = none)
    (slash : read '/' = none) {c : Char} {value : α} (found : read c = some value) : isInert c = true := by
  have other : ∀ d, read d = none → c ≠ d := by
    rintro d unread rfl
    rw [found] at unread
    cases unread
  simp [isInert, isMark, other _ feed, other _ sign, other _ slash]

theorem isInert_of_foldlM {digits : List Char} {start code : Nat}
    (folded : digits.foldlM (fun number digit => (hexDigit? digit).map (number * 16 + ·)) start = some code) :
    digits.all isInert = true := by
  induction digits generalizing start with
  | nil => rfl
  | cons digit more ih =>
      rw [List.foldlM_cons] at folded
      obtain ⟨next, mapped, others⟩ := Option.bind_eq_some_iff.mp folded
      obtain ⟨value, found, _⟩ := Option.map_eq_some_iff.mp mapped
      rw [List.all_cons, isInert_of_some rfl rfl rfl found, ih others]
      rfl

theorem isInert_of_scalar? {digits : List Char} {c : Char} (found : scalar? digits = some c) :
    digits.all isInert = true := by
  obtain ⟨code, number, _⟩ := Option.bind_eq_some_iff.mp found
  exact isInert_of_foldlM number

theorem inert_append_digits {front digits : List Char} (inert : front.all isInert = true) {c : Char}
    (found : scalar? digits = some c) : (front ++ digits).all isInert = true := by
  rw [List.all_append, inert, isInert_of_scalar? found]
  rfl

theorem inert_short {letter c : Char} (found : shortEscape? letter = some c) : ['\\', letter].all isInert = true := by
  rw [List.all_cons, List.all_cons, isInert_of_some rfl rfl rfl found]
  rfl

theorem not_mem_of_inert {front : List Char} (inert : front.all isInert = true) : '\n' ∉ front := fun member =>
  absurd (List.all_eq_true.mp inert _ member) (by decide)

theorem filter_isMark_of_inert {front : List Char} (inert : front.all isInert = true) : front.filter isMark = [] := by
  rw [List.filter_eq_nil_iff]
  intro c member
  have quiet := List.all_eq_true.mp inert c member
  simp_all [isInert]

/-- The source of a text in double quotes, without the closing one. -/
structure QuotedExtent (source text : List Char) : Prop where
  unbroken : '\n' ∉ source
  long : text.length ≤ source.length
  plain : source.length = text.length → text.all isPlain = true

namespace QuotedExtent

variable {source text : List Char}

theorem empty : QuotedExtent [] [] := ⟨List.not_mem_nil, Nat.le_refl _, fun _ => rfl⟩

theorem escape (extent : QuotedExtent source text) {front : List Char} (inert : front.all isInert = true)
    (long : 2 ≤ front.length) (c : Char) : QuotedExtent (front ++ source) (c :: text) where
  unbroken := by simp [not_mem_of_inert inert, extent.unbroken]
  long := by
    have longer := extent.long
    simp only [List.length_append, List.length_cons]
    omega
  plain same := by
    have longer := extent.long
    simp only [List.length_append, List.length_cons] at same
    omega

theorem letter (extent : QuotedExtent source text) {c : Char} (plain : isPlain c = true) :
    QuotedExtent (c :: source) (c :: text) where
  unbroken := by
    have noFeed : c ≠ '\n' := by
      rintro rfl
      cases plain
    simp [noFeed.symm, extent.unbroken]
  long := by simpa using extent.long
  plain same := by simp [plain, extent.plain (by simpa using same)]

end QuotedExtent

theorem quoted?_extent {cs text rest : List Char} (read : quoted? cs = some (text, rest)) :
    ∃ source, cs = source ++ '"' :: rest ∧ QuotedExtent source text := by
  fun_induction quoted? cs generalizing text with
  | case1 => cases read
  | case2 others =>
      obtain ⟨rfl, rfl⟩ : [] = text ∧ others = rest := by simpa using read
      exact ⟨[], rfl, .empty⟩
  | case3 a b c d others ih =>
      obtain ⟨scalar, more, found, inner, rfl⟩ := Parsed.escape_eq_some read
      obtain ⟨source, rfl, extent⟩ := ih inner
      have inert := inert_append_digits (by decide : ['\\', 'u'].all isInert = true) found
      exact ⟨_, rfl, extent.escape inert (by simp) scalar⟩
  | case4 a b c d e f g h others ih =>
      obtain ⟨scalar, more, found, inner, rfl⟩ := Parsed.escape_eq_some read
      obtain ⟨source, rfl, extent⟩ := ih inner
      have inert := inert_append_digits (by decide : ['\\', 'U'].all isInert = true) found
      exact ⟨_, rfl, extent.escape inert (by simp) scalar⟩
  | case5 letter others _ _ ih =>
      obtain ⟨scalar, more, found, inner, rfl⟩ := Parsed.escape_eq_some read
      obtain ⟨source, rfl, extent⟩ := ih inner
      exact ⟨_, rfl, extent.escape (inert_short found) (by simp) scalar⟩
  | case6 c others noQuote _ _ _ allowed ih =>
      obtain ⟨more, inner, rfl⟩ := Parsed.after_eq_some read
      obtain ⟨source, rfl, extent⟩ := ih inner
      have plain : isPlain c = true := by simp_all [isPlain]
      exact ⟨_, rfl, extent.letter plain⟩
  | case7 => cases read

theorem literal?_extent {cs text rest : List Char} (read : literal? cs = some (text, rest)) :
    ∃ source, cs = source ++ rest ∧ '\n' ∉ source := by
  fun_induction literal? cs generalizing text with
  | case1 => cases read
  | case2 others =>
      obtain ⟨_, rfl⟩ : [] = text ∧ others = rest := by simpa using read
      exact ⟨['\''], rfl, by decide⟩
  | case3 c others _ printable ih =>
      obtain ⟨more, inner, rfl⟩ := Parsed.after_eq_some read
      obtain ⟨source, rfl, unbroken⟩ := ih inner
      have noFeed : c ≠ '\n' := by
        rintro rfl
        cases printable
      exact ⟨c :: source, rfl, by simp [noFeed.symm, unbroken]⟩
  | case4 => cases read

/-- The source of a text over several lines, up to the closing quotes. -/
structure LinesExtent (quote : Char) (source text : List Char) : Prop where
  closed : [quote, quote, quote] <:+ source
  long : text.length + 3 ≤ source.length
  kept : (source.filter isMark).Sublist text

/-- What follows a text over several lines in the input. -/
def LinesReach (quote : Char) (cs text rest : List Char) : Prop :=
  ∃ source, cs = source ++ rest ∧ LinesExtent quote source text

namespace LinesReach

variable {quote : Char} {cs text rest : List Char}

theorem close (unmarked : isMark quote = false) (rest : List Char) :
    LinesReach quote (quote :: quote :: quote :: rest) [] rest :=
  ⟨[quote, quote, quote], rfl, List.suffix_rfl, by simp, by simp [unmarked]⟩

theorem keep (reach : LinesReach quote cs text rest) (c : Char) : LinesReach quote (c :: cs) (c :: text) rest := by
  obtain ⟨source, rfl, extent⟩ := reach
  refine ⟨c :: source, rfl, extent.closed.trans (List.suffix_cons c source), by simpa using extent.long, ?_⟩
  rw [List.filter_cons]
  split
  · exact extent.kept.cons_cons c
  · exact extent.kept.cons c

theorem skip (reach : LinesReach quote cs text rest) {front : List Char} (inert : front.filter isMark = []) :
    LinesReach quote (front ++ cs) text rest := by
  obtain ⟨source, rfl, extent⟩ := reach
  refine ⟨front ++ source, by rw [List.append_assoc], extent.closed.trans (List.suffix_append _ _), ?_, ?_⟩
  · have longer := extent.long
    rw [List.length_append]
    omega
  · rw [List.filter_append, inert]
    exact extent.kept

theorem escape (reach : LinesReach quote cs text rest) {front : List Char} (inert : front.all isInert = true)
    (long : front ≠ []) (c : Char) : LinesReach quote (front ++ cs) (c :: text) rest := by
  obtain ⟨source, rfl, extent⟩ := reach
  refine ⟨front ++ source, by rw [List.append_assoc], extent.closed.trans (List.suffix_append _ _), ?_, ?_⟩
  · have longer := extent.long
    have positive := List.length_pos_iff.mpr long
    rw [List.length_append, List.length_cons]
    omega
  · rw [List.filter_append, filter_isMark_of_inert inert]
    exact extent.kept.cons c

end LinesReach

theorem quotedLines?_reach {place : Place} {cs text rest : List Char}
    (read : quotedLines? place cs = some (text, rest)) :
    LinesReach '"' cs text rest := by
  -- each case says what its characters give: themselves, one other character, or nothing
  fun_induction quotedLines? place cs generalizing text with
  | case1 | case10 | case22 => cases read
  | case2 others ih =>
      obtain ⟨more, inner, rfl⟩ := Parsed.after_eq_some read
      exact ((ih inner).keep '\n').skip (show ['\r'].filter isMark = [] from rfl)
  | case3 place others _ ih => exact (ih read).skip (show ['\r', '\n'].filter isMark = [] from rfl)
  | case4 others ih | case6 others ih | case8 others ih =>
      obtain ⟨more, inner, rfl⟩ := Parsed.after_eq_some read
      exact (ih inner).keep _
  | case5 place others _ ih => exact (ih read).skip (show ['\n'].filter isMark = [] from rfl)
  | case7 place others _ ih => exact (ih read).skip (show [' '].filter isMark = [] from rfl)
  | case9 place others _ ih => exact (ih read).skip (show ['\t'].filter isMark = [] from rfl)
  | case11 =>
      cases read
      exact ((LinesReach.close rfl _).keep _).keep _
  | case12 =>
      cases read
      exact (LinesReach.close rfl _).keep _
  | case13 =>
      cases read
      exact .close rfl _
  | case14 place a b c d others _ ih =>
      obtain ⟨scalar, more, found, inner, rfl⟩ := Parsed.escape_eq_some read
      have inert := inert_append_digits (by decide : ['\\', 'u'].all isInert = true) found
      exact (ih inner).escape inert (by simp) scalar
  | case15 place a b c d e f g h others _ ih =>
      obtain ⟨scalar, more, found, inner, rfl⟩ := Parsed.escape_eq_some read
      have inert := inert_append_digits (by decide : ['\\', 'U'].all isInert = true) found
      exact (ih inner).escape inert (by simp) scalar
  | case16 place others _ ih => exact (ih read).skip (show ['\\', ' '].filter isMark = [] from rfl)
  | case17 place others _ ih => exact (ih read).skip (show ['\\', '\t'].filter isMark = [] from rfl)
  | case18 place others _ ih => exact (ih read).skip (show ['\\', '\n'].filter isMark = [] from rfl)
  | case19 place others _ ih => exact (ih read).skip (show ['\\', '\r', '\n'].filter isMark = [] from rfl)
  | case20 place letter others _ _ _ _ _ _ _ ih =>
      obtain ⟨scalar, more, found, inner, rfl⟩ := Parsed.escape_eq_some read
      exact (ih inner).escape (inert_short found) (by simp) scalar
  | case21 =>
      rename_i ih
      obtain ⟨more, inner, rfl⟩ := Parsed.after_eq_some read
      exact (ih inner).keep _

theorem literalLines?_reach {cs text rest : List Char} (read : literalLines? cs = some (text, rest)) :
    LinesReach '\'' cs text rest := by
  fun_induction literalLines? cs generalizing text with
  | case1 | case8 => cases read
  | case2 others ih =>
      obtain ⟨more, inner, rfl⟩ := Parsed.after_eq_some read
      exact ((ih inner).keep '\n').skip (show ['\r'].filter isMark = [] from rfl)
  | case3 others ih | case7 c others _ _ _ _ _ _ ih =>
      obtain ⟨more, inner, rfl⟩ := Parsed.after_eq_some read
      exact (ih inner).keep _
  | case4 =>
      cases read
      exact ((LinesReach.close rfl _).keep _).keep _
  | case5 =>
      cases read
      exact (LinesReach.close rfl _).keep _
  | case6 =>
      cases read
      exact .close rfl _

/-- The source of a value: it stands on one line, or it is a text over several lines. -/
inductive ValueExtent (source text : List Char) : Prop where
  | line (unbroken : '\n' ∉ source)
      (plain : source.head? ≠ some '\'' → source.length ≤ text.length + 2 → text.all isPlain = true)
  | lines (quote : Char) (isQuote : quote = '"' ∨ quote = '\'') (extent : LinesExtent quote source text)

theorem exists_skipLineEnd (cs : List Char) : ∃ front, cs = front ++ skipLineEnd cs ∧ front.filter isMark = [] := by
  unfold skipLineEnd
  split
  · exact ⟨['\n'], rfl, rfl⟩
  · exact ⟨['\r', '\n'], rfl, rfl⟩
  · exact ⟨[], rfl, rfl⟩

theorem LinesReach.extent {quote : Char} (isQuote : quote = '"' ∨ quote = '\'') {cs text rest : List Char}
    (reach : LinesReach quote (skipLineEnd cs) text rest) :
    ∃ source, quote :: quote :: quote :: cs = source ++ rest ∧ ValueExtent source text := by
  obtain ⟨front, split, unmarked⟩ := exists_skipLineEnd cs
  have opened : (quote :: quote :: quote :: front).filter isMark = [] := by
    rcases isQuote with rfl | rfl <;> exact unmarked
  obtain ⟨source, whole, extent⟩ := reach.skip opened
  exact ⟨source, by rw [← whole, List.cons_append, List.cons_append, List.cons_append, ← split],
    .lines quote isQuote extent⟩

theorem value?_extent {cs text rest : List Char} (read : value? cs = some (text, rest)) :
    ∃ source, cs = source ++ rest ∧ ValueExtent source text := by
  unfold value? at read
  split at read
  · exact (quotedLines?_reach read).extent (.inl rfl)
  · exact (literalLines?_reach read).extent (.inr rfl)
  · obtain ⟨source, rfl, extent⟩ := quoted?_extent read
    refine ⟨'"' :: source ++ ['"'], by simp, .line (by simp [extent.unbroken]) fun _ short => ?_⟩
    have longer := extent.long
    simp only [List.cons_append, List.length_cons, List.length_append] at short
    exact extent.plain (by simp at short; omega)
  · obtain ⟨source, rfl, unbroken⟩ := literal?_extent read
    exact ⟨'\'' :: source, rfl, .line (by simp [unbroken]) (by simp)⟩
  · cases read

theorem unbroken_takeWhile {allowed : Char → Bool} (noFeed : allowed '\n' = false) (cs : List Char) :
    '\n' ∉ cs.takeWhile allowed := by
  intro member
  have taken := List.mem_takeWhile_imp member
  rw [noFeed] at taken
  cases taken

theorem key?_extent {cs key rest : List Char} (read : key? cs = some (key, rest)) :
    ∃ source, cs = source ++ rest ∧ '\n' ∉ source := by
  unfold key? at read
  split at read
  · obtain ⟨source, rfl, extent⟩ := quoted?_extent read
    exact ⟨'"' :: source ++ ['"'], by simp, by simp [extent.unbroken]⟩
  · obtain ⟨source, rfl, unbroken⟩ := literal?_extent read
    exact ⟨'\'' :: source, rfl, by simp [unbroken]⟩
  · split at read
    · cases read
    · obtain ⟨_, rfl⟩ : _ ∧ cs.dropWhile isBareKey = rest := by simpa using read
      exact ⟨cs.takeWhile isBareKey, List.takeWhile_append_dropWhile.symm, unbroken_takeWhile rfl cs⟩

theorem skipSpace_extent (cs : List Char) : ∃ spaces, cs = spaces ++ skipSpace cs ∧ '\n' ∉ spaces :=
  ⟨cs.takeWhile isSpace, List.takeWhile_append_dropWhile.symm, unbroken_takeWhile rfl cs⟩

/-- An assignment is read from its line up to the value. -/
theorem assignment?_extent {cs rest : List Char} {entry : String × String}
    (read : assignment? cs = some (entry, rest)) :
    ∃ front tail, cs = front ++ tail ∧ '\n' ∉ front ∧ value? tail = some (entry.2.toList, rest) := by
  obtain ⟨⟨key, afterKey⟩, keyed, assigned⟩ := Option.bind_eq_some_iff.mp read
  obtain ⟨source, rfl, unbroken⟩ := key?_extent keyed
  obtain ⟨before, parted, beforeUnbroken⟩ := skipSpace_extent afterKey
  dsimp only at assigned
  split at assigned
  · rename_i tail found
    obtain ⟨⟨value, left⟩, valued, same⟩ := Option.bind_eq_some_iff.mp assigned
    obtain ⟨rfl, rfl⟩ : (String.ofList key, String.ofList value) = entry ∧ left = rest := by simpa using same
    obtain ⟨after, partedTail, afterUnbroken⟩ := skipSpace_extent tail
    refine ⟨source ++ before ++ '=' :: after, skipSpace tail, ?_, ?_, by simpa using valued⟩
    · calc source ++ afterKey
          = source ++ (before ++ '=' :: tail) := by rw [parted, found]
        _ = source ++ (before ++ '=' :: (after ++ skipSpace tail)) := by rw [← partedTail]
        _ = source ++ before ++ '=' :: after ++ skipSpace tail := by simp
    · simp [unbroken, beforeUnbroken, afterUnbroken]
  · cases assigned

/-- What stands after a comment. -/
def uncommented : List Char → List Char
  | '#' :: comment => comment.dropWhile isPrintable
  | rest => rest

theorem uncommented_extent (cs : List Char) : ∃ comment, cs = comment ++ uncommented cs ∧ '\n' ∉ comment := by
  unfold uncommented
  split
  · rename_i comment
    have unbroken : '\n' ∉ comment.takeWhile isPrintable := unbroken_takeWhile rfl comment
    exact ⟨'#' :: comment.takeWhile isPrintable, by simp, by simp [unbroken]⟩
  · exact ⟨[], rfl, List.not_mem_nil⟩

theorem lineEnd?_eq (cs : List Char) :
    lineEnd? cs = match uncommented (skipSpace cs) with
      | [] => some []
      | '\n' :: rest => some rest
      | '\r' :: '\n' :: rest => some rest
      | _ => none :=
  rfl

theorem lineEnd?_extent {cs rest : List Char} (ended : lineEnd? cs = some rest) :
    '\n' ∉ cs ∨ ∃ line, cs = line ++ '\n' :: rest ∧ '\n' ∉ line := by
  obtain ⟨spaces, parted, spacesUnbroken⟩ := skipSpace_extent cs
  obtain ⟨comment, partedAgain, commentUnbroken⟩ := uncommented_extent (skipSpace cs)
  rw [partedAgain] at parted
  rw [lineEnd?_eq] at ended
  split at ended
  · rename_i nothing
    rw [parted, nothing]
    exact .inl (by simp [spacesUnbroken, commentUnbroken])
  · rename_i others found
    obtain rfl : others = rest := by simpa using ended
    refine .inr ⟨spaces ++ comment, ?_, by simp [spacesUnbroken, commentUnbroken]⟩
    rw [parted, found, List.append_assoc]
  · rename_i others found
    obtain rfl : others = rest := by simpa using ended
    refine .inr ⟨spaces ++ comment ++ ['\r'], ?_, by simp [spacesUnbroken, commentUnbroken]⟩
    rw [parted, found, List.append_assoc, List.append_assoc, List.singleton_append]
  · cases ended

/-! What is read up to the end of a given line does not depend on what follows it, unless a
text over several lines takes it in. -/

theorem exists_append_of_not_mem {c : Char} {source rest before after : List Char} (absent : c ∉ source)
    (same : source ++ rest = before ++ c :: after) :
    ∃ more, before = source ++ more ∧ rest = more ++ c :: after := by
  rcases List.append_eq_append_iff.mp same with ⟨more, inside, left⟩ | ⟨more, beyond, left⟩
  · exact ⟨more, inside, left⟩
  · cases more with
    | nil => exact ⟨[], by simp [beyond], left.symm⟩
    | cons first others =>
        obtain ⟨rfl, _⟩ : c = first ∧ after = others ++ rest := by simpa using left
        exact absurd (by simp [beyond]) absent

theorem suffix_of_append_cons {c : Char} {ending before after : List Char} (absent : c ∉ ending)
    (ends : ending <:+ before ++ c :: after) : ending <:+ after := by
  rcases Nat.lt_or_ge after.length ending.length with longer | shorter
  · have reached : c :: after <:+ before ++ c :: after := List.suffix_append _ _
    have inside : c :: after <:+ ending := List.suffix_of_suffix_length_le reached ends longer
    exact absurd (inside.subset (by simp)) absent
  · have reached : after <:+ before ++ c :: after := ⟨before ++ [c], by simp⟩
    exact List.suffix_of_suffix_length_le ends reached shorter

/-- Lines that no text over several lines could end in, before it has taken in an equals sign
and a slash. -/
def Guarded (lines : List Char) : Prop :=
  ∃ front back, lines = front ++ '/' :: back ∧ '=' ∈ front ∧ '/' ∉ front ∧
    ¬ ['"', '"', '"'] <:+: front ∧ ¬ ['\'', '\'', '\''] <:+: front

theorem LinesExtent.shows {quote : Char} (isQuote : quote = '"' ∨ quote = '\'')
    {before inside text rest after : List Char} (extent : LinesExtent quote (before ++ '\n' :: inside) text)
    (guarded : Guarded after) (same : after = inside ++ rest) : ['=', '/'].Sublist text := by
  obtain ⟨front, back, rfl, sign, noSlash, noDouble, noSingle⟩ := guarded
  have begins : inside <+: front ++ '/' :: back := ⟨rest, same.symm⟩
  rcases Nat.lt_or_ge front.length inside.length with longer | shorter
  · -- the slash has been passed, and the equals sign before it
    have passed : front ++ ['/'] <+: inside :=
      List.prefix_of_prefix_length_le ⟨back, by simp⟩ begins (by rw [List.length_append]; exact longer)
    have signs : ['=', '/'].Sublist (front ++ ['/']) := (List.singleton_sublist.mpr sign).append (List.Sublist.refl _)
    have within : inside <:+ before ++ '\n' :: inside :=
      (List.suffix_cons '\n' inside).trans (List.suffix_append before _)
    have taken := (signs.trans passed.sublist).trans within.sublist
    exact (taken.filter isMark).trans extent.kept
  · -- the closing quotes would stand before the slash
    have ends : inside <+: front := List.prefix_of_prefix_length_le begins (List.prefix_append _ _) shorter
    have closed : [quote, quote, quote] <:+ inside :=
      suffix_of_append_cons (by rcases isQuote with rfl | rfl <;> decide) extent.closed
    have stands := closed.isInfix.trans ends.isInfix
    rcases isQuote with rfl | rfl
    · exact absurd stands noDouble
    · exact absurd stands noSingle

theorem ValueExtent.stays_or_shows {source text rest before after : List Char} (extent : ValueExtent source text)
    (guarded : Guarded after) (same : source ++ rest = before ++ '\n' :: after) :
    (∃ more, before = source ++ more ∧ rest = more ++ '\n' :: after) ∨ ['=', '/'].Sublist text := by
  cases extent with
  | line unbroken _ => exact .inl (exists_append_of_not_mem unbroken same)
  | lines quote isQuote extent =>
      rcases List.append_eq_append_iff.mp same with ⟨more, inside, left⟩ | ⟨more, beyond, left⟩
      · exact .inl ⟨more, inside, left⟩
      · cases more with
        | nil => exact .inl ⟨[], by simp [beyond], left.symm⟩
        | cons first others =>
            obtain ⟨rfl, passed⟩ : '\n' = first ∧ after = others ++ rest := by simpa using left
            exact .inr (LinesExtent.shows isQuote (beyond ▸ extent) guarded passed)

/-- A value that is read as the text between its quotes is quoted as it is. -/
theorem plain_of_value? {text rest after : List Char} (guarded : Guarded after) (unshown : ¬ ['=', '/'].Sublist text)
    (read : value? ('"' :: text ++ '"' :: '\n' :: after) = some (text, rest)) : text.all isPlain = true := by
  obtain ⟨source, whole, extent⟩ := value?_extent read
  have same : source ++ rest = ('"' :: text ++ ['"']) ++ '\n' :: after := by rw [← whole]; simp
  obtain ⟨more, inside, _⟩ := (extent.stays_or_shows guarded same).resolve_right unshown
  have short : source.length ≤ text.length + 2 := by
    have lengths := congrArg List.length inside
    simp only [List.length_append, List.length_cons, List.length_nil] at lengths
    omega
  cases extent with
  | line _ plain =>
      refine plain ?_ short
      cases source with
      | nil => simp
      | cons first others =>
          obtain ⟨rfl, _⟩ : '"' = first ∧ text ++ ['"'] = others ++ more := by simpa using inside
          simp
  | lines quote isQuote extent =>
      have long := extent.long
      omega

theorem lineEnd?_crosses {before after rest : List Char} (ended : lineEnd? (before ++ '\n' :: after) = some rest) :
    rest = after ∨ ∃ more, rest = more ++ '\n' :: after := by
  rcases lineEnd?_extent ended with unbroken | ⟨line, same, unbroken⟩
  · exact absurd (by simp) unbroken
  · obtain ⟨more, _, left⟩ := exists_append_of_not_mem unbroken same.symm
    cases more with
    | nil => exact .inl (by simpa using left)
    | cons first others => exact .inr ⟨others, by simpa using (List.cons.inj left).2⟩

theorem assignment?_crosses {before after rest : List Char} (guarded : Guarded after) {entry : String × String}
    (read : assignment? (skipSpace (before ++ '\n' :: after)) = some (entry, rest)) :
    (∃ more, rest = more ++ '\n' :: after) ∨ ['=', '/'].Sublist entry.2.toList := by
  obtain ⟨spaces, whole, spacesUnbroken⟩ := skipSpace_extent (before ++ '\n' :: after)
  obtain ⟨front, tail, parted, frontUnbroken, valued⟩ := assignment?_extent read
  rw [parted, ← List.append_assoc] at whole
  obtain ⟨left, _, rfl⟩ := exists_append_of_not_mem (by simp [spacesUnbroken, frontUnbroken]) whole.symm
  obtain ⟨source, taken, extent⟩ := value?_extent valued
  rcases extent.stays_or_shows guarded taken.symm with ⟨more, _, rest⟩ | shown
  · exact .inl ⟨more, rest⟩
  · exact .inr shown

/-- Whatever stands before the end of a line: when the text is read, the lines after it are read
by themselves, or some value shows that it took them in. -/
theorem assignments?_crosses {after : List Char} (guarded : Guarded after) {lines : Nat} {before : List Char}
    {entries : List (String × String)} (read : assignments? lines (before ++ '\n' :: after) = some entries) :
    (∃ fewer later, assignments? fewer after = some later ∧ later <:+ entries) ∨
      ∃ entry ∈ entries, ['=', '/'].Sublist entry.2.toList := by
  induction lines generalizing before entries with
  | zero => cases before <;> cases read
  | succ lines ih =>
      -- the rest of a line is reached or lies before it, and then the fewer lines decide
      have next : ∀ rest later, (rest = after ∨ ∃ more, rest = more ++ '\n' :: after) →
          assignments? lines rest = some later → later <:+ entries →
          (∃ fewer later, assignments? fewer after = some later ∧ later <:+ entries) ∨
            ∃ entry ∈ entries, ['=', '/'].Sublist entry.2.toList := by
        rintro rest later (rfl | ⟨more, rfl⟩) read ends
        · exact .inl ⟨lines, later, read, ends⟩
        · rcases ih read with ⟨fewer, last, read, within⟩ | ⟨entry, member, shown⟩
          · exact .inl ⟨fewer, last, read, within.trans ends⟩
          · exact .inr ⟨entry, ends.subset member, shown⟩
      rw [assignments?] at read
      · split at read
        · rename_i rest ended
          exact next rest entries (lineEnd?_crosses ended) read List.suffix_rfl
        · obtain ⟨⟨entry, rest⟩, assigned, others⟩ := Option.bind_eq_some_iff.mp read
          obtain ⟨left, ended, others⟩ := Option.bind_eq_some_iff.mp others
          obtain ⟨later, followed, same⟩ := Option.bind_eq_some_iff.mp others
          obtain rfl : entry :: later = entries := by simpa using same
          rcases assignment?_crosses guarded assigned with ⟨more, rfl⟩ | shown
          · exact next left later (lineEnd?_crosses ended) followed (List.suffix_cons entry later)
          · exact .inr ⟨entry, List.mem_cons_self, shown⟩
      · simp

end ApiReference.SettingsText
