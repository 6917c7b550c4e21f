import ApiReference.Project.Layout
import ApiReference.Proofs.Site.Address
import Mathlib.Data.List.Induction

namespace ApiReference

/-! Paths that are extended by single steps: each step adds one component and changes nothing
before it. -/

/-- The piece of a path that a component was; the first component of a path is none. -/
def Component.step? : Component → Option String
  | .root => none
  | .current => none
  | .parent => some ".."
  | .name text => some text

namespace Path

/-- A text that is one step of a path. -/
structure IsPart (part : String) : Prop where
  slashFree : '/' ∉ part.toList
  active : isIdle part = false

namespace IsPart

variable {part : String}

theorem relative (isPart : IsPart part) : Text.startsWith "/" part = false :=
  relative_of_slashFree isPart.slashFree

theorem pieces (isPart : IsPart part) : (Path.mk part).pieces = [part] :=
  Text.splitOn_of_not_mem isPart.slashFree

theorem names (isPart : IsPart part) : (Path.mk part).names = [part] := by
  rw [names_of_slashFree isPart.slashFree, isPart.active]
  rfl

end IsPart

/-- A pushed path ends in the pieces of the part. -/
theorem exists_pieces_push (path : Path) {part : String} (relative : Text.startsWith "/" part = false) :
    ∃ front, (path.push part).pieces = front ++ (Path.mk part).pieces := by
  by_cases nonempty : path.text = ""
  · refine ⟨[], ?_⟩
    rw [push_of_relative relative, if_pos (.inl nonempty), nonempty, String.empty_append, List.nil_append]
  · obtain ⟨front, _, pushed⟩ := pieces_push nonempty relative
    exact ⟨front, pushed⟩

theorem asksDirectory_of_pieces {path : Path} {front : List String} {last : String}
    (pieces : path.pieces = front ++ [last]) : path.asksDirectory = isIdle last := by
  simp [asksDirectory, pieces]

theorem asksDirectory_push (path : Path) {part : String} (isPart : IsPart part) :
    (path.push part).asksDirectory = false := by
  obtain ⟨front, pushed⟩ := exists_pieces_push path isPart.relative
  rw [isPart.pieces] at pushed
  rw [asksDirectory_of_pieces pushed, isPart.active]

theorem start_push_of_nonempty {path : Path} (nonempty : path.text ≠ "") {part : String}
    (relative : Text.startsWith "/" part = false) : (path.push part).start = path.start := by
  obtain ⟨front, own, pushed⟩ := pieces_push nonempty relative
  have some : front ≠ [] := by
    rintro rfl
    rcases own with own | own
    · simp [Path.pieces, Text.splitOn, Chars.splitOn_eq, List.splitOn_ne_nil] at own
    · -- the only text whose pieces are one empty piece is the empty one
      have joined := congrArg (fun pieces => ['/'].intercalate (pieces.map String.toList)) own
      simp [Path.pieces, Text.splitOn, Chars.splitOn_eq, Function.comp_def, List.intercalate_splitOn] at joined
      exact nonempty joined
  obtain ⟨first, rest, rfl⟩ := List.exists_cons_of_ne_nil some
  have head : (path.push part).pieces.head? = path.pieces.head? := by
    rw [pushed]
    rcases own with own | own <;> rw [own] <;> rfl
  unfold start
  rw [isAbsolute_push path relative, head]

theorem start_push (path : Path) {part : String} (isPart : IsPart part) :
    (path.push part).start = path.start := by
  by_cases empty : path.text = ""
  · have pushed : (path.push part).pieces = [part] := by
      rw [push_of_relative isPart.relative, if_pos (.inl empty), empty, String.empty_append, isPart.pieces]
    have dotted : part ≠ "." := by
      rintro rfl
      exact absurd isPart.active (by decide)
    have own : path.pieces = [""] := by
      rw [Path.pieces, empty]
      rfl
    unfold start
    rw [isAbsolute_push path isPart.relative]
    simp [pushed, own, dotted]
  · exact start_push_of_nonempty empty isPart.relative

theorem components_push_of_nonempty {path : Path} (nonempty : path.text ≠ "") {part : String}
    (relative : Text.startsWith "/" part = false) :
    (path.push part).components = path.components ++ (Path.mk part).names.map pieceComponent := by
  rw [components_eq, start_push_of_nonempty nonempty relative, names_push path relative, List.map_append,
    ← List.append_assoc, ← components_eq]

theorem components_push (path : Path) {part : String} (isPart : IsPart part) :
    (path.push part).components = path.components ++ [pieceComponent part] := by
  rw [components_eq, start_push path isPart, names_push path isPart.relative, isPart.names, List.map_append,
    ← List.append_assoc, ← components_eq, List.map_singleton]

theorem components_pushAll (path : Path) {parts : List String} (areParts : ∀ part ∈ parts, IsPart part) :
    (path.pushAll parts).components = path.components ++ parts.map pieceComponent := by
  induction parts generalizing path with
  | nil => simp [pushAll]
  | cons part rest ih =>
      have rested := ih (path.push part) fun other member => areParts other (List.mem_cons_of_mem _ member)
      rw [components_push path (areParts part List.mem_cons_self), List.append_assoc] at rested
      exact rested

theorem names_pushAll_parts (path : Path) {parts : List String} (areParts : ∀ part ∈ parts, IsPart part) :
    (path.pushAll parts).names = path.names ++ parts := by
  rw [names_pushAll path fun part member => (areParts part member).relative]
  have single : parts.flatMap (fun part => (Path.mk part).names) = parts.flatMap fun part => [part] :=
    List.flatMap_congr fun part member => (areParts part member).names
  rw [single, List.flatMap_singleton']

theorem pushAll_append (path : Path) (first second : List String) :
    path.pushAll (first ++ second) = (path.pushAll first).pushAll second := List.foldl_append

theorem componentsAfter?_eq_some_iff {base path : Path} {rest : List Component} :
    componentsAfter? base path = some rest ↔ path.components = base.components ++ rest := by
  unfold componentsAfter?
  by_cases begins : base.components <+: path.components
  · rw [if_pos (List.isPrefixOf_iff_prefix.mpr begins)]
    obtain ⟨tail, split⟩ := begins
    simp [← split]
  · rw [if_neg (mt List.isPrefixOf_iff_prefix.mp begins)]
    constructor
    · intro impossible
      cases impossible
    · intro split
      exact absurd ⟨rest, split.symm⟩ begins

theorem startsWith_iff {base path : Path} : startsWith base path = true ↔ base.components <+: path.components := by
  rw [startsWith, Option.isSome_iff_exists]
  simp only [componentsAfter?_eq_some_iff]
  exact ⟨fun ⟨rest, split⟩ => ⟨rest, split.symm⟩, fun ⟨rest, split⟩ => ⟨rest, split.symm⟩⟩

theorem text_ne_empty {path : Path} (nonempty : path.components ≠ []) : path.text ≠ "" := by
  intro empty
  cases path
  subst empty
  exact nonempty rfl

theorem isPart_of_mem_names {path : Path} {name : String} (member : name ∈ path.names) : IsPart name := by
  obtain ⟨piece, active⟩ := List.mem_filter.mp member
  exact ⟨Chars.not_mem_of_mem_splitOn (Text.toList_mem_splitOn.mp piece), by simpa using active⟩

theorem mem_names_of_fileName? {path : Path} {name : String} (named : path.fileName? = some name) : name ∈ path.names := by
  unfold fileName? at named
  split at named
  · rename_i text last
    obtain rfl : text = name := by simpa using named
    have member := List.mem_of_getLast? last
    rw [components_eq, List.mem_append] at member
    rcases member with first | member
    · unfold start at first
      split at first
      · simp at first
      · split at first <;> simp at first
    · obtain ⟨piece, inside, same⟩ := List.mem_map.mp member
      unfold pieceComponent at same
      split at same
      · cases same
      · cases same
        exact inside
  · cases named

theorem step?_pieceComponent (piece : String) : (pieceComponent piece).step? = some piece := by
  unfold pieceComponent
  split
  · rename_i up
    rw [up]
    rfl
  · rfl

theorem filterMap_step?_map (steps : List String) : (steps.map pieceComponent).filterMap Component.step? = steps := by
  rw [List.filterMap_map, show Component.step? ∘ pieceComponent = some from funext step?_pieceComponent, List.filterMap_some]

theorem filterMap_step?_components (path : Path) : path.components.filterMap Component.step? = path.names := by
  have started : path.start.filterMap Component.step? = [] := by
    unfold start
    split
    · rfl
    · split <;> rfl
  rw [components_eq, List.filterMap_append, started, List.nil_append, filterMap_step?_map]

theorem names_of_components {base path : Path} {steps : List String}
    (split : path.components = base.components ++ steps.map pieceComponent) : path.names = base.names ++ steps := by
  have stepped := congrArg (List.filterMap Component.step?) split
  rwa [List.filterMap_append, filterMap_step?_components, filterMap_step?_components, filterMap_step?_map] at stepped

theorem names_dropWhile_slash (cs : List Char) :
    (Path.mk (String.ofList (cs.dropWhile (· = '/')))).names = (Path.mk (String.ofList cs)).names := by
  induction cs with
  | nil => rfl
  | cons c rest ih =>
      by_cases slash : c = '/'
      · have written : String.ofList (c :: rest) = "" ++ "/" ++ String.ofList rest := by
          apply String.toList_injective
          simp [slash]
        have idle : (Path.mk "").names = [] := rfl
        rw [written, names_append_slash, idle, List.nil_append, ← ih, List.dropWhile_cons_of_pos (by simp [slash])]
      · rw [List.dropWhile_cons_of_neg (by simp [slash])]

theorem names_rdropWhile_slash (cs : List Char) :
    (Path.mk (String.ofList (cs.rdropWhile (· = '/')))).names = (Path.mk (String.ofList cs)).names := by
  induction cs using List.reverseRecOn with
  | nil => rfl
  | append_singleton front c ih =>
      by_cases slash : c = '/'
      · have written : String.ofList (front ++ [c]) = String.ofList front ++ "/" ++ "" := by
          apply String.toList_injective
          simp [slash]
        have idle : (Path.mk "").names = [] := rfl
        rw [written, names_append_slash, idle, List.append_nil, ← ih, List.rdropWhile_concat_pos _ _ _ (by simp [slash])]
      · rw [List.rdropWhile_concat_neg _ _ _ (by simp [slash])]

/-- No piece of the text is empty or a single dot. -/
def Straight (text : String) : Prop := ∀ piece ∈ (Path.mk text).pieces, isIdle piece = false

theorem Straight.names {text : String} (straight : Straight text) :
    (Path.mk text).names = (Path.mk text).pieces := by
  rw [Path.names, List.filter_eq_self]
  intro piece member
  rw [straight piece member]
  rfl

theorem Straight.head?_ne {text : String} (straight : Straight text) : text.toList.head? ≠ some '/' := by
  intro slash
  obtain ⟨rest, written⟩ := List.head?_eq_some_iff.mp slash
  have first : "" ∈ (Path.mk text).pieces := by
    simp [pieces, Text.splitOn, written, Chars.splitOn]
  exact absurd (straight "" first) (by decide)

theorem Straight.relative {text : String} (straight : Straight text) : Text.startsWith "/" text = false :=
  startsWith_slash_eq_false_iff.mpr straight.head?_ne

theorem Straight.getLast?_ne {text : String} (straight : Straight text) : text.toList.getLast? ≠ some '/' := by
  intro slash
  obtain ⟨front, written⟩ := List.getLast?_eq_some_iff.mp slash
  have split : text = String.ofList front ++ "/" ++ "" := by
    apply String.toList_injective
    simp [written]
  have last : "" ∈ (Path.mk text).pieces := by
    rw [split, pieces_append_slash]
    exact List.mem_append_right _ List.mem_cons_self
  exact absurd (straight "" last) (by decide)

theorem pieces_intercalate {steps : List String} (nonempty : steps ≠ []) (slashFree : ∀ step ∈ steps, '/' ∉ step.toList) :
    (Path.mk ("/".intercalate steps)).pieces = steps :=
  Text.splitOn_intercalate_of_not_mem nonempty slashFree

theorem names_intercalate {steps : List String} (areParts : ∀ step ∈ steps, IsPart step) :
    (Path.mk ("/".intercalate steps)).names = steps := by
  cases steps with
  | nil => rfl
  | cons first rest =>
      have pieces := pieces_intercalate (List.cons_ne_nil first rest) fun step member =>
        (areParts step member).slashFree
      rw [names, pieces, List.filter_eq_self]
      intro step member
      rw [(areParts step member).active]
      rfl

end Path

namespace Project

open ApiReference.Path

theorem parts_eq_names (relative : String) : parts relative = (Path.mk relative).names := by
  have trimmed : (Path.mk (Text.trimMatching (· = '/') relative)).names = (Path.mk relative).names := by
    have ended := names_rdropWhile_slash (relative.toList.dropWhile (· = '/'))
    rwa [names_dropWhile_slash, String.ofList_toList] at ended
  rw [← trimmed]
  unfold parts
  generalize Text.trimMatching (· = '/') relative = text
  change (Path.mk ((Text.after? "./" text).getD text)).names = (Path.mk text).names
  cases found : Text.after? "./" text with
  | none => rfl
  | some rest =>
      obtain ⟨cs, taken, rfl⟩ := Option.map_eq_some_iff.mp found
      have written : text = "." ++ "/" ++ String.ofList cs := by
        apply String.toList_injective
        rw [Chars.after?_eq_some taken]
        simp
      have idle : (Path.mk ".").names = [] := by decide
      rw [written, names_append_slash, idle]
      rfl

theorem isPart_of_mem_parts {relative part : String} (member : part ∈ parts relative) : IsPart part :=
  @isPart_of_mem_names ⟨relative⟩ part (parts_eq_names relative ▸ member)

theorem components_resolve (root : Path) (relative : String) :
    (resolve root relative).components = root.components ++ (parts relative).map pieceComponent :=
  components_pushAll root fun _ => isPart_of_mem_parts

theorem names_resolve (root : Path) (relative : String) :
    (resolve root relative).names = root.names ++ parts relative :=
  names_pushAll_parts root fun _ => isPart_of_mem_parts

theorem exists_last_part {relative : String} (nonempty : parts relative ≠ []) :
    ∃ front last, parts relative = front ++ [last] ∧ IsPart last := by
  obtain ⟨front, last, split⟩ := (List.eq_nil_or_concat _).resolve_left nonempty
  rw [List.concat_eq_append] at split
  have member : last ∈ parts relative := by
    rw [split]
    simp
  exact ⟨front, last, split, isPart_of_mem_parts member⟩

theorem apiPath_eq_ok {root api : Path} {apiDir : String} (located : apiPath root apiDir = .ok api) :
    parts apiDir ≠ [] ∧ api = resolve root apiDir := by
  unfold apiPath at located
  split at located
  · cases located
  · rename_i nonempty
    exact ⟨nonempty, (Except.ok.inj located).symm⟩

end Project

end ApiReference
