import ApiReference.Proofs.FileTree.Work
import ApiReference.Proofs.Path.Parts
import ApiReference.Proofs.Site.Pages
import ApiReference.Publication

namespace ApiReference

/-! Where pages are saved and what their addresses say. An address holds the API directory as
it is written, but for dots and slashes around it; the place of a page is found part by part. -/

namespace Page

def directoryPieces (page : Page) : List String :=
  match page.moduleName with
  | some name => modulesDir :: (Text.splitOn '.' name).flatMap fun part => (Path.mk part).pieces
  | none => []

/-- The steps from the API directory to a page, as they are written in its names. -/
def pieces (page : Page) : List String := page.directoryPieces ++ (Path.mk page.basename).pieces

theorem pieces_ne_nil (page : Page) : page.pieces ≠ [] :=
  List.append_ne_nil_of_right_ne_nil _ (Path.pieces_ne_nil ⟨page.basename⟩)

theorem slashFree_of_mem_pieces (page : Page) {piece : String} (member : piece ∈ page.pieces) : '/' ∉ piece.toList := by
  have cut {text : String} (member : piece ∈ (Path.mk text).pieces) : '/' ∉ piece.toList :=
    Chars.not_mem_of_mem_splitOn (Text.toList_mem_splitOn.mp member)
  rcases List.mem_append.mp member with member | member
  · unfold directoryPieces at member
    split at member
    · rcases List.mem_cons.mp member with rfl | member
      · decide
      · obtain ⟨part, _, inside⟩ := List.mem_flatMap.mp member
        exact cut inside
    · cases member
  · exact cut member

/-- No step is empty or a single dot. -/
def Straight (page : Page) : Prop := ∀ piece ∈ page.pieces, Path.isIdle piece = false

theorem Straight.basename {page : Page} (straight : page.Straight) : Path.Straight page.basename :=
  fun piece member => straight piece (List.mem_append_right _ member)

theorem Straight.part {page : Page} (straight : page.Straight) {name part : String}
    (present : page.moduleName = some name) (member : part ∈ Text.splitOn '.' name) : Path.Straight part := by
  intro piece inside
  refine straight piece (List.mem_append_left _ ?_)
  rw [directoryPieces, present]
  exact List.mem_cons_of_mem _ (List.mem_flatMap.mpr ⟨part, member, inside⟩)

theorem Straight.directory_isAbsolute {page : Page} (straight : page.Straight) : page.directory.isAbsolute = false := by
  unfold directory
  split
  · rename_i name present
    rw [Path.isAbsolute_pushAll _ fun part member => (straight.part present member).relative]
    rfl
  · rfl

theorem Straight.location_relative {page : Page} (straight : page.Straight) :
    Text.startsWith "/" page.location.text = false := by
  change page.location.isAbsolute = false
  rw [location_eq, Path.isAbsolute_push _ straight.basename.relative, straight.directory_isAbsolute]

theorem Straight.directory_names {page : Page} (straight : page.Straight) :
    page.directory.names = page.directoryPieces := by
  cases present : page.moduleName with
  | none =>
      simp only [directory, directoryPieces, present]
      rfl
  | some name =>
      have own : (Path.mk modulesDir).names = [modulesDir] := by decide
      simp only [directory, directoryPieces, present]
      rw [Path.names_pushAll _ fun part member => (straight.part present member).relative, own, List.singleton_append]
      exact congrArg (modulesDir :: ·) (List.flatMap_congr fun part member => (straight.part present member).names)

theorem Straight.location_names {page : Page} (straight : page.Straight) : page.location.names = page.pieces := by
  rw [location_eq, Path.names_push _ straight.basename.relative, straight.directory_names, straight.basename.names]
  rfl

/-- The names of ordinary pages make no idle steps. -/
theorem Proper.straight {page : Page} (proper : page.Proper) (full : page.FullyNamed) : page.Straight := by
  have named := proper.named
  simp only [List.mem_cons, not_or] at named
  have own : Path.Straight page.basename := by
    intro piece member
    rw [Path.pieces, Text.splitOn_of_not_mem proper.basename, List.mem_singleton] at member
    simp [member, Path.isIdle, named.1, named.2.1]
  intro piece member
  rcases List.mem_append.mp member with member | member
  · unfold directoryPieces at member
    split at member
    · rename_i name present
      rcases List.mem_cons.mp member with rfl | member
      · decide
      · obtain ⟨part, listed, inside⟩ := List.mem_flatMap.mp member
        have slashFree := slashFree_of_mem_splitOn (proper.moduleName name present) listed
        have undotted := Chars.not_mem_of_mem_splitOn (Text.toList_mem_splitOn.mp listed)
        rw [Path.pieces, Text.splitOn_of_not_mem slashFree, List.mem_singleton] at inside
        have nonempty : part ≠ "" := fun empty => full name present (empty ▸ listed)
        have dotted : part ≠ "." := by
          rintro rfl
          exact absurd undotted (by decide)
        simp [inside, Path.isIdle, nonempty, dotted]
    · cases member
  · exact own piece member

end Page

namespace Address

theorem pieces_replace_dots (name : String) :
    (Path.mk (Text.replace "." "/" name)).pieces =
      (Text.splitOn '.' name).flatMap fun part => (Path.mk part).pieces := by
  simp only [Path.pieces, Text.splitOn, toList_replace_dots, Chars.splitOn_slash_map_dots, List.map_flatMap, List.flatMap_map,
    String.toList_ofList]

theorem pieces_ofPage (apiDir : String) (page : Page) :
    (Path.mk (ofPage apiDir page.moduleName page.basename)).pieces =
      "" :: (Path.mk (bareDir apiDir)).pieces ++ page.pieces := by
  have own : (Path.mk Page.modulesDir).pieces = [Page.modulesDir] := by decide
  cases present : page.moduleName with
  | none =>
      simp only [ofPage, Path.pieces_append_slash, Path.pieces_slash, Page.pieces, Page.directoryPieces, present,
        List.nil_append]
  | some name =>
      simp only [ofPage, Path.pieces_append_slash, Path.pieces_slash, pieces_replace_dots, own, Page.pieces,
        Page.directoryPieces, present, List.append_assoc, List.cons_append, List.nil_append]

end Address

namespace Project

open ApiReference.Path

/-- The parts of the directory stand in one stretch of its text, with single slashes between
them, and there are no dots at the ends of that stretch. -/
structure PlainlyWritten (directory : String) : Prop where
  stretch : ("/".intercalate (parts directory)).toList <:+: directory.toList
  opening : ("/".intercalate (parts directory)).toList.head? ≠ some '.'
  ending : ("/".intercalate (parts directory)).toList.getLast? ≠ some '.'

/-- Whether a character stands for a step, or a part of one, wherever it is. -/
def isTelling (c : Char) : Bool := !(c = '.' || c = '/')

theorem filter_isTelling_splitOn (cs : List Char) :
    cs.filter isTelling = (Chars.splitOn '/' cs).flatMap (List.filter isTelling) := by
  induction cs with
  | nil => rfl
  | cons c rest ih =>
      cases pieces : Chars.splitOn '/' rest with
      | nil =>
          rw [Chars.splitOn_eq] at pieces
          exact absurd pieces (List.splitOn_ne_nil '/' rest)
      | cons piece more =>
          rw [pieces] at ih
          by_cases slash : c = '/'
          · simp [Chars.splitOn, slash, pieces, ih, isTelling]
          · cases telling : isTelling c <;> simp [Chars.splitOn, slash, pieces, ih, telling]

/-- Nothing but dots and slashes gets lost between a path and its names. -/
theorem filter_isTelling_names (path : Path) :
    path.text.toList.filter isTelling = path.names.flatMap fun name => name.toList.filter isTelling := by
  have cut : path.text.toList.filter isTelling =
      path.pieces.flatMap fun piece => piece.toList.filter isTelling := by
    rw [filter_isTelling_splitOn, pieces, Text.splitOn, List.flatMap_map]
    simp only [String.toList_ofList]
  rw [cut, names]
  generalize path.pieces = pieces
  induction pieces with
  | nil => rfl
  | cons piece rest ih =>
      rw [List.flatMap_cons, ih]
      cases idle : isIdle piece with
      | false => simp [idle]
      | true =>
          have silent : piece.toList.filter isTelling = [] := by
            simp only [isIdle, Bool.or_eq_true, decide_eq_true_eq] at idle
            rcases idle with rfl | rfl <;> decide
          simp [idle, silent]

theorem pieces_intercalate_parts {directory : String} (nonempty : parts directory ≠ []) :
    (Path.mk ("/".intercalate (parts directory))).pieces = parts directory :=
  pieces_intercalate nonempty fun _ member => (isPart_of_mem_parts member).slashFree

theorem straight_intercalate_parts {directory : String} (nonempty : parts directory ≠ []) :
    Straight ("/".intercalate (parts directory)) := by
  intro piece member
  rw [pieces_intercalate_parts nonempty] at member
  exact (isPart_of_mem_parts member).active

/-- The joined parts of a directory hold all of its characters but dots and slashes. -/
theorem filter_isTelling_parts {directory : String} (nonempty : parts directory ≠ []) :
    ("/".intercalate (parts directory)).toList.filter isTelling = directory.toList.filter isTelling := by
  have joined := filter_isTelling_names ⟨"/".intercalate (parts directory)⟩
  have own := filter_isTelling_names ⟨directory⟩
  rw [(straight_intercalate_parts nonempty).names, pieces_intercalate_parts nonempty, parts_eq_names] at joined
  rw [parts_eq_names]
  exact joined.trans own.symm

theorem bareDir_eq_iff {directory : String} (nonempty : parts directory ≠ []) :
    Address.bareDir directory = "/".intercalate (parts directory) ↔ PlainlyWritten directory := by
  constructor
  · intro bare
    refine ⟨bare ▸ Text.trimMatching_infix _ directory, ?_, ?_⟩
    · intro dot
      rw [← bare] at dot
      exact absurd (Text.head?_trimMatching dot) (by decide)
    · intro dot
      rw [← bare] at dot
      exact absurd (Text.getLast?_trimMatching dot) (by decide)
  · intro written
    obtain ⟨front, back, around⟩ := written.stretch
    have straight := straight_intercalate_parts nonempty
    have telling := filter_isTelling_parts nonempty
    have lengths : (front.filter isTelling).length = 0 ∧ (back.filter isTelling).length = 0 := by
      have total := congrArg List.length telling
      rw [← around, List.filter_append, List.filter_append, List.length_append, List.length_append] at total
      omega
    have dropped : ∀ cs : List Char, (cs.filter isTelling).length = 0 → ∀ c ∈ cs, (c = '.' || c = '/') = true := by
      intro cs none c member
      have silent := List.filter_eq_nil_iff.mp (List.length_eq_zero_iff.mp none) c member
      simpa [isTelling, or_iff_not_imp_left] using silent
    have full : ("/".intercalate (parts directory)).toList ≠ [] := by
      intro empty
      have own := straight "" (by rw [String.toList_eq_nil_iff.mp empty]; exact List.mem_cons_self)
      exact absurd own (by decide)
    calc Address.bareDir directory
        = Text.trimMatching (fun c => c = '.' || c = '/')
            (String.ofList (front ++ ("/".intercalate (parts directory)).toList ++ back)) := by
          rw [around, String.ofList_toList]
          rfl
      _ = "/".intercalate (parts directory) := by
          rw [Text.trimMatching_append full ?_ ?_ (dropped front lengths.1) (dropped back lengths.2), String.ofList_toList]
          · intro c first
            have noDot : c ≠ '.' := fun dot => written.opening (dot ▸ first)
            have noSlash : c ≠ '/' := fun slash => straight.head?_ne (slash ▸ first)
            simp [noDot, noSlash]
          · intro c last
            have noDot : c ≠ '.' := fun dot => written.ending (dot ▸ last)
            have noSlash : c ≠ '/' := fun slash => straight.getLast?_ne (slash ▸ last)
            simp [noDot, noSlash]

theorem components_join_location {root api : Path} {apiDir : String} (located : apiPath root apiDir = .ok api)
    {page : Page} (straight : page.Straight) :
    (api.join page.location).components = root.components ++ (parts apiDir ++ page.pieces).map pieceComponent := by
  obtain ⟨nonempty, resolved⟩ := apiPath_eq_ok located
  have components : api.components = root.components ++ (parts apiDir).map pieceComponent :=
    resolved ▸ components_resolve root apiDir
  have named : api.text ≠ "" := by
    apply text_ne_empty
    rw [components]
    simp [nonempty]
  have names : (Path.mk page.location.text).names = page.pieces := straight.location_names
  rw [Path.join, components_push_of_nonempty named straight.location_relative, components, names, List.append_assoc,
    ← List.map_append]

end Project

namespace Publication

open FileWork Project

theorem eq_join_of_save {directory path : Path} {page : Page} {before after : FileTree}
    (ran : result (save directory page) before = (.ok (some path), after)) : path = directory.join page.location := by
  unfold save at ran
  split at ran
  · cases ran
  · obtain ⟨_, _, _, ran⟩ := bind_eq_ok ran
    obtain ⟨_, _, _, ended⟩ := bind_eq_ok ran
    cases ended
    rfl

/-- The address names, after a slash each, the steps from the root to the path. -/
def LeadsTo (root stored : Path) (address : String) : Prop :=
  ∃ steps : List String, Path.componentsAfter? root stored = some (steps.map Path.pieceComponent) ∧
    address = "/" ++ "/".intercalate steps

variable {root api : Path} {apiDir : String} {page : Page}

/-- An address that leads to a page has nothing but steps in it. -/
theorem plain_of_leadsTo (located : apiPath root apiDir = .ok api)
    (leads : LeadsTo root (api.join page.location) (Address.ofPage apiDir page.moduleName page.basename)) :
    PlainlyWritten apiDir ∧ page.Straight := by
  obtain ⟨steps, stored, address⟩ := leads
  rw [Path.componentsAfter?_eq_some_iff] at stored
  have directory := (apiPath_eq_ok located).1
  have areParts : ∀ step ∈ steps, Path.IsPart step := fun step member =>
    Path.isPart_of_mem_names (Path.names_of_components stored ▸ List.mem_append_right _ member)
  have cut : (Path.mk ("/".intercalate steps)).pieces = (Path.mk (Address.bareDir apiDir)).pieces ++ page.pieces := by
    have pieces := Address.pieces_ofPage apiDir page
    rw [address, Path.pieces_slash] at pieces
    exact (List.cons.inj pieces).2
  have nonempty : steps ≠ [] := by
    rintro rfl
    have bare := List.length_pos_of_ne_nil (Path.pieces_ne_nil ⟨Address.bareDir apiDir⟩)
    have own := List.length_pos_of_ne_nil page.pieces_ne_nil
    have lone : (Path.mk ("/".intercalate [])).pieces.length = 1 := rfl
    rw [cut, List.length_append] at lone
    omega
  rw [Path.pieces_intercalate nonempty fun step member => (areParts step member).slashFree] at cut
  have straight : page.Straight := fun piece member => (areParts piece (cut ▸ List.mem_append_right _ member)).active
  -- the same steps lead on from the root, and the page has its pieces at their end
  have same : steps = parts apiDir ++ page.pieces :=
    List.append_cancel_left ((Path.names_of_components stored).symm.trans
      (Path.names_of_components (components_join_location located straight)))
  have bare : (Path.mk (Address.bareDir apiDir)).pieces = (Path.mk ("/".intercalate (parts apiDir))).pieces := by
    rw [pieces_intercalate_parts directory]
    exact List.append_cancel_right (cut.symm.trans same)
  exact ⟨(bareDir_eq_iff directory).mp (Path.eq_of_pieces_eq bare), straight⟩

theorem leadsTo_of_plain (located : apiPath root apiDir = .ok api) (written : PlainlyWritten apiDir)
    (straight : page.Straight) :
    LeadsTo root (api.join page.location) (Address.ofPage apiDir page.moduleName page.basename) := by
  have directory := (apiPath_eq_ok located).1
  have slashFree : ∀ step ∈ parts apiDir ++ page.pieces, '/' ∉ step.toList := by
    intro step member
    rcases List.mem_append.mp member with member | member
    · exact (isPart_of_mem_parts member).slashFree
    · exact page.slashFree_of_mem_pieces member
  have same : (Path.mk (Address.ofPage apiDir page.moduleName page.basename)).pieces =
      (Path.mk ("/" ++ "/".intercalate (parts apiDir ++ page.pieces))).pieces := by
    rw [Address.pieces_ofPage, (bareDir_eq_iff directory).mpr written, pieces_intercalate_parts directory,
      Path.pieces_slash, Path.pieces_intercalate (by simp [directory]) slashFree]
    rfl
  exact ⟨parts apiDir ++ page.pieces,
    Path.componentsAfter?_eq_some_iff.mpr (components_join_location located straight), Path.eq_of_pieces_eq same⟩

/-- The address of a page is the way from the root to where the page is saved exactly when the
API directory is written plainly and no name of the page makes an idle step. -/
theorem address_leadsTo_iff (located : apiPath root apiDir = .ok api) (page : Page) :
    (∀ before path after, result (save api page) before = (.ok (some path), after) →
        path = api.join page.location) ∧
      (LeadsTo root (api.join page.location) (Address.ofPage apiDir page.moduleName page.basename) ↔
        PlainlyWritten apiDir ∧ page.Straight) :=
  ⟨fun _ _ _ => eq_join_of_save, plain_of_leadsTo located, fun ⟨written, straight⟩ => leadsTo_of_plain located written straight⟩

def engineOverview : Page := { moduleName := some "pkg.engine", basename := Page.homeName, text := "# Overview" }

/-- A directory that starts with a dot is lost in the addresses of its pages. -/
theorem hidden_directory_not_reached :
    apiPath ⟨"/project"⟩ "./docs/api/" = .ok ⟨"/project/docs/api"⟩ ∧
      LeadsTo ⟨"/project"⟩ (Path.join ⟨"/project/docs/api"⟩ engineOverview.location)
        (Address.ofPage "./docs/api/" engineOverview.moduleName engineOverview.basename) ∧
      apiPath ⟨"/project"⟩ ".docs" = .ok ⟨"/project/.docs"⟩ ∧
      ¬ LeadsTo ⟨"/project"⟩ (Path.join ⟨"/project/.docs"⟩ engineOverview.location)
        (Address.ofPage ".docs" engineOverview.moduleName engineOverview.basename) := by
  have located : apiPath ⟨"/project"⟩ "./docs/api/" = .ok ⟨"/project/docs/api"⟩ := by decide
  have hidden : apiPath ⟨"/project"⟩ ".docs" = .ok ⟨"/project/.docs"⟩ := by decide
  have written : PlainlyWritten "./docs/api/" := ⟨⟨['.', '/'], ['/'], by decide⟩, by decide, by decide⟩
  have full : engineOverview.FullyNamed := by
    intro name present
    cases present
    decide
  have straight : engineOverview.Straight := Page.Proper.straight (by decide) full
  refine ⟨located, (address_leadsTo_iff located engineOverview).2.mpr ⟨written, straight⟩, hidden, ?_⟩
  rw [(address_leadsTo_iff hidden engineOverview).2]
  exact fun reached => absurd reached.1.opening (by decide)

end Publication

end ApiReference
