import ApiReference.Proofs.FileTree.Success
import ApiReference.Proofs.Publication.Effect
import ApiReference.Proofs.Site.Pages

namespace ApiReference.Publication

open FileTree FileWork

/-! When publishing succeeds. The pages of a site never stand in each other's way, so that only the
limits and what was in the directory before can be in the way of them. -/

section Contents

variable {pages : List Page}

theorem proper_of_regular (regular : ∀ page ∈ pages, page.Regular) : ∀ page ∈ pages, page.Proper :=
  fun page member => (regular page member).toProper

theorem regular_emptyHome : (Page.mk none Page.homeName "").Regular where
  basename := by decide
  moduleName := by decide
  named := by decide
  dotted := by decide
  home _ := rfl

/-- Besides the directory of the modules and the marker there are only pages. -/
theorem mem_contents (regular : ∀ page ∈ pages, page.Regular) {item : View.Item} (member : item ∈ contents pages) :
    item = ([Page.modulesDir], .directory) ∨ item = ([markerName], .file markerText) ∨
      ∃ page : Page, page.Regular ∧ item = (page.location.names, .file page.text) := by
  simp only [contents, pageItems, List.mem_cons, List.mem_map, List.mem_filter] at member
  rcases member with modules | marker | home | ⟨page, ⟨listed, _⟩, rfl⟩
  · exact .inl modules
  · exact .inr (.inl marker)
  · have place : (Page.mk none Page.homeName "").location.names = [Page.homeName] := by decide +kernel
    refine .inr (.inr ⟨⟨none, Page.homeName, ""⟩, regular_emptyHome, ?_⟩)
    rw [home, place]
  · exact .inr (.inr ⟨page, regular page listed, rfl⟩)

theorem contents_coherent (regular : ∀ page ∈ pages, page.Regular) : View.Coherent (contents pages) := by
  have different : markerName ≠ Page.homeName ∧ markerName ≠ Page.modulesDir ∧ Page.homeName ≠ Page.modulesDir := by
    decide
  obtain ⟨markerHome, markerModules, homeModules⟩ := different
  intro one isOne other isOther isFile above
  rcases mem_contents regular isOne with rfl | rfl | ⟨page, pageRegular, rfl⟩
  · exact absurd rfl isFile
  · rcases mem_contents regular isOther with rfl | rfl | ⟨page, pageRegular, rfl⟩
    · simp [markerModules] at above
    · exact ⟨rfl, isFile⟩
    · rcases pageRegular.place with place | ⟨rest, place, _⟩ <;> simp [place, markerHome, markerModules] at above
  · rcases mem_contents regular isOther with rfl | rfl | ⟨page, otherRegular, rfl⟩
    · rcases pageRegular.place with place | ⟨rest, place, more⟩ <;> simp [place, homeModules] at above
      exact absurd above more
    · rcases pageRegular.place with place | ⟨rest, place, _⟩
      · simp [place, markerHome.symm] at above
      · simp [place, markerModules.symm] at above
    · simp only at above ⊢
      exact ⟨(pageRegular.location_eq_of_above otherRegular above).symm, by simp⟩

end Contents

/-- What publishing needs of the limits, whatever is in the tree. -/
structure Fits (limits : Limits) (directory : Path) (pages : List Page) : Prop where
  own : ∀ name ∈ ownNames, limits.Allows (directory.push name)
  pages : ∀ page ∈ pages, page.isBlank = false →
    limits.Allows (directory.join page.location) ∧ limits.admits (directory.join page.location).parent = true

variable {directory : Path} {tree after : FileTree} {pages : List Page}

theorem isPart_own {name : String} (own : name ∈ ownNames) : Path.IsPart name := by
  have each : ∀ name ∈ ownNames, '/' ∉ name.toList ∧ Path.isIdle name = false := by decide
  exact ⟨(each name own).1, (each name own).2⟩

theorem own_plain (plain : ".." ∉ directory.names) {name : String} (own : name ∈ ownNames) :
    ".." ∉ (directory.push name).names := by
  obtain ⟨relative, names, noStepUp⟩ := ownNames_plain name own
  rw [Path.names_push directory relative, names, List.mem_append, not_or]
  exact ⟨plain, noStepUp⟩

theorem join_names (directory : Path) {page : Page} (slashFree : page.SlashFree) :
    (directory.join page.location).names = directory.names ++ page.location.names := by
  rw [Path.join, Path.names_push directory (Page.location_relative slashFree)]

theorem join_plain (plain : ".." ∉ directory.names) {page : Page} (proper : page.Proper) :
    ".." ∉ (directory.join page.location).names := by
  rw [join_names directory proper.toSlashFree, List.mem_append, not_or]
  exact ⟨plain, Page.location_plain proper⟩

theorem grows_of_result {α : Type} {work : FileWork α} {outcome : Except Failure α}
    (grows : Keeps (GrowsFrom tree.here (fun _ => True) fun _ _ => True) work)
    (ran : result work tree = (outcome, after)) : Grows (fun _ => True) (fun _ _ => True) tree after := by
  have kept := grows tree rfl
  rwa [ran] at kept

theorem allows_of_save {page : Page} {saved : Option Path} (plain : ".." ∉ directory.names) (proper : page.Proper)
    (filled : page.isBlank = false) (ran : result (save directory page) tree = (.ok saved, after)) :
    tree.limits.Allows (directory.join page.location) ∧
      tree.limits.admits (directory.join page.location).parent = true := by
  unfold save at ran
  rw [if_neg (by simp [filled])] at ran
  obtain ⟨_, made, parent, ran⟩ := bind_eq_ok ran
  obtain ⟨_, _, wrote, _⟩ := bind_eq_ok ran
  have limits := (grows_of_result (createParent_grows fun _ _ => trivial) parent).limits
  obtain ⟨_, _, checked, _⟩ := bind_eq_ok parent
  have allowed := write_allows (join_plain plain proper) wrote
  rw [limits] at allowed
  exact ⟨allowed, admits_of_checkPath checked⟩

theorem allows_of_mapM_save {saved : List (Option Path)} (plain : ".." ∉ directory.names)
    (proper : ∀ page ∈ pages, page.Proper) (ran : result (pages.mapM (save directory)) tree = (.ok saved, after)) :
    ∀ page ∈ pages, page.isBlank = false →
      tree.limits.Allows (directory.join page.location) ∧
        tree.limits.admits (directory.join page.location).parent = true := by
  induction pages generalizing tree saved after with
  | nil => exact List.forall_mem_nil _
  | cons first rest ih =>
      rw [List.mapM_cons] at ran
      obtain ⟨_, between, savedFirst, ran⟩ := bind_eq_ok ran
      obtain ⟨_, _, savedRest, _⟩ := bind_eq_ok ran
      have firstProper := proper first List.mem_cons_self
      have grows := grows_of_result (save_grows firstProper.toSlashFree (fun _ _ _ => trivial) fun _ => trivial) savedFirst
      intro page member filled
      rcases List.mem_cons.mp member with rfl | member
      · exact allows_of_save plain firstProper filled savedFirst
      · rw [← grows.limits]
        exact ih (fun page member => proper page (List.mem_cons_of_mem _ member)) savedRest page member filled

theorem fits_of_furnish {files : List Path} (plain : ".." ∉ directory.names) (proper : ∀ page ∈ pages, page.Proper)
    (ran : result (furnish directory pages) tree = (.ok files, after)) : Fits tree.limits directory pages := by
  unfold furnish at ran
  obtain ⟨_, first, madeModules, ran⟩ := bind_eq_ok ran
  obtain ⟨_, second, wroteMarker, ran⟩ := bind_eq_ok ran
  obtain ⟨_, third, wroteHome, ran⟩ := bind_eq_ok ran
  obtain ⟨saved, _, savedPages, _⟩ := bind_eq_ok ran
  have modules := createDirectories_allows (own_plain plain (by decide)) madeModules
  have marker := write_allows (own_plain plain (by decide)) wroteMarker
  have home := write_allows (own_plain plain (by decide)) wroteHome
  have pagesAllowed := allows_of_mapM_save plain proper savedPages
  have growsFirst := grows_of_result (createDirectories_grows fun _ _ => trivial) madeModules
  have growsSecond := grows_of_result (write_grows fun _ => trivial) wroteMarker
  have growsThird := grows_of_result (write_grows fun _ => trivial) wroteHome
  rw [growsThird.limits, growsSecond.limits, growsFirst.limits] at pagesAllowed
  rw [growsSecond.limits, growsFirst.limits] at home
  rw [growsFirst.limits] at marker
  refine ⟨?_, pagesAllowed⟩
  intro name own
  simp only [ownNames, List.mem_cons, List.not_mem_nil, or_false] at own
  rcases own with rfl | rfl | rfl
  · exact marker
  · exact home
  · exact modules

/-- A directory that stands and in which each of the items can be laid. -/
structure Open (base : Node.Location) (items : List View.Item) (tree : FileTree) : Prop where
  standing : tree.view base = some .directory
  admits : ∀ item ∈ items, (tree.view.below base).Admits item

/-- A directory stays open when one of the items is laid there. -/
theorem open_of_laid {base : Node.Location} {items : List View.Item} {item : View.Item} (coherent : View.Coherent items)
    (admits : ∀ item ∈ items, (tree.view.below base).Admits item) (laid : Laid base [item] tree after)
    (member : item ∈ items) (deep : item.1 ≠ []) : Open base items after := by
  constructor
  · have below := congrFun laid.below_eq []
    rw [View.below, List.append_nil] at below
    rw [below]
    exact View.lay_above _ _ List.nil_prefix (Ne.symm deep)
  · intro other otherMember
    rw [laid.below_eq]
    exact (admits other otherMember).lay (coherent item member other otherMember) (coherent other otherMember item member)

/-- Nothing is in the way to a directory that is there. -/
theorem admits_of_standing {place : Node.Location} (standing : tree.view place = some .directory) :
    tree.view.Admits (place, .directory) := by
  intro location shape above held
  have isDirectory : tree.view location = some .directory := Node.view_of_prefix above standing
  rw [isDirectory] at held
  cases held
  exact ⟨fun _ _ => rfl, fun _ => rfl⟩

theorem origin_standing (plain : ".." ∉ directory.names) {part : String} (relative : Text.startsWith "/" part = false)
    (standing : tree.view (directory.destination tree.here) = some .directory) :
    tree.view ((directory.push part).origin tree.here) = some .directory := by
  rw [Path.destination_of_plain plain] at standing
  rw [Path.origin, Path.isAbsolute_push directory relative]
  exact Node.view_of_prefix (List.prefix_append _ _) standing

theorem asksDirectory_join (directory : Path) {page : Page} (proper : page.Proper) :
    (directory.join page.location).asksDirectory = false := by
  obtain ⟨front, pushed⟩ := Path.exists_pieces_push directory (Page.location_relative proper.toSlashFree)
  obtain ⟨middle, located⟩ := Path.exists_pieces_push page.directory (Path.relative_of_slashFree proper.basename)
  have pieces : (directory.join page.location).pieces = (front ++ middle) ++ [page.basename] := by
    rw [Path.join, pushed, List.append_assoc]
    change front ++ (page.directory.push page.basename).pieces = _
    rw [located, Path.pieces, Text.splitOn_of_not_mem proper.basename]
  have named := proper.named
  simp only [List.mem_cons, not_or] at named
  rw [Path.asksDirectory_of_pieces pieces]
  simp [Path.isIdle, named.1, named.2.1]

theorem save_exists {page : Page} (plain : ".." ∉ directory.names) (proper : page.Proper) (filled : page.isBlank = false)
    (allowed : tree.limits.Allows (directory.join page.location))
    (parent : tree.limits.admits (directory.join page.location).parent = true)
    (standing : tree.view (directory.destination tree.here) = some .directory)
    (admits : (tree.view.below (directory.destination tree.here)).Admits (page.location.names, .file page.text)) :
    ∃ after, result (save directory page) tree = (.ok (some (directory.join page.location)), after) := by
  have relative := Page.location_relative proper.toSlashFree
  have deep : page.location.names ≠ [] := by simp [Page.location_names_of_proper proper]
  have steps : (directory.join page.location).names ≠ [] := by
    simp [join_names directory proper.toSlashFree, deep]
  have base : tree.view ((directory.join page.location).origin tree.here) = some .directory := by
    rw [Path.join]
    exact origin_standing plain relative standing
  have leads : (directory.join page.location).destination tree.here =
      directory.destination tree.here ++ page.location.names := by
    rw [Path.join, Path.destination_push tree.here directory relative (Page.location_plain proper)]
  have reachable := (admits_of_standing standing).append admits
  rw [← leads] at reachable
  obtain ⟨made, after, parentMade, wrote⟩ := createParent_write_exists (join_plain plain proper) steps
    (asksDirectory_join directory proper) parent allowed base reachable
  refine ⟨after, ?_⟩
  unfold save
  rw [if_neg (by simp [filled]), result_bind_of_ok parentMade, result_bind_of_ok wrote]
  rfl

theorem own_names_ne_nil (directory : Path) {name : String} (own : name ∈ ownNames) : (directory.push name).names ≠ [] := by
  rw [Path.names_push directory (isPart_own own).relative, (isPart_own own).names]
  simp

theorem write_own_exists {name text : String} (plain : ".." ∉ directory.names) (own : name ∈ ownNames)
    (allowed : tree.limits.Allows (directory.push name))
    (standing : tree.view (directory.destination tree.here) = some .directory)
    (admits : (tree.view.below (directory.destination tree.here)).Admits ([name], .file text)) :
    ∃ after, result (write (directory.push name) text) tree = (.ok (), after) := by
  have leads := destination_push_own tree.here directory own
  apply write_exists text (own_plain plain own) (own_names_ne_nil directory own)
    (Path.asksDirectory_push directory (isPart_own own)) allowed
  · rw [leads, List.dropLast_concat]
    exact standing
  · rw [leads]
    exact admits.not_directory

theorem save_of_blank {page : Page} (blank : page.isBlank = true) :
    result (save directory page) tree = (.ok none, tree) := by
  unfold save
  rw [if_pos blank]
  rfl

theorem mapM_save_exists {items : List View.Item} (coherent : View.Coherent items) (plain : ".." ∉ directory.names)
    (proper : ∀ page ∈ pages, page.Proper)
    (listed : ∀ page ∈ pages, page.isBlank = false → (page.location.names, .file page.text) ∈ items)
    (allowed : ∀ page ∈ pages, page.isBlank = false → tree.limits.Allows (directory.join page.location) ∧
      tree.limits.admits (directory.join page.location).parent = true)
    (isOpen : Open (directory.destination tree.here) items tree) :
    ∃ saved after, result (pages.mapM (save directory)) tree = (.ok saved, after) := by
  induction pages generalizing tree with
  | nil => exact ⟨[], tree, rfl⟩
  | cons page rest ih =>
      have restProper := fun other member => proper other (List.mem_cons_of_mem page member)
      have restListed := fun other member => listed other (List.mem_cons_of_mem page member)
      have restAllowed := fun other member => allowed other (List.mem_cons_of_mem page member)
      rw [List.mapM_cons]
      cases blank : page.isBlank with
      | true =>
          obtain ⟨saved, after, savedRest⟩ := ih restProper restListed restAllowed isOpen
          refine ⟨none :: saved, after, ?_⟩
          rw [result_bind_of_ok (save_of_blank blank), result_bind_of_ok savedRest]
          rfl
      | false =>
          have pageProper := proper page List.mem_cons_self
          have pageListed := listed page List.mem_cons_self blank
          obtain ⟨pageAllowed, parent⟩ := allowed page List.mem_cons_self blank
          obtain ⟨between, savedFirst⟩ := save_exists plain pageProper blank pageAllowed parent isOpen.standing
            (isOpen.admits _ pageListed)
          have effect := save_eq_ok plain pageProper savedFirst
          rw [if_neg (by simp [blank])] at effect
          obtain ⟨_, laid⟩ := effect
          have deep : page.location.names ≠ [] := by simp [Page.location_names_of_proper pageProper]
          have stillOpen := open_of_laid coherent isOpen.admits laid pageListed deep
          rw [← laid.here] at stillOpen
          rw [← laid.limits] at restAllowed
          obtain ⟨saved, after, savedRest⟩ := ih restProper restListed restAllowed stillOpen
          refine ⟨some (directory.join page.location) :: saved, after, ?_⟩
          rw [result_bind_of_ok savedFirst, result_bind_of_ok savedRest]
          rfl

/-- Furnishing succeeds where nothing stands in the way of what it lays. -/
theorem furnish_exists (plain : ".." ∉ directory.names) (regular : ∀ page ∈ pages, page.Regular)
    (fits : Fits tree.limits directory pages) (base : tree.view (directory.origin tree.here) = some .directory)
    (way : tree.view.Admits (directory.destination tree.here, .directory))
    (admits : ∀ item ∈ contents pages, (tree.view.below (directory.destination tree.here)).Admits item) :
    ∃ files after, result (furnish directory pages) tree = (.ok files, after) := by
  have coherent := contents_coherent regular
  have modules : ([Page.modulesDir], Shape.directory) ∈ contents pages := by simp [contents]
  have marker : ([markerName], Shape.file markerText) ∈ contents pages := by simp [contents]
  have home : ([Page.homeName], Shape.file "") ∈ contents pages := by simp [contents]
  have ownModules : Page.modulesDir ∈ ownNames := by decide
  have ownMarker : markerName ∈ ownNames := by decide
  have ownHome : Page.homeName ∈ ownNames := by decide
  have modulesWay := way.append (admits _ modules)
  rw [← destination_push_own tree.here directory ownModules] at modulesWay
  have modulesBase : tree.view ((directory.push Page.modulesDir).origin tree.here) = some .directory := by
    rw [Path.origin, Path.isAbsolute_push directory (isPart_own ownModules).relative]
    exact base
  obtain ⟨first, madeModules⟩ := createDirectories_exists (own_plain plain ownModules)
    (endsInCurrent_push directory (isPart_own ownModules)) (fits.own _ ownModules) modulesBase modulesWay
  have laidModules := createDirectories_laid (own_plain plain ownModules) (own_names_ne_nil directory ownModules)
    (destination_push_own tree.here directory ownModules) madeModules
  have openFirst := open_of_laid coherent admits laidModules modules (List.cons_ne_nil _ _)
  rw [← laidModules.here] at openFirst
  rw [← laidModules.limits] at fits
  obtain ⟨second, wroteMarker⟩ := write_own_exists plain ownMarker (fits.own _ ownMarker) openFirst.standing
    (openFirst.admits _ marker)
  have laidMarker := write_laid (destination_push_own first.here directory ownMarker) wroteMarker
  have openSecond := open_of_laid coherent openFirst.admits laidMarker marker (List.cons_ne_nil _ _)
  rw [← laidMarker.here] at openSecond
  rw [← laidMarker.limits] at fits
  obtain ⟨third, wroteHome⟩ := write_own_exists plain ownHome (fits.own _ ownHome) openSecond.standing
    (openSecond.admits _ home)
  have laidHome := write_laid (destination_push_own second.here directory ownHome) wroteHome
  have openThird := open_of_laid coherent openSecond.admits laidHome home (List.cons_ne_nil _ _)
  rw [← laidHome.here] at openThird
  rw [← laidHome.limits] at fits
  obtain ⟨saved, after, savedPages⟩ := mapM_save_exists coherent plain (proper_of_regular regular)
    (fun _ => mem_contents_of_mem) fits.pages openThird
  refine ⟨saved.filterMap id, after, ?_⟩
  unfold furnish
  rw [result_bind_of_ok madeModules, result_bind_of_ok wroteMarker, result_bind_of_ok wroteHome,
    result_bind_of_ok savedPages]
  rfl

end ApiReference.Publication
