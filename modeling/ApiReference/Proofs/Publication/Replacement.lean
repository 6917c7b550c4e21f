import ApiReference.Proofs.FileTree.WellFormed
import ApiReference.Proofs.Publication.Success
import ApiReference.Proofs.Publication.Survival

namespace ApiReference

/-! A site that is published takes the place of the one before. What publishing leaves is taken for
generated by the next publication, which clears it and starts from nothing. -/

namespace FileTree

variable {tree : FileTree} {path : Path} {location : Node.Location}

theorem isFile_of_locate? (found : tree.locate? path = some location) (isName : path.asksDirectory = false) {text : String}
    (held : tree.view location = some (.file text)) : tree.isFile path = true := by
  unfold isFile
  rw [node?_of_locate? found (Node.view_eq_file_iff.mp held) (by simp [isName])]

end FileTree

namespace Limits

theorem admits_of_append {limits : Limits} {text more : String} (admits : limits.admits ⟨text ++ more⟩ = true) :
    limits.admits ⟨text⟩ = true := by
  simp only [Limits.admits, Bool.and_eq_true] at admits ⊢
  obtain ⟨size, characters⟩ := admits
  constructor
  · cases most : limits.path with
    | none => rfl
    | some most =>
        simp only [most, within, String.utf8ByteSize_append, decide_eq_true_eq] at size ⊢
        omega
  · simp only [admitsText, String.toList_append, Bool.not_eq_true', Bool.and_eq_false_imp] at characters ⊢
    intro refuses
    have absent := characters refuses
    simp only [List.contains_eq_mem, List.mem_append, decide_eq_false_iff_not, not_or] at absent ⊢
    exact absent.1

/-- A path that may be extended may be used itself. -/
theorem admits_of_push {limits : Limits} {path : Path} {part : String} (relative : Text.startsWith "/" part = false)
    (admits : limits.admits (path.push part) = true) : limits.admits path = true := by
  rw [Path.push_of_relative relative] at admits
  split at admits
  · exact admits_of_append admits
  · rw [String.append_assoc] at admits
    exact admits_of_append admits

end Limits

theorem Node.view_erase_self {root : Node} {location : Location} {entries : Entries}
    (held : root.get? location = some (.directory entries)) {text : String} :
    (root.erase location).view location ≠ some (.file text) := by
  rcases List.eq_nil_or_concat location with rfl | ⟨front, name, rfl⟩
  · exact fun impossible => by cases impossible
  · rw [List.concat_eq_append] at held ⊢
    have inside : root.view front = some .directory :=
      view_of_append (List.cons_ne_nil name []) (view_eq_directory_iff.mpr ⟨entries, held⟩)
    have changed := get?_alter (fun _ => none) name inside []
    rw [alter_eq_some_erase root (by simp), Option.bind_some, Option.bind_none] at changed
    rw [view, changed]
    simp

namespace Publication

open FileTree FileWork

variable {directory : Path} {tree after : FileTree} {pages : List Page}

/-- A generated directory is emptied and, unless it holds its own path, taken away. -/
theorem clear_eq_of_generated (generated : isGenerated tree directory = true) (isName : endsInCurrent directory = false) :
    ∃ root, result (clear directory) tree = (.ok true, { tree with root }) ∧
      (root = tree.root.put (directory.destination tree.here) (.directory []) ∨
        root = (tree.root.put (directory.destination tree.here) (.directory [])).erase (directory.destination tree.here)) := by
  obtain ⟨entries, held, _⟩ := node?_of_isGenerated generated
  obtain ⟨location, found, present⟩ := exists_locate?_of_node? held
  have removed : ∃ root, result (remove directory) tree = (.ok (), { tree with root }) ∧
      (root = tree.root.put location (.directory []) ∨ root = (tree.root.put location (.directory [])).erase location) := by
    unfold remove
    rw [result_get_bind, result_require_bind, found]
    simp only
    rw [result_require_bind, held]
    simp only
    unfold removeDirectory
    rw [result_get_bind, result_bind_of_ok (result_setRoot _ _), isName]
    simp only [Bool.false_eq_true, if_false]
    rw [result_get_bind]
    split
    · exact ⟨_, rfl, .inr rfl⟩
    · exact ⟨_, rfl, .inl rfl⟩
  obtain ⟨root, removed, shape⟩ := removed
  rw [locate?_eq_destination found] at shape
  refine ⟨root, ?_, shape⟩
  unfold clear
  rw [result_get_bind, if_pos generated, result_bind_of_ok removed]
  rfl

theorem furnish_keepsOrder (directory : Path) (pages : List Page) : Keeps KeepsOrder (furnish directory pages) := by
  apply Keeps.bind lasting_keepsOrder (createDirectories_keepsOrder _)
  intro _
  apply Keeps.bind lasting_keepsOrder (write_keepsOrder _ _)
  intro _
  apply Keeps.bind lasting_keepsOrder (write_keepsOrder _ _)
  intro _
  apply Keeps.bind lasting_keepsOrder
  · apply Keeps.mapM lasting_keepsOrder
    intro page _
    unfold save
    split
    · exact Keeps.pure lasting_keepsOrder _
    · apply Keeps.bind lasting_keepsOrder (createParent_keepsOrder _)
      intro _
      apply Keeps.bind lasting_keepsOrder (write_keepsOrder _ _)
      intro _
      exact Keeps.pure lasting_keepsOrder _
  · intro _
    exact Keeps.pure lasting_keepsOrder _

theorem clear_keepsOrder (isName : endsInCurrent directory = false) : Keeps KeepsOrder (clear directory) := by
  intro tree ordered
  cases generated : isGenerated tree directory with
  | false =>
      rw [clear_of_foreign generated]
      exact ordered
  | true =>
      have emptyOrdered : (Node.directory []).Ordered := .directory .nil (List.forall_mem_nil _)
      obtain ⟨root, ran, form⟩ := clear_eq_of_generated generated isName
      rw [ran]
      rcases form with rfl | rfl
      · exact ordered.put _ emptyOrdered
      · exact (ordered.put _ emptyOrdered).erase _

theorem publish_keepsOrder (isName : endsInCurrent directory = false) (pages : List Page) :
    Keeps KeepsOrder (publish directory pages) := by
  rw [publish_eq]
  exact Keeps.bind lasting_keepsOrder (clear_keepsOrder isName) fun _ => furnish_keepsOrder directory pages

theorem ordered_of_publish {files : List Path} (isName : endsInCurrent directory = false) (ordered : tree.root.Ordered)
    (ran : result (publish directory pages) tree = (.ok files, after)) : after.root.Ordered := by
  have kept := publish_keepsOrder isName pages tree ordered
  rwa [ran] at kept

/-- Nothing is below the place of the reference, and no file is there or on the way. -/
structure Bare (directory : Path) (tree : FileTree) : Prop where
  base : tree.view (directory.origin tree.here) = some .directory
  way : tree.view.Admits (directory.destination tree.here, .directory)
  inside : ∀ rest, rest ≠ [] → tree.view (directory.destination tree.here ++ rest) = none

theorem bare_of_absent (base : tree.view (directory.origin tree.here) = some .directory)
    (absent : tree.view (directory.destination tree.here) = none)
    (noFile : ∀ place, place <+: directory.destination tree.here → ∀ text, tree.view place ≠ some (.file text)) :
    Bare directory tree := by
  refine ⟨base, ?_, ?_⟩
  · intro location shape above held
    cases shape with
    | directory => exact ⟨fun _ _ => rfl, fun _ => rfl⟩
    | file text => exact absurd held (noFile location above text)
  · intro rest _
    exact Node.view_append_of_absent absent rest

/-- Clearing a generated directory leaves nothing in the way. -/
theorem exists_bare_of_generated (plain : ".." ∉ directory.names) (steps : directory.names ≠ [])
    (isName : endsInCurrent directory = false) (generated : isGenerated tree directory = true) :
    ∃ cleared, result (clear directory) tree = (.ok true, cleared) ∧ Cleared (directory.destination tree.here) tree cleared ∧
      Bare directory cleared := by
  have effect := clear_of_generated generated
  obtain ⟨root, ran, form⟩ := clear_eq_of_generated generated isName
  rw [ran] at effect
  obtain ⟨entries, held, _⟩ := node?_of_isGenerated generated
  obtain ⟨location, found, present⟩ := exists_locate?_of_node? held
  rw [locate?_eq_destination found] at present
  have standing : tree.view (directory.destination tree.here) = some .directory :=
    Node.view_eq_directory_iff.mpr ⟨entries, present⟩
  have emptied : (tree.root.put (directory.destination tree.here) (.directory [])).view (directory.destination tree.here) =
      some .directory := by
    simpa [Node.shape] using Node.view_put_below present (.directory []) []
  -- above the directory all is as it was
  have above : ∀ place, place <+: directory.destination tree.here → place ≠ directory.destination tree.here →
      root.view place = some .directory := by
    intro place upTo other
    have outside : ¬ directory.destination tree.here <+: place := fun down => other (upTo.eq_of_length_le down.length_le)
    exact (effect.outside place outside).trans (Node.view_of_prefix upTo standing)
  refine ⟨_, ran, effect, ⟨?_, ?_, ?_⟩⟩
  · have leads := Path.destination_of_plain plain tree.here
    apply above
    · rw [leads]
      exact List.prefix_append _ _
    · rw [leads]
      simpa using steps
  · intro place shape upTo there
    have isDirectory : shape = .directory := by
      by_cases same : place = directory.destination tree.here
      · subst same
        cases shape with
        | directory => rfl
        | file text =>
            rcases form with rfl | rfl
            · cases there.symm.trans emptied
            · obtain ⟨_, still⟩ := Node.view_eq_directory_iff.mp emptied
              exact absurd there (Node.view_erase_self still)
      · cases there.symm.trans (above place upTo same)
        rfl
    exact ⟨fun _ _ => rfl, fun _ => isDirectory⟩
  · exact effect.inside

theorem contents_head {item : View.Item} (regular : ∀ page ∈ pages, page.Regular) (member : item ∈ contents pages) :
    ∃ name ∈ ownNames, [name] <+: item.1 := by
  rcases mem_contents regular member with rfl | rfl | ⟨page, pageRegular, rfl⟩
  · exact ⟨Page.modulesDir, by decide, List.prefix_rfl⟩
  · exact ⟨markerName, by decide, List.prefix_rfl⟩
  · rcases pageRegular.place with place | ⟨rest, place, _⟩
    · exact ⟨Page.homeName, by decide, by simp [place]⟩
    · exact ⟨Page.modulesDir, by decide, by simp [place]⟩

theorem overlay_contents_nil (regular : ∀ page ∈ pages, page.Regular) (view : View) :
    view.overlay (contents pages) [] = some .directory :=
  have member : ([Page.modulesDir], Shape.directory) ∈ contents pages := by simp [contents]
  (contents_coherent regular).overlay_above member List.nil_prefix (List.cons_ne_nil _ _).symm

theorem overlay_contents_modules (regular : ∀ page ∈ pages, page.Regular) (view : View) :
    view.overlay (contents pages) [Page.modulesDir] = some .directory := by
  have member : ([Page.modulesDir], Shape.directory) ∈ contents pages := by simp [contents]
  obtain ⟨shape, held, kind⟩ := (contents_coherent regular).overlay_self member
  rw [held, kind.mpr rfl]

theorem overlay_contents_file (regular : ∀ page ∈ pages, page.Regular) (view : View) {place : Node.Location} {text : String}
    (member : (place, Shape.file text) ∈ contents pages) :
    ∃ text, view.overlay (contents pages) place = some (.file text) := by
  obtain ⟨shape, held, kind⟩ := (contents_coherent regular).overlay_self member
  cases shape with
  | directory => cases kind.mp rfl
  | file text => exact ⟨text, held⟩

/-- What is laid into an empty directory has the three names at its top. -/
theorem overlay_contents_top (regular : ∀ page ∈ pages, page.Regular) {name : String} :
    View.empty.overlay (contents pages) [name] ≠ none ↔ name ∈ ownNames := by
  constructor
  · intro present
    rcases View.overlay_cases (contents pages) [name] with ⟨_, same⟩ | ⟨item, member, hit, _⟩
    · exact absurd ((same View.empty).trans rfl) present
    · obtain ⟨own, isOwn, head⟩ := contents_head regular member
      have same := (List.prefix_of_prefix_length_le hit head (Nat.le_refl 1)).eq_of_length rfl
      cases same
      exact isOwn
  · intro own
    simp only [ownNames, List.mem_cons, List.not_mem_nil, or_false] at own
    rcases own with rfl | rfl | rfl
    · obtain ⟨_, held⟩ := overlay_contents_file regular View.empty (show ([markerName], Shape.file markerText) ∈ _ by simp [contents])
      simp [held]
    · obtain ⟨_, held⟩ := overlay_contents_file regular View.empty (show ([Page.homeName], Shape.file "") ∈ _ by simp [contents])
      simp [held]
    · simp [overlay_contents_modules regular View.empty]

/-- What publishing lays into an empty directory is taken for generated. -/
theorem isGenerated_of_below (plain : ".." ∉ directory.names) (steps : directory.names ≠ [])
    (regular : ∀ page ∈ pages, page.Regular) (allowed : ∀ name ∈ ownNames, tree.limits.Allows (directory.push name))
    (ordered : tree.root.Ordered)
    (below : tree.view.below (directory.destination tree.here) = View.empty.overlay (contents pages)) :
    isGenerated tree directory = true := by
  have standing : tree.view (directory.destination tree.here) = some .directory := by
    have top := congrFun below []
    rwa [View.below, List.append_nil, overlay_contents_nil regular] at top
  have inside : ∀ name, tree.view (directory.destination tree.here ++ [name]) = View.empty.overlay (contents pages) [name] :=
    fun name => congrFun below [name]
  obtain ⟨entries, held⟩ := Node.view_eq_directory_iff.mp standing
  -- the names in the directory are the three of a publication, each of them once
  have ascend : Node.NamesAscend entries := (Node.Everywhere.directory_iff.mp (ordered.get? held)).1
  have three : entries.length = 3 := by
    have names : (entries.map Prod.fst).Perm ownNames := by
      refine (List.perm_ext_iff_of_nodup ascend.nodup (by decide)).mpr fun name => ?_
      rw [← overlay_contents_top regular, ← inside name]
      exact ⟨Node.view_of_mem_keys held, Node.mem_keys_of_view held⟩
    simpa [ownNames] using names.length_eq
  have found : ∀ name ∈ ownNames,
      tree.locate? (directory.push name) = some (directory.destination tree.here ++ [name]) := by
    intro name own
    rw [← destination_push_own tree.here directory own]
    apply locate?_of_plain (own_plain plain own) (own_names_ne_nil directory own) (allowed name own)
    rw [destination_push_own tree.here directory own, List.dropLast_concat]
    exact standing
  have ownModules : Page.modulesDir ∈ ownNames := by decide
  have ownMarker : markerName ∈ ownNames := by decide
  have ownHome : Page.homeName ∈ ownNames := by decide
  have selfAllowed : tree.limits.Allows directory := by
    have modulesAllowed := allowed _ ownModules
    refine ⟨Limits.admits_of_push (isPart_own ownModules).relative modulesAllowed.text, ?_⟩
    intro name member
    apply modulesAllowed.names
    rw [Path.names_push directory (isPart_own ownModules).relative]
    exact List.mem_append_left _ member
  have foundSelf := locate?_of_plain plain steps selfAllowed (view_dropLast standing)
  have marker : tree.isFile (directory.push markerName) = true := by
    obtain ⟨_, written⟩ := overlay_contents_file regular View.empty (show ([markerName], Shape.file markerText) ∈ _ by simp [contents])
    exact isFile_of_locate? (found _ ownMarker) (Path.asksDirectory_push directory (isPart_own ownMarker))
      ((inside _).trans written)
  have home : tree.isFile (directory.push Page.homeName) = true := by
    obtain ⟨_, written⟩ := overlay_contents_file regular View.empty (show ([Page.homeName], Shape.file "") ∈ _ by simp [contents])
    exact isFile_of_locate? (found _ ownHome) (Path.asksDirectory_push directory (isPart_own ownHome))
      ((inside _).trans written)
  have modules : tree.isDirectory (directory.push Page.modulesDir) = true :=
    (isDirectory_iff_of_locate? (found _ ownModules)).mpr
      ((inside _).trans (overlay_contents_modules regular View.empty))
  unfold isGenerated
  rw [node?_of_locate? foundSelf held fun _ => rfl]
  simp [three, marker, home, modules]

theorem Bare.admits (bare : Bare directory tree) (regular : ∀ page ∈ pages, page.Regular) :
    ∀ item ∈ contents pages, (tree.view.below (directory.destination tree.here)).Admits item := by
  intro item member location shape above held
  by_cases top : location = []
  · subst top
    rw [View.below, List.append_nil] at held
    have isDirectory : shape = .directory := (bare.way _ shape List.prefix_rfl held).mpr fun _ => rfl
    obtain ⟨name, _, head⟩ := contents_head regular member
    refine ⟨fun _ same => ?_, fun _ => isDirectory⟩
    rw [← same] at head
    simp at head
  · rw [View.below, bare.inside location top] at held
    cases held

theorem exists_bare (plain : ".." ∉ directory.names) (steps : directory.names ≠ []) (isName : endsInCurrent directory = false)
    (ready : isGenerated tree directory = true ∨ Bare directory tree) :
    ∃ flag cleared, result (clear directory) tree = (.ok flag, cleared) ∧
      Cleared (directory.destination tree.here) tree cleared ∧ Bare directory cleared := by
  cases generated : isGenerated tree directory with
  | true => exact ⟨true, exists_bare_of_generated plain steps isName generated⟩
  | false =>
      have bare := ready.resolve_left (by simp [generated])
      exact ⟨false, tree, clear_of_foreign generated, ⟨rfl, rfl, rfl, fun _ _ => rfl, bare.inside⟩, bare⟩

/-- Publishing over nothing, or over what was generated, succeeds and leaves what it lays. -/
theorem publish_exists (plain : ".." ∉ directory.names) (steps : directory.names ≠ [])
    (isName : endsInCurrent directory = false) (regular : ∀ page ∈ pages, page.Regular)
    (ready : isGenerated tree directory = true ∨ Bare directory tree) (ordered : tree.root.Ordered)
    (fits : Fits tree.limits directory pages) :
    ∃ cleared after, Cleared (directory.destination tree.here) tree cleared ∧
      result (publish directory pages) tree =
        (.ok ((pages.filter (!·.isBlank)).map fun page => directory.join page.location), after) ∧
      Laid (directory.destination tree.here) (contents pages) cleared after ∧
      after.view.below (directory.destination tree.here) = View.empty.overlay (contents pages) ∧
      after.root.Ordered ∧ isGenerated after directory = true := by
  obtain ⟨flag, cleared, clearing, effect, bare⟩ := exists_bare plain steps isName ready
  rw [← effect.limits] at fits
  obtain ⟨files, after, furnished⟩ := furnish_exists plain regular fits bare.base bare.way (bare.admits regular)
  obtain ⟨paths, laid⟩ := furnish_eq_ok plain (proper_of_regular regular) furnished
  have published : result (publish directory pages) tree = (.ok files, after) := by
    rw [publish_eq, result_bind_of_ok clearing, furnished]
  have afterOrdered := ordered_of_publish isName ordered published
  have below := laid.below_eq
  rw [effect.here, effect.overlay_contents] at below
  have generated : isGenerated after directory = true := by
    apply isGenerated_of_below plain steps regular _ afterOrdered
    · rw [laid.here, effect.here, below]
    · rw [laid.limits]
      exact fits.own
  rw [effect.here] at laid
  rw [paths] at published
  exact ⟨cleared, after, effect, published, laid, below, afterOrdered, generated⟩

/-- Pages with places of their own all show. -/
theorem overlay_contents_page (regular : ∀ page ∈ pages, page.Regular) (filled : ∀ page ∈ pages, page.isBlank = false)
    (distinct : (pages.map (·.location.names)).Nodup) {page : Page} (member : page ∈ pages) (view : View) :
    view.overlay (contents pages) page.location.names = some (.file page.text) := by
  obtain ⟨front, back, rfl⟩ := List.append_of_mem member
  have kept : (front ++ page :: back).filter (!·.isBlank) = front ++ page :: back :=
    List.filter_eq_self.mpr fun other listed => by simp [filled other listed]
  have apart : ∀ later ∈ back.map fun page => (page.location.names, Shape.file page.text),
      ¬ page.location.names <+: later.1 := by
    intro later listed above
    obtain ⟨other, isLater, rfl⟩ := List.mem_map.mp listed
    simp only at above
    have same := (regular page member).location_eq_of_above (regular other (by simp [isLater])) above
    rw [List.map_append, List.map_cons] at distinct
    have fresh := (List.nodup_cons.mp (List.nodup_append.mp distinct).2.1).1
    exact fresh (List.mem_map.mpr ⟨other, isLater, same.symm⟩)
  have split : contents (front ++ page :: back) =
      (contents front).take 3 ++ front.map (fun page => (page.location.names, Shape.file page.text)) ++
        (page.location.names, .file page.text) :: back.map fun page => (page.location.names, Shape.file page.text) := by
    simp [contents, pageItems, kept]
  rw [split, View.overlay_last apart]

/-- The path of a reference ends in a name or a step up. -/
theorem steps_of_apiPath {root : Path} {apiDir : String} (located : Project.apiPath root apiDir = .ok directory) :
    directory.names ≠ [] ∧ endsInCurrent directory = false := by
  obtain ⟨nonempty, resolved⟩ := Project.apiPath_eq_ok located
  obtain ⟨front, last, split, isPart⟩ := Project.exists_last_part nonempty
  rw [resolved]
  refine ⟨by simp [Project.names_resolve, nonempty], ?_⟩
  rw [Project.resolve, split, Path.pushAll_append]
  exact endsInCurrent_push _ isPart

theorem fits_of_unlimited (unlimited : tree.limits = .unlimited) (directory : Path) (pages : List Page) :
    Fits tree.limits directory pages := by
  rw [unlimited]
  exact ⟨fun _ _ => Limits.unlimited_allows _, fun _ _ _ => ⟨Limits.unlimited_allows _, rfl⟩⟩

/-- A site is published over nothing, or over what was generated. -/
theorem publish_site_exists {root : Path} {apiDir : String} {context : SiteContext} {models : List ModuleModel}
    (located : Project.apiPath root apiDir = .ok directory) (plain : ".." ∉ directory.names)
    (unlimited : tree.limits = .unlimited) (ordered : tree.root.Ordered)
    (ready : isGenerated tree directory = true ∨ Bare directory tree) (slashFree : SiteContext.SlashFree models)
    (rendered : context.pages models = .ok pages) :
    ∃ after, result (publish directory pages) tree = (.ok (pages.map fun page => directory.join page.location), after) ∧
      after.view.below (directory.destination tree.here) = View.empty.overlay (contents pages) ∧
      after.here = tree.here ∧ after.limits = .unlimited ∧ after.root.Ordered ∧ isGenerated after directory = true := by
  obtain ⟨steps, isName⟩ := steps_of_apiPath located
  have regular : ∀ page ∈ pages, page.Regular := fun page => SiteContext.regular_of_mem_pages slashFree rendered
  have kept : pages.filter (!·.isBlank) = pages :=
    List.filter_eq_self.mpr fun page member => by simp [SiteContext.filled_of_mem_pages rendered member]
  obtain ⟨cleared, after, effect, published, laid, below, afterOrdered, generated⟩ :=
    publish_exists plain steps isName regular ready ordered (fits_of_unlimited unlimited directory pages)
  rw [kept] at published
  exact ⟨after, published, below, laid.here.trans effect.here, (laid.limits.trans effect.limits).trans unlimited,
    afterOrdered, generated⟩

theorem mem_contents_of_overlay {place : Node.Location} {text : String}
    (held : View.empty.overlay (contents pages) place = some (.file text)) : (place, Shape.file text) ∈ contents pages := by
  rcases View.overlay_cases (contents pages) place with ⟨_, same⟩ | ⟨item, member, _, decided⟩
  · rw [same, View.empty] at held
    split at held <;> cases held
  · rw [decided] at held
    split at held
    · rename_i same
      rw [same, ← Option.some.inj held]
      exact member
    · cases held

/-- A site of well-named modules can always be published into a directory that is not there yet or
was generated: each of its pages is written and shows, and the directory is then taken for generated.
So a site that is published next leaves exactly what it would have left in the first place, and no
page of the other one. -/
theorem publish_site_replaces {root : Path} {apiDir : String}
    (located : Project.apiPath root apiDir = .ok directory) (plain : ".." ∉ directory.names)
    (unlimited : tree.limits = .unlimited) (ordered : tree.root.Ordered)
    (ready : isGenerated tree directory = true ∨
      tree.view (directory.origin tree.here) = some .directory ∧ tree.view (directory.destination tree.here) = none ∧
        ∀ place, place <+: directory.destination tree.here → ∀ text, tree.view place ≠ some (.file text))
    (context : SiteContext) {models : List ModuleModel} (wellNamed : SiteContext.WellNamed models) :
    ∃ pages after, context.pages models = .ok pages ∧
      result (publish directory pages) tree = (.ok (pages.map fun page => directory.join page.location), after) ∧
      after.view.below (directory.destination tree.here) = View.empty.overlay (contents pages) ∧
      ((∀ model ∈ models, (model.classes.map (·.name)).Nodup) →
        ∀ page ∈ pages, after.view (directory.destination tree.here ++ page.location.names) = some (.file page.text)) ∧
      isGenerated after directory = true ∧
      ∀ (nextContext : SiteContext) (nextModels : List ModuleModel), SiteContext.WellNamed nextModels →
        ∃ nextPages once twice, nextContext.pages nextModels = .ok nextPages ∧
          result (publish directory nextPages) tree =
            (.ok (nextPages.map fun page => directory.join page.location), once) ∧
          result (publish directory nextPages) after =
            (.ok (nextPages.map fun page => directory.join page.location), twice) ∧
          twice.root.get? (directory.destination tree.here) = once.root.get? (directory.destination tree.here) ∧
          ∀ rest text, twice.view (directory.destination tree.here ++ rest) = some (.file text) →
            (rest, Shape.file text) ∈ contents nextPages := by
  have isReady : isGenerated tree directory = true ∨ Bare directory tree :=
    ready.imp_right fun ⟨base, absent, noFile⟩ => bare_of_absent base absent noFile
  obtain ⟨pages, rendered⟩ := context.exists_pages models
  obtain ⟨after, published, below, here, limits, afterOrdered, generated⟩ :=
    publish_site_exists located plain unlimited ordered isReady wellNamed.slashFree rendered
  refine ⟨pages, after, rendered, published, below, ?_, generated, ?_⟩
  · intro classesDistinct page member
    have shown := congrFun below page.location.names
    rw [View.below] at shown
    rw [shown]
    exact overlay_contents_page (fun page => SiteContext.regular_of_mem_pages wellNamed.slashFree rendered)
      (fun page => SiteContext.filled_of_mem_pages rendered)
      (SiteContext.locations_nodup wellNamed rendered classesDistinct) member _
  · intro nextContext nextModels nextNamed
    obtain ⟨nextPages, nextRendered⟩ := nextContext.exists_pages nextModels
    obtain ⟨once, publishedOnce, belowOnce, _, _, onceOrdered, _⟩ :=
      publish_site_exists located plain unlimited ordered isReady nextNamed.slashFree nextRendered
    obtain ⟨twice, publishedTwice, belowTwice, _, _, twiceOrdered, _⟩ :=
      publish_site_exists located plain limits afterOrdered (.inl generated) nextNamed.slashFree nextRendered
    rw [here] at belowTwice
    refine ⟨nextPages, once, twice, nextRendered, publishedOnce, publishedTwice, ?_, ?_⟩
    · exact twiceOrdered.get?_eq_of_below onceOrdered (belowTwice.trans belowOnce.symm)
    · intro rest text held
      apply mem_contents_of_overlay
      rw [← belowTwice]
      exact held

/-- A package and a module of it, each with a class. -/
def enginePackage : List ModuleModel :=
  [⟨"engine", none, [⟨"Engine", .ofData "engine" "", none, none, .classType {}⟩]⟩,
    ⟨"engine.parts", none, [⟨"Piston", .ofData "engine.parts" "", none, none, .classType {}⟩,
      ⟨"Valve", .ofData "engine.parts" "", none, none, .classType {}⟩]⟩]

theorem enginePackage_wellNamed : SiteContext.WellNamed enginePackage :=
  ⟨by decide +kernel, by decide +kernel, by decide +kernel⟩

/-- The old reference gives way to that of the package, and this one to that of no module. -/
theorem generatedTree_replaced :
    isGenerated generatedTree ⟨"docs/api"⟩ = true ∧ SiteContext.WellNamed enginePackage ∧
      ∀ context : SiteContext, ∃ pages after, context.pages enginePackage = .ok pages ∧
        (result (publish ⟨"docs/api"⟩ pages) generatedTree).2 = after ∧
        (∀ page ∈ pages, after.view (["work", "docs", "api"] ++ page.location.names) = some (.file page.text)) ∧
        isGenerated after ⟨"docs/api"⟩ = true ∧
        ∃ home once twice, context.pages [] = .ok home ∧
          (result (publish ⟨"docs/api"⟩ home) generatedTree).2 = once ∧
          (result (publish ⟨"docs/api"⟩ home) after).2 = twice ∧
          twice.root.get? ["work", "docs", "api"] = once.root.get? ["work", "docs", "api"] := by
  have generated : isGenerated generatedTree ⟨"docs/api"⟩ = true := by decide +kernel
  have leads : (Path.mk "docs/api").destination generatedTree.here = ["work", "docs", "api"] := by decide +kernel
  refine ⟨generated, enginePackage_wellNamed, ?_⟩
  intro context
  obtain ⟨pages, after, rendered, published, _, shown, again, next⟩ :=
    @publish_site_replaces ⟨"docs/api"⟩ generatedTree ⟨""⟩ "docs/api" (by decide +kernel) (by decide +kernel) rfl
      (by decide +kernel) (.inl generated) context enginePackage enginePackage_wellNamed
  obtain ⟨home, once, twice, blank, first, second, same, _⟩ :=
    next context [] ⟨List.nodup_nil, List.forall_mem_nil _, List.forall_mem_nil _⟩
  rw [leads] at same shown
  exact ⟨pages, after, rendered, by rw [published], shown (by decide +kernel), again, home, once, twice, blank,
    by rw [first], by rw [second], same⟩

end Publication

end ApiReference
