import ApiReference.Project.Discovery
import ApiReference.Proofs.FileTree.Relisting
import ApiReference.Proofs.Ranking
import ApiReference.Proofs.Text.Bytes

namespace ApiReference.Project

open Node (ProperName WellNamed Unambiguous)

/-! Which source files are found below a directory, and in which order.

Siblings are ranked, files before directories and each of the two by name. Since no two siblings
have the same name, this decides the order of all files below them: it shows in the first
component where their paths part. -/

/-- What is found below one entry. -/
def foundAt (path : Path) (entry : String × Node) : Found :=
  ⟨entry.2.isDirectory, entry.1, sourcesBelow (path.push entry.1) entry.2⟩

theorem foundIn_eq_map (path : Path) (entries : List (String × Node)) :
    foundIn path entries = entries.map (foundAt path) := by
  induction entries with
  | nil => rw [foundIn]; rfl
  | cons entry rest ih => rw [foundIn, ih]; rfl

theorem mem_sourcesBelow_directory {path file : Path} {entries : Node.Entries} :
    file ∈ sourcesBelow path (.directory entries) ↔
      ∃ entry ∈ entries, file ∈ sourcesBelow (path.push entry.1) entry.2 := by
  rw [sourcesBelow, foundIn_eq_map, List.mem_flatMap]
  constructor
  · intro ⟨found, ranked, member⟩
    obtain ⟨entry, listed, rfl⟩ := List.mem_map.mp ((rank_perm _ _).mem_iff.mp ranked)
    exact ⟨entry, listed, member⟩
  · intro ⟨entry, listed, member⟩
    exact ⟨_, (rank_perm _ _).mem_iff.mpr (List.mem_map_of_mem listed), member⟩

/-- Files are found by going down from name to name. -/
theorem exists_of_mem_sourcesBelow {node : Node} (wellNamed : node.WellNamed) {path file : Path}
    (member : file ∈ sourcesBelow path node) :
    ∃ names, file = path.pushAll names ∧ (∀ name ∈ names, ProperName name) ∧ (names = [] ↔ node.isDirectory = false) := by
  induction wellNamed generalizing path with
  | file text =>
      rw [sourcesBelow] at member
      split at member
      · rw [List.mem_singleton] at member
        exact ⟨[], member, List.forall_mem_nil _, iff_of_true rfl rfl⟩
      · cases member
  | directory own children ih =>
      obtain ⟨entry, listed, member⟩ := mem_sourcesBelow_directory.mp member
      obtain ⟨names, rfl, proper, _⟩ := ih entry listed member
      exact ⟨entry.1 :: names, rfl, List.forall_mem_cons.mpr ⟨own entry listed, proper⟩,
        iff_of_false (List.cons_ne_nil _ _) Bool.noConfusion⟩

theorem discover_eq_ok {tree : FileTree} {path : Path} {files : List Path} (found : discover tree path = .ok files) :
    ∃ node, tree.node? path = some node ∧ files = sourcesBelow path node := by
  unfold discover at found
  cases held : tree.node? path with
  | none =>
      rw [held] at found
      cases found
  | some node =>
      rw [held] at found
      cases found
      exact ⟨node, rfl, rfl⟩

theorem discover_eq_error {tree : FileTree} {path : Path} {failure : Failure}
    (failed : discover tree path = .error failure) : failure = .walk := by
  unfold discover at failed
  cases held : tree.node? path with
  | none =>
      rw [held] at failed
      cases failed
      rfl
  | some node =>
      rw [held] at failed
      cases failed

theorem exists_of_mem_discover {tree : FileTree} (wellNamed : tree.root.WellNamed) {path file : Path} {files : List Path}
    (isDirectory : tree.isDirectory path = true) (found : discover tree path = .ok files) (member : file ∈ files) :
    ∃ names last, file = path.pushAll (names ++ [last]) ∧ ∀ name ∈ names ++ [last], ProperName name := by
  obtain ⟨node, held, rfl⟩ := discover_eq_ok found
  obtain ⟨location, _, present⟩ := FileTree.exists_locate?_of_node? held
  obtain ⟨names, below, proper, ends⟩ := exists_of_mem_sourcesBelow (wellNamed.get? present) member
  have directory : node.isDirectory = true := by
    unfold FileTree.isDirectory at isDirectory
    rw [held] at isDirectory
    cases node with
    | file text => cases isDirectory
    | directory entries => rfl
  rcases List.eq_nil_or_concat names with none | ⟨front, last, rfl⟩
  · rw [ends.mp none] at directory
    cases directory
  · rw [List.concat_eq_append] at below proper
    exact ⟨front, last, below, proper⟩

/-- Names that can be given to files are steps of their own. -/
theorem components_pushAll_proper (path : Path) {names : List String} (proper : ∀ name ∈ names, ProperName name) :
    (path.pushAll names).components = path.components ++ names.map Component.name := by
  rw [Path.components_pushAll path fun name member => (proper name member).toIsPart, Path.map_pieceComponent]
  exact fun member => (proper ".." member).noStepUp rfl

section Extensions

/-- A name has the extension of sources unless there is nothing else to it. -/
theorem cutName_eq_source_iff {name : String} :
    (Path.cutName name).2 = some sourceExtension ↔ ∃ stem, stem ≠ "" ∧ name = stem ++ ".py" := by
  have noDot : '.' ∉ sourceExtension.toList := by decide
  have cut : ∀ stem, Text.splitLast? '.' name = some (stem, sourceExtension) ↔ name = stem ++ ".py" := by
    intro stem
    rw [Text.splitLast?_eq_some_iff noDot, ← String.toList_inj, String.toList_append]
    rfl
  simp only [← cut]
  unfold Path.cutName
  constructor
  · intro isSource
    split at isSource
    · rename_i stem extension split
      split at isSource
      · cases isSource
      · rename_i nonempty
        cases isSource
        exact ⟨stem, nonempty, split⟩
    · cases isSource
  · intro ⟨stem, nonempty, split⟩
    simp only [split, if_neg nonempty]

theorem extension?_pushAll (path : Path) {front : List String} {last : String}
    (proper : ∀ name ∈ front ++ [last], ProperName name) :
    (path.pushAll (front ++ [last])).extension? = (Path.cutName last).2 := by
  have named : (path.pushAll (front ++ [last])).fileName? = some last := by
    rw [Path.fileName?, components_pushAll_proper path proper, List.map_append, ← List.append_assoc,
      List.map_singleton, List.getLast?_concat]
  rw [Path.extension?, named]
  rfl

end Extensions

/-- What is found is what the locations below a node hold, no matter how they are walked. -/
theorem mem_sourcesBelow_iff {node : Node} (unambiguous : node.Unambiguous) {path file : Path} :
    file ∈ sourcesBelow path node ↔
      ∃ location text, node.get? location = some (.file text) ∧ file = path.pushAll location ∧
        file.extension? = some sourceExtension := by
  induction unambiguous generalizing path with
  | file text =>
      rw [sourcesBelow]
      constructor
      · intro member
        split at member
        · rename_i isSource
          have same := List.mem_singleton.mp member
          exact ⟨[], text, rfl, same, same ▸ isSource⟩
        · cases member
      · intro placed
        obtain ⟨location, _, held, same, isSource⟩ := placed
        cases location with
        | nil =>
            rw [Path.pushAll, List.foldl_nil] at same
            rw [if_pos (same ▸ isSource), same]
            exact List.mem_cons_self
        | cons name rest => cases held
  | @directory entries distinct children ih =>
      rw [mem_sourcesBelow_directory]
      constructor
      · intro below
        obtain ⟨entry, listed, member⟩ := below
        obtain ⟨location, text, held, same, isSource⟩ := (ih entry listed).mp member
        refine ⟨entry.1 :: location, text, ?_, same, isSource⟩
        rw [Node.get?_directory_cons, (OrderedMap.lookup_eq_some_iff_mem distinct).mpr listed]
        exact held
      · intro placed
        obtain ⟨location, text, held, same, isSource⟩ := placed
        cases location with
        | nil => cases held
        | cons name rest =>
            rw [Node.get?_directory_cons] at held
            obtain ⟨child, found, held⟩ := Option.bind_eq_some_iff.mp held
            have listed := Node.mem_of_lookup found
            exact ⟨(name, child), listed, (ih (name, child) listed).mpr ⟨rest, text, held, same, isSource⟩⟩

section Order

/-- The order of the files that are found. At the first component where two paths part, one that
ends there comes before one that goes on, and otherwise the one with the lesser bytes. -/
def ListedBefore (first second : Path) : Prop :=
  ∃ common name other rest others,
    first.components = common ++ Component.name name :: rest ∧
      second.components = common ++ Component.name other :: others ∧ name ≠ other ∧
        (rest = [] ∧ others ≠ [] ∨ (rest = [] ↔ others = []) ∧ Text.bytes name < Text.bytes other)

/-- What a path is compared by, component by component: whether it goes on, and the component. -/
def stepKeys : List Component → List (Bool ×ₗ String)
  | [] => []
  | component :: rest => toLex (!rest.isEmpty, component.text) :: stepKeys rest

theorem stepKeys_append (common : List Component) (component : Component) (rest : List Component) :
    stepKeys (common ++ component :: rest) =
      (common.map fun step => toLex (true, step.text)) ++ stepKeys (component :: rest) := by
  induction common with
  | nil => rfl
  | cons step others ih =>
      have goesOn : (others ++ component :: rest).isEmpty = false := by simp
      rw [List.cons_append, stepKeys, ih, goesOn]
      rfl

variable {first second : Path}

theorem ListedBefore.stepKeys_lt (before : ListedBefore first second) :
    stepKeys first.components < stepKeys second.components := by
  obtain ⟨common, name, other, rest, others, below, belowOther, _, order⟩ := before
  rw [below, belowOther, stepKeys_append, stepKeys_append]
  apply List.append_left_lt
  rw [stepKeys, stepKeys, List.cons_lt_cons_iff, Prod.Lex.toLex_lt_toLex]
  rcases order with ⟨ends, goesOn⟩ | ⟨alike, less⟩
  · have kinds : (!rest.isEmpty) = false ∧ (!others.isEmpty) = true := by simp [ends, goesOn]
    exact .inl (.inl (Bool.lt_iff.mpr kinds))
  · have kinds : rest.isEmpty = others.isEmpty := by
      rw [Bool.eq_iff_iff, List.isEmpty_iff, List.isEmpty_iff]
      exact alike
    exact .inl (.inr ⟨congrArg not kinds, Text.bytes_lt_iff.mp less⟩)

theorem ListedBefore.ne (before : ListedBefore first second) : first ≠ second := by
  intro same
  rw [same] at before
  exact lt_irrefl _ before.stepKeys_lt

theorem ListedBefore.asymm (before : ListedBefore first second) : ¬ ListedBefore second first := by
  intro after
  exact lt_asymm before.stepKeys_lt after.stepKeys_lt

/-- The order leaves no choice in listing given files. -/
theorem eq_of_listedBefore {files others : List Path} (ordered : files.Pairwise ListedBefore)
    (again : others.Pairwise ListedBefore) (same : ∀ file, file ∈ files ↔ file ∈ others) : files = others := by
  have distinct : files.Nodup := ordered.imp ListedBefore.ne
  have distinctAgain : others.Nodup := again.imp ListedBefore.ne
  have perm : files.Perm others := (List.perm_ext_iff_of_nodup distinct distinctAgain).mpr same
  refine perm.eq_of_pairwise ?_ ordered again
  intro file other _ _ before after
  exact absurd after before.asymm

end Order

section Siblings

def Found.position (found : Found) : Bool ×ₗ String := toLex (found.isDirectory, found.name)

theorem Found.before_iff (a b : Found) : a.before b = true ↔ a.position ≤ b.position :=
  flagged_le_iff

variable {path file other : Path} {first second : String × Node}

theorem components_of_mem_files (proper : ProperName first.1) (wellNamed : first.2.WellNamed)
    (member : file ∈ (foundAt path first).files) :
    ∃ rest, file.components = path.components ++ .name first.1 :: rest ∧ (rest = [] ↔ first.2.isDirectory = false) := by
  obtain ⟨names, same, below, ends⟩ := exists_of_mem_sourcesBelow wellNamed member
  have whole : file = path.pushAll (first.1 :: names) := same
  refine ⟨names.map .name, ?_, List.map_eq_nil_iff.trans ends⟩
  rw [whole, components_pushAll_proper path (List.forall_mem_cons.mpr ⟨proper, below⟩), List.map_cons]

/-- Files keep the order of the siblings that they are found below. -/
theorem listedBefore_of_position_lt (proper : ProperName first.1) (wellNamed : first.2.WellNamed)
    (properOther : ProperName second.1) (wellNamedOther : second.2.WellNamed) (apart : first.1 ≠ second.1)
    (before : (foundAt path first).position < (foundAt path second).position)
    (member : file ∈ (foundAt path first).files) (memberOther : other ∈ (foundAt path second).files) :
    ListedBefore file other := by
  obtain ⟨rest, below, ends⟩ := components_of_mem_files proper wellNamed member
  obtain ⟨others, belowOther, endsOther⟩ := components_of_mem_files properOther wellNamedOther memberOther
  refine ⟨path.components, first.1, second.1, rest, others, below, belowOther, apart, ?_⟩
  rcases Prod.Lex.toLex_lt_toLex.mp before with kinds | ⟨kind, less⟩
  · obtain ⟨isFile, isDirectory⟩ := Bool.lt_iff.mp kinds
    refine .inl ⟨ends.mpr isFile, ?_⟩
    intro ended
    exact Bool.noConfusion (isDirectory.symm.trans (endsOther.mp ended))
  · have alike : first.2.isDirectory = second.2.isDirectory := kind
    refine .inr ⟨?_, Text.bytes_lt_bytes less⟩
    rw [ends, endsOther, alike]

end Siblings

/-- The walk lists files in their order. At a directory, two files either part at its entries,
which are ranked, or are found below the same one. -/
theorem sourcesBelow_pairwise {node : Node} (wellNamed : node.WellNamed) (unambiguous : node.Unambiguous) (path : Path) :
    (sourcesBelow path node).Pairwise ListedBefore := by
  induction wellNamed generalizing path with
  | file text =>
      rw [sourcesBelow]
      split
      · exact List.pairwise_singleton _ _
      · exact .nil
  | @directory entries own children ih =>
      obtain ⟨distinct, below⟩ := Node.Everywhere.directory_iff.mp unambiguous
      have listed : ∀ found ∈ rank Found.before (entries.map (foundAt path)), ∃ entry ∈ entries, foundAt path entry = found :=
        fun found ranked => List.mem_map.mp ((rank_perm _ _).mem_iff.mp ranked)
      have names : ((entries.map (foundAt path)).map Found.name).Nodup := by
        rw [List.map_map]
        exact distinct
      have positions : ((entries.map (foundAt path)).map Found.position).Nodup := by
        refine List.Nodup.of_map (fun position => (ofLex position).2) ?_
        rw [List.map_map]
        exact names
      have apart : (rank Found.before (entries.map (foundAt path))).Pairwise fun a b => a.name ≠ b.name :=
        List.pairwise_map.mp (((rank_perm _ _).map Found.name).nodup_iff.mpr names)
      rw [sourcesBelow, foundIn_eq_map, List.pairwise_flatMap]
      constructor
      · intro found ranked
        obtain ⟨entry, member, rfl⟩ := listed found ranked
        exact ih entry member (below entry member) (path.push entry.1)
      · refine ((rank_ascends Found.before_iff positions).and apart).imp_of_mem ?_
        intro a b rankedA rankedB ⟨before, different⟩ file member other memberOther
        obtain ⟨first, listedFirst, rfl⟩ := listed a rankedA
        obtain ⟨second, listedSecond, rfl⟩ := listed b rankedB
        exact listedBefore_of_position_lt (own first listedFirst) (children first listedFirst) (own second listedSecond)
          (children second listedSecond) different before member memberOther

/-- The walk does not see in which order directories are listed. -/
theorem sourcesBelow_relisted {node other : Node} (wellNamed : node.WellNamed) (unambiguous : node.Unambiguous)
    (relisted : node.Relisted other) (path : Path) : sourcesBelow path other = sourcesBelow path node := by
  have unambiguousOther := relisted.unambiguous unambiguous
  apply eq_of_listedBefore (sourcesBelow_pairwise (relisted.wellNamed wellNamed) unambiguousOther path)
    (sourcesBelow_pairwise wellNamed unambiguous path)
  intro file
  simp only [mem_sourcesBelow_iff unambiguousOther, mem_sourcesBelow_iff unambiguous, relisted.get?_file_iff unambiguous]

/-- The source files below a directory are the files with a name that ends in the extension. -/
theorem mem_sourcesBelow_entries_iff {entries : Node.Entries} (wellNamed : (Node.directory entries).WellNamed)
    (unambiguous : (Node.directory entries).Unambiguous) {path file : Path} :
    file ∈ sourcesBelow path (.directory entries) ↔
      ∃ front stem text, stem ≠ "" ∧ (Node.directory entries).get? (front ++ [stem ++ ".py"]) = some (.file text) ∧
        file = path.pushAll (front ++ [stem ++ ".py"]) := by
  rw [mem_sourcesBelow_iff unambiguous]
  constructor
  · intro ⟨location, text, held, same, isSource⟩
    rcases List.eq_nil_or_concat location with none | ⟨front, last, split⟩
    · rw [none] at held
      cases held
    · rw [List.concat_eq_append] at split
      rw [split] at held same
      rw [same, extension?_pushAll path (Node.proper_of_get? wellNamed held), cutName_eq_source_iff] at isSource
      obtain ⟨stem, nonempty, rfl⟩ := isSource
      exact ⟨front, stem, text, nonempty, held, same⟩
  · intro ⟨front, stem, text, nonempty, held, same⟩
    refine ⟨front ++ [stem ++ ".py"], text, held, same, ?_⟩
    rw [same, extension?_pushAll path (Node.proper_of_get? wellNamed held), cutName_eq_source_iff]
    exact ⟨stem, nonempty, rfl⟩

/-- Below a directory, discovery finds each file with the extension once and nothing else. The
order in which they come is fixed, whatever the order in which directories are listed. -/
theorem discover_exact {tree : FileTree} {path : Path} {entries : Node.Entries} (wellNamed : tree.root.WellNamed)
    (unambiguous : tree.root.Unambiguous) (held : tree.node? path = some (.directory entries)) :
    ∃ files, discover tree path = .ok files ∧ files.Nodup ∧
      (∀ file, file ∈ files ↔ ∃ front stem text, stem ≠ "" ∧
        (Node.directory entries).get? (front ++ [stem ++ ".py"]) = some (.file text) ∧
        file = path.pushAll (front ++ [stem ++ ".py"])) ∧
      files.Pairwise ListedBefore ∧
      ∀ root, tree.root.Relisted root → discover { tree with root := root } path = .ok files := by
  obtain ⟨location, _, present⟩ := FileTree.exists_locate?_of_node? held
  have wellNamedBelow := wellNamed.get? present
  have unambiguousBelow := unambiguous.get? present
  have ordered := sourcesBelow_pairwise wellNamedBelow unambiguousBelow path
  refine ⟨sourcesBelow path (.directory entries), ?_, ordered.imp ListedBefore.ne, ?_, ordered, ?_⟩
  · rw [discover, held]
  · intro file
    exact mem_sourcesBelow_entries_iff wellNamedBelow unambiguousBelow
  · intro root relisted
    obtain ⟨other, heldOther, again⟩ := FileTree.node?_relisted unambiguous relisted held
    rw [discover, heldOther]
    exact congrArg Except.ok (sourcesBelow_relisted wellNamedBelow unambiguousBelow again path)

/-- A package listed in no order, with names that only look like those of source files. -/
def scatteredEntries : Node.Entries :=
  [("a", .directory [("é.py", .file ""), ("z.py", .file ""), ("Z.py", .file "")]), ("b.py", .file ""),
    ("x.py", .directory [(".py", .file ""), ("..py", .file "")]), ("B.py", .file ""), ("a.pyc", .file "")]

def scatteredPackage : FileTree where
  root := .directory [("pkg", .directory scatteredEntries)]
  limits := .usual

/-- The tree with the entries of the package the other way round. -/
def turnedRoot : Node := .directory [("pkg", .directory scatteredEntries.reverse)]

theorem scatteredPackage_turned : scatteredPackage.root.Relisted turnedRoot := by
  have unambiguous : (Node.directory scatteredEntries).Unambiguous := by decide +kernel
  refine .directory (.refl _) ?_
  intro name child other listed again
  simp only [List.mem_singleton, Prod.mk.injEq] at listed again
  rw [listed.2, again.2]
  exact .of_perm unambiguous (List.reverse_perm _).symm

/-- The files of the package come first, by bytes, and then those of its directories. -/
theorem scatteredPackage_discovered :
    scatteredPackage.root.WellNamed ∧ scatteredPackage.root.Unambiguous ∧
      scatteredPackage.node? ⟨"/pkg"⟩ = some (.directory scatteredEntries) ∧
      discover scatteredPackage ⟨"/pkg"⟩ = .ok [⟨"/pkg/B.py"⟩, ⟨"/pkg/b.py"⟩, ⟨"/pkg/a/Z.py"⟩, ⟨"/pkg/a/z.py"⟩,
        ⟨"/pkg/a/é.py"⟩, ⟨"/pkg/x.py/..py"⟩] ∧
      discover { scatteredPackage with root := turnedRoot } ⟨"/pkg"⟩ = discover scatteredPackage ⟨"/pkg"⟩ := by
  have wellNamed : scatteredPackage.root.WellNamed := by decide +kernel
  have unambiguous : scatteredPackage.root.Unambiguous := by decide +kernel
  have held : scatteredPackage.node? ⟨"/pkg"⟩ = some (.directory scatteredEntries) := by
    have located : scatteredPackage.locate? ⟨"/pkg"⟩ = some ["pkg"] := by decide +kernel
    exact FileTree.node?_of_locate? located rfl fun _ => rfl
  obtain ⟨files, found, _, _, _, anyOrder⟩ := discover_exact wellNamed unambiguous held
  refine ⟨wellNamed, unambiguous, held, by decide +kernel, ?_⟩
  rw [anyOrder turnedRoot scatteredPackage_turned, found]

end ApiReference.Project
