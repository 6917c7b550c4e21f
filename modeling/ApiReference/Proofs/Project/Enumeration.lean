import ApiReference.Proofs.Failure
import ApiReference.Proofs.Project.Discovery
import ApiReference.Proofs.SearchPath

namespace ApiReference.Project

open Node (ProperName WellNamed)

/-! Which modules a package has: one for each source file that is found, under the name that its
place in the package gives it. Everything found lies below the mounted directory, so the mount
shows neither in the outcome nor afterwards. -/

section Naming

variable {root : Path} {packageDir : String} {names garbled : List String}

theorem componentsAfter?_below (proper : ∀ name ∈ names, ProperName name) :
    Path.componentsAfter? (resolve root packageDir) ((resolve root packageDir).pushAll names) =
      some (names.map Component.name) := by
  rw [Path.componentsAfter?_eq_some_iff, components_pushAll_proper _ proper]

/-- The package has a name unless its path ends in a step up. -/
theorem fileName?_resolve {front : List String} {package : String} (split : parts packageDir = front ++ [package]) :
    (resolve root packageDir).fileName? = if package = ".." then none else some package := by
  have named : (resolve root packageDir).names = (root.names ++ front) ++ [package] := by
    rw [names_resolve, split, List.append_assoc]
  exact Path.fileName?_of_names named

/-- A file below the package has a name as soon as the package and something on the way have one. -/
theorem moduleName?_below {front : List String} {package : String} (split : parts packageDir = front ++ [package])
    (proper : ∀ name ∈ names, ProperName name) :
    moduleName? root packageDir ((resolve root packageDir).pushAll names) garbled =
      if package = ".." then none
      else (names.filter (· ∉ garbled)).getLast?.map fun last =>
        ".".intercalate (package :: (names.filter (· ∉ garbled)).dropLast ++ [(Path.cutName last).1]) := by
  have named : (some package).filter (fun name => name ∈ parts packageDir || name ∉ garbled) = some package :=
    Option.filter_some_pos (by simp [split])
  have legible : (names.map Component.name).filter (·.text ∉ garbled) = (names.filter (· ∉ garbled)).map .name :=
    List.filter_map ..
  unfold moduleName?
  simp only [componentsAfter?_below proper, fileName?_resolve split, legible, Option.bind_eq_bind, Option.bind_some]
  by_cases up : package = ".."
  · simp [up]
  · rw [if_neg up, if_neg up, named]
    generalize names.filter (· ∉ garbled) = kept
    rcases kept.eq_nil_or_concat with rfl | ⟨directories, last, rfl⟩
    · simp
    · simp [Function.comp_def, Component.text]

/-- A file that is found has no name only if the path of the package ends in a step up or if nothing on the
way from the package to the file is text. -/
theorem cases_of_unnamed {tree : FileTree} {file : Path} {files : List Path} (wellNamed : tree.root.WellNamed)
    (isDirectory : tree.isDirectory (resolve root packageDir) = true)
    (found : discover tree (resolve root packageDir) = .ok files) (member : file ∈ files)
    (nonempty : parts packageDir ≠ []) (unnamed : moduleName? root packageDir file garbled = none) :
    packageName? packageDir = some ".." ∨
      ∃ below, Path.componentsAfter? (resolve root packageDir) file = some below ∧
        ∀ component ∈ below, component.text ∈ garbled := by
  obtain ⟨names, last, rfl, proper⟩ := exists_of_mem_discover wellNamed isDirectory found member
  obtain ⟨front, package, split, _⟩ := exists_last_part nonempty
  rw [moduleName?_below split proper] at unnamed
  split at unnamed
  · rename_i stepUp
    rw [packageName?, split, stepUp, List.getLast?_concat]
    exact .inl rfl
  · rw [Option.map_eq_none_iff, List.getLast?_eq_none_iff, List.filter_eq_nil_iff] at unnamed
    refine .inr ⟨_, componentsAfter?_below proper, List.forall_mem_map.mpr fun name listed => ?_⟩
    change name ∈ garbled
    simpa using unnamed name listed

end Naming

section Records

variable {tree : FileTree} {table : SymbolTable} {root point file : Path} {packageDir : String} {search : SearchPath}

theorem mountPoint_eq_ok (located : mountPoint root packageDir = .ok point) :
    point = root.pushAll (parts packageDir).dropLast := by
  unfold mountPoint at located
  split at located
  · cases located
  · exact (Except.ok.inj located).symm

/-- What is below the package is below the directory that holds it. -/
theorem reaches_below (located : mountPoint root packageDir = .ok point) {names : List String}
    (proper : ∀ name ∈ names, ProperName name) :
    (search.mount point).reaches ((resolve root packageDir).pushAll names) = true := by
  have held : point.components <+: (resolve root packageDir).components := by
    rw [mountPoint_eq_ok located, components_resolve, Path.components_pushAll root fun part member =>
      isPart_of_mem_parts (List.dropLast_subset _ member)]
    exact (List.prefix_append_right_inj _).mpr ((List.dropLast_prefix _).map _)
  have reached : Path.startsWith point ((resolve root packageDir).pushAll names) = true := by
    rw [Path.startsWith_iff, components_pushAll_proper _ proper]
    exact held.trans (List.prefix_append _ _)
  simp [SearchPath.reaches, SearchPath.mount, reached]

/-- The record under the name of a module that a file defines. -/
def recordNamed (table : SymbolTable) (file : Path) : Option String → Except Failure ModuleRecord
  | none => .error (.load "?" file.text .unnamed)
  | some name =>
      match table.module? name with
      | some record => .ok record
      | none => .error (.load name file.text .unrecorded)

theorem recordNamed_eq_ok_iff {name? : Option String} {record : ModuleRecord} :
    recordNamed table file name? = .ok record ↔ ∃ name, name? = some name ∧ table.module? name = some record := by
  cases name? with
  | none => simp [recordNamed]
  | some name => cases recorded : table.module? name <;> simp [recordNamed, recorded]

theorem recordNamed_of_unrecorded {name : String} (unrecorded : table.module? name = none) :
    recordNamed table file (some name) = .error (.load name file.text .unrecorded) := by
  rw [recordNamed, unrecorded]

theorem recordNamed_eq_error {name? : Option String} {failure : Failure} (failed : recordNamed table file name? = .error failure) :
    name? = none ∧ failure = .load "?" file.text .unnamed ∨ ∃ name, failure = .load name file.text .unrecorded := by
  cases name? with
  | none =>
      cases failed
      exact .inl ⟨rfl, rfl⟩
  | some name =>
      cases recorded : table.module? name with
      | none =>
          rw [recordNamed_of_unrecorded recorded] at failed
          cases failed
          exact .inr ⟨name, rfl⟩
      | some record => simp [recordNamed, recorded] at failed

def recordOf (table : SymbolTable) (root : Path) (packageDir : String) (garbled : List String) (file : Path) :
    Except Failure ModuleRecord :=
  recordNamed table file (moduleName? root packageDir file garbled)

theorem loadFile_eq_recordOf {garbled : List String} (reached : search.reaches file = true) :
    loadFile table search root packageDir garbled file = recordOf table root packageDir garbled file := by
  unfold loadFile recordOf
  cases moduleName? root packageDir file garbled with
  | none => rfl
  | some name => exact if_pos reached

/-- The search for modules without the mount. -/
theorem enumerate_eq (wellNamed : tree.root.WellNamed) :
    enumerate tree table root packageDir search =
      (if parts packageDir = [] then .error (.settings .emptyPackageDir)
        else if tree.isDirectory (resolve root packageDir) = true then
          (discover tree (resolve root packageDir)).bind fun files =>
            files.mapM (recordOf table root packageDir tree.garbled)
        else .error (.settings (.packageNotFound (resolve root packageDir).text)), search) := by
  unfold enumerate
  by_cases empty : parts packageDir = []
  · rw [if_pos empty, if_pos empty]
  · rw [if_neg empty, if_neg empty]
    simp only
    by_cases isDirectory : tree.isDirectory (resolve root packageDir) = true
    · rw [if_pos isDirectory, if_pos isDirectory]
      have located : mountPoint root packageDir = .ok (root.pushAll (parts packageDir).dropLast) := if_neg empty
      rw [SearchPath.withProject_of_located located, SearchPath.release_mount]
      cases found : discover tree (resolve root packageDir) with
      | error failure => rfl
      | ok files =>
          have loaded :
              files.mapM (loadFile table (search.mount (root.pushAll (parts packageDir).dropLast)) root packageDir tree.garbled) =
                files.mapM (recordOf table root packageDir tree.garbled) := by
            apply Failure.mapM_congr
            intro file member
            obtain ⟨names, last, rfl, proper⟩ := exists_of_mem_discover wellNamed isDirectory found member
            exact loadFile_eq_recordOf (reaches_below located proper)
          exact Prod.ext loaded rfl
    · rw [if_neg isDirectory, if_neg isDirectory]

/-- The search for modules leaves the search path as it was. When it succeeds it gives the record of
each file found, in the order of the files; a named file without a record decides if all before it
have one; no file is ever found outside the mounted directory, and a file has no name only when the
path of the package ends in a step up or no name from there to the file is text. -/
theorem enumerate_exact (wellNamed : tree.root.WellNamed) :
    (enumerate tree table root packageDir search).2 = search ∧
      (∀ records, (enumerate tree table root packageDir search).1 = .ok records →
        ∃ files, discover tree (resolve root packageDir) = .ok files ∧
          List.Forall₂ (fun file record => ∃ name, moduleName? root packageDir file tree.garbled = some name ∧
            table.module? name = some record) files records) ∧
      (∀ files, parts packageDir ≠ [] → tree.isDirectory (resolve root packageDir) = true →
        discover tree (resolve root packageDir) = .ok files →
          (∀ front file back name, files = front ++ file :: back →
            (∀ earlier ∈ front, ∃ name record, moduleName? root packageDir earlier tree.garbled = some name ∧
              table.module? name = some record) →
            moduleName? root packageDir file tree.garbled = some name → table.module? name = none →
              (enumerate tree table root packageDir search).1 = .error (.load name file.text .unrecorded)) ∧
          ((∀ file ∈ files, ∃ name record, moduleName? root packageDir file tree.garbled = some name ∧
              table.module? name = some record) →
            ∃ records, (enumerate tree table root packageDir search).1 = .ok records)) ∧
      (∀ name file problem, (enumerate tree table root packageDir search).1 = .error (.load name file problem) →
        problem.message ≠ "file is not under a mounted search path" ∧
          (problem.message = "cannot derive a dotted module name" →
            packageName? packageDir = some ".." ∨
              ∃ below, Path.componentsAfter? (resolve root packageDir) ⟨file⟩ = some below ∧
                ∀ component ∈ below, component.text ∈ tree.garbled)) := by
  rw [enumerate_eq wellNamed]
  refine ⟨rfl, ?_, ?_, ?_⟩
  · intro records listed
    split at listed
    · cases listed
    · split at listed
      · obtain ⟨files, found, loaded⟩ := Failure.bind_eq_ok listed
        exact ⟨files, found, (Failure.mapM_eq_ok loaded).imp fun _ _ => recordNamed_eq_ok_iff.mp⟩
      · cases listed
  · intro files some isDirectory found
    simp only [if_neg some, if_pos isDirectory, found, Except.bind]
    constructor
    · rintro front file back name rfl recorded named unrecorded
      apply Failure.mapM_eq_error_of_first
      · intro earlier member
        obtain ⟨name, record, known⟩ := recorded earlier member
        exact ⟨record, recordNamed_eq_ok_iff.mpr ⟨name, known⟩⟩
      · rw [recordOf, named, recordNamed_of_unrecorded unrecorded]
    · intro recorded
      apply Failure.mapM_exists
      intro file member
      obtain ⟨name, record, known⟩ := recorded file member
      exact ⟨record, recordNamed_eq_ok_iff.mpr ⟨name, known⟩⟩
  · intro name text problem failed
    split at failed
    · cases failed
    · rename_i some
      split at failed
      · rename_i isDirectory
        cases found : discover tree (resolve root packageDir) with
        | error failure =>
            rw [found] at failed
            cases failed
            cases discover_eq_error found
        | ok files =>
            rw [found] at failed
            obtain ⟨file, member, failed⟩ := Failure.exists_of_mapM_eq_error failed
            rcases recordNamed_eq_error failed with ⟨unnamed, cause⟩ | ⟨_, cause⟩
            · cases cause
              exact ⟨by decide, fun _ => cases_of_unnamed wellNamed isDirectory found member some unnamed⟩
            · cases cause
              exact ⟨by decide, fun same => absurd same (by decide)⟩
      · cases failed

end Records

/-- A package with a module of its own and one below, in a directory whose name is no text. -/
def nestedPackage : FileTree where
  root := .directory [("src", .directory [("pkg", .directory [("a.py", .file ""), ("notes.txt", .file ""),
    ("sub", .directory [("\uFFFD", .directory [("b.py", .file "")])])])])]
  limits := .usual
  garbled := ["\uFFFD"]

/-- The module below has no record under the names that are text, and what was mounted before stays. -/
theorem nestedPackage_unrecorded :
    nestedPackage.root.WellNamed ∧
      discover nestedPackage (resolve ⟨"/src/"⟩ "./pkg//") = .ok [⟨"/src/pkg/a.py"⟩, ⟨"/src/pkg/sub/\uFFFD/b.py"⟩] ∧
      enumerate nestedPackage { modules := [{ name := "pkg.a" }] } ⟨"/src/"⟩ "./pkg//" ⟨[⟨"/lib"⟩]⟩ =
        (.error (.load "pkg.sub.b" "/src/pkg/sub/\uFFFD/b.py" .unrecorded), ⟨[⟨"/lib"⟩]⟩) := by
  have found : discover nestedPackage (resolve ⟨"/src/"⟩ "./pkg//") =
      .ok [⟨"/src/pkg/a.py"⟩, ⟨"/src/pkg/sub/\uFFFD/b.py"⟩] := by
    decide +kernel
  have wellNamed : nestedPackage.root.WellNamed := by decide +kernel
  refine ⟨wellNamed, found, ?_⟩
  obtain ⟨released, _, first, _⟩ := @enumerate_exact nestedPackage { modules := [{ name := "pkg.a" }] } ⟨"/src/"⟩
    "./pkg//" ⟨[⟨"/lib"⟩]⟩ wellNamed
  have missing := (first _ (by decide +kernel) (by decide +kernel) found).1 [⟨"/src/pkg/a.py"⟩]
    ⟨"/src/pkg/sub/\uFFFD/b.py"⟩ [] "pkg.sub.b" rfl
  refine Prod.ext (missing ?_ (by decide +kernel) (by decide +kernel)) released
  rw [List.forall_mem_singleton]
  exact ⟨"pkg.a", { name := "pkg.a" }, by decide +kernel, by decide +kernel⟩

/-- A package whose only module has a name that is no text. -/
def garbledPackage : FileTree where
  root := .directory [("pkg", .directory [("\uFFFD.py", .file "")])]
  limits := .usual
  garbled := ["\uFFFD.py"]

/-- The file is found and gets no name, though the package has one. -/
theorem garbledPackage_unnamed :
    packageName? "pkg" = some "pkg" ∧
      (enumerate garbledPackage {} ⟨"/"⟩ "pkg" ⟨[]⟩).1 = .error (.load "?" "/pkg/\uFFFD.py" .unnamed) ∧
      LoadProblem.message .unnamed = "cannot derive a dotted module name" := by
  refine ⟨by decide +kernel, by decide +kernel, rfl⟩

end ApiReference.Project
