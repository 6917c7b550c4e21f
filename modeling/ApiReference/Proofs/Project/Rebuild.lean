import ApiReference.Project.Build
import ApiReference.Proofs.Model.Inspection
import ApiReference.Proofs.Project.Enumeration
import ApiReference.Proofs.Project.FailedBuild
import ApiReference.Proofs.Publication.Repetition

namespace ApiReference

/-! A build that is run again. Of the tree it reads only the package and the symbols file, and the
first build leaves both as they are; so it publishes the same pages once more. -/

theorem Path.cutName_slashFree {name : String} (slashFree : '/' ∉ name.toList) : '/' ∉ (cutName name).1.toList := by
  unfold cutName Text.splitLast?
  cases split : Chars.splitLast? '.' name.toList with
  | none => exact slashFree
  | some cut =>
      obtain ⟨stem, extension⟩ := cut
      simp only [Option.map_some]
      split
      · exact slashFree
      · rw [Chars.splitLast?_eq_some split] at slashFree
        rw [String.toList_ofList]
        exact fun member => slashFree (List.mem_append_left _ member)

namespace Project

open FileTree FileWork Publication

variable {tree before after : FileTree} {project : Project} {plan : BuildPlan}

section Planning

/-- All that a plan takes from the tree is what is found at two paths, and which names are no text. -/
theorem plan_congr (garbled : after.garbled = before.garbled)
    (package : after.node? (resolve project.root project.packageDir) = before.node? (resolve project.root project.packageDir))
    (symbols : project.table = none → after.node? project.symbolsPath = before.node? project.symbolsPath) :
    Project.plan after project = Project.plan before project := by
  have table : loadTable after project = loadTable before project := by
    unfold loadTable
    split
    · rfl
    · rename_i none
      simp only [SymbolTable.load, read?, symbols none]
  have directory : after.isDirectory (resolve project.root project.packageDir) =
      before.isDirectory (resolve project.root project.packageDir) := by
    unfold isDirectory
    rw [package]
  have files : discover after (resolve project.root project.packageDir) =
      discover before (resolve project.root project.packageDir) := by
    unfold discover
    rw [package]
  have records : ∀ table, enumerate after table project.root project.packageDir {} =
      enumerate before table project.root project.packageDir {} := by
    intro table
    simp only [enumerate, directory, files, garbled]
  simp only [Project.plan, browse, table, records]

theorem plan_eq_ok (planned : Project.plan tree project = .ok plan) :
    apiPath project.root project.apiDir = .ok plan.apiPath ∧
      ∃ table records, loadTable tree project = .ok table ∧
        (enumerate tree table project.root project.packageDir {}).1 = .ok records ∧
        plan.models = (table.describe records).1 ∧ project.siteContext.pages plan.models = .ok plan.pages := by
  unfold Project.plan at planned
  obtain ⟨api, located, planned⟩ := Failure.bind_eq_ok planned
  obtain ⟨table, loaded, planned⟩ := Failure.bind_eq_ok planned
  obtain ⟨⟨models, findings⟩, browsed, planned⟩ := Failure.bind_eq_ok planned
  obtain ⟨pages, rendered, planned⟩ := Failure.bind_eq_ok planned
  cases planned
  refine ⟨located, table, ?_⟩
  unfold browse at browsed
  cases listed : (enumerate tree table project.root project.packageDir {}).1 with
  | error failure =>
      rw [listed] at browsed
      cases browsed
  | ok records =>
      rw [listed] at browsed
      have described : table.describe records = (models, findings) := Except.ok.inj browsed
      exact ⟨records, loaded, rfl, by rw [described], rendered⟩

theorem enumerate_eq_ok (wellNamed : tree.root.WellNamed) {table : SymbolTable} {root : Path} {packageDir : String}
    {search : SearchPath} {records : List ModuleRecord}
    (listed : (enumerate tree table root packageDir search).1 = .ok records) :
    parts packageDir ≠ [] ∧ tree.isDirectory (resolve root packageDir) = true ∧
      ∃ files, discover tree (resolve root packageDir) = .ok files ∧
        files.mapM (recordOf table root packageDir tree.garbled) = .ok records := by
  rw [enumerate_eq wellNamed] at listed
  simp only at listed
  split at listed
  · cases listed
  · rename_i nonempty
    split at listed
    · rename_i isDirectory
      obtain ⟨files, found, loaded⟩ := Failure.bind_eq_ok listed
      exact ⟨nonempty, isDirectory, files, found, loaded⟩
    · cases listed

/-- Names of modules come from names in the tree. -/
theorem record_slashFree (wellNamed : tree.root.WellNamed) {table : SymbolTable} {root : Path} {packageDir : String}
    {search : SearchPath} {records : List ModuleRecord}
    (listed : (enumerate tree table root packageDir search).1 = .ok records) {record : ModuleRecord}
    (member : record ∈ records) : '/' ∉ record.name.toList := by
  obtain ⟨nonempty, isDirectory, files, found, loaded⟩ := enumerate_eq_ok wellNamed listed
  obtain ⟨file, listedFile, recorded⟩ := Failure.exists_of_mem_mapM loaded member
  obtain ⟨name, named, known⟩ := recordNamed_eq_ok_iff.mp recorded
  have sameName : record.name = name := by simpa using List.find?_some known
  obtain ⟨names, last, rfl, proper⟩ := exists_of_mem_discover wellNamed isDirectory found listedFile
  obtain ⟨front, package, split, isPart⟩ := exists_last_part nonempty
  rw [moduleName?_below split proper, Option.ite_none_left_eq_some, Option.map_eq_some_iff] at named
  obtain ⟨_, stemmed, ended, joined⟩ := named
  have kept : ∀ name ∈ (names ++ [last]).filter (· ∉ tree.garbled), '/' ∉ name.toList := fun name listed =>
    (proper name (List.mem_of_mem_filter listed)).slashFree
  rw [sameName, ← joined, String.toList_intercalate]
  apply Chars.not_mem_intercalate (by decide)
  intro piece listedPiece
  obtain ⟨text, listedText, rfl⟩ := List.mem_map.mp listedPiece
  simp only [List.cons_append, List.mem_cons, List.mem_append, List.not_mem_nil, or_false] at listedText
  rcases listedText with rfl | inner | rfl
  · exact isPart.slashFree
  · exact kept text (List.dropLast_subset _ inner)
  · exact Path.cutName_slashFree (kept stemmed (List.mem_of_getLast? ended))

theorem slashFree_of_plan (wellNamed : tree.root.WellNamed) (planned : Project.plan tree project = .ok plan)
    (classes : ∀ model ∈ plan.models, ∀ member ∈ model.classes, '/' ∉ member.name.toList) :
    SiteContext.SlashFree plan.models := by
  obtain ⟨_, table, records, _, listed, models, _⟩ := plan_eq_ok planned
  refine ⟨?_, classes⟩
  intro model member
  rw [models, SymbolTable.describe_eq] at member
  obtain ⟨record, listedRecord, rfl⟩ := List.mem_map.mp member
  exact record_slashFree wellNamed listed listedRecord

/-- A table that was not given was read from a file. -/
theorem exists_symbols {table : SymbolTable} (none : project.table = none) (loaded : loadTable tree project = .ok table) :
    ∃ text, tree.node? project.symbolsPath = some (.file text) := by
  unfold loadTable at loaded
  rw [none] at loaded
  simp only [SymbolTable.load, read?] at loaded
  split at loaded
  · cases loaded
  · rename_i text found
    split at found
    · rename_i held
      exact ⟨_, held⟩
    · cases found

end Planning

/-- A build succeeds with a plan and its publication. -/
theorem build_eq_ok_iff {report : BuildReport} :
    result (build project) before = (.ok report, after) ↔
      ∃ plan files, Project.plan before project = .ok plan ∧
        result (publish plan.apiPath plan.pages) before = (.ok files, after) ∧
        report = ⟨files, plan.apiPath, (SiteContext.documented plan.models).length, plan.findings⟩ := by
  unfold build
  rw [result_look_bind]
  cases planned : Project.plan before project with
  | error cause => simp
  | ok plan =>
      simp only [result_bind]
      rcases published : result (publish plan.apiPath plan.pages) before with ⟨cause | files, left⟩
      · simp [published]
      · constructor
        · intro ran
          cases ran
          exact ⟨plan, files, rfl, published, rfl⟩
        · rintro ⟨_, _, ⟨⟩, again, rfl⟩
          cases published.symm.trans again
          rfl

/-- A build that succeeded succeeds again with the same report and leaves the tree as it is, if the
package and the reference are beside each other, the symbols file is not part of the reference and
the directory of the reference looked generated, held nothing, or held something of another name.
Where it looked generated, the paths that are read must not lead through what it held. -/
theorem build_again {report : BuildReport} (wellFormed : before.root.WellFormed)
    (plain : ".." ∉ (resolve project.root project.apiDir).names)
    (apart : ¬ (resolve project.root project.apiDir).destination before.here <+:
        (resolve project.root project.packageDir).destination before.here ∧
      ¬ (resolve project.root project.packageDir).destination before.here <+:
        (resolve project.root project.apiDir).destination before.here)
    (symbolsOutside : project.table = none → ¬ (resolve project.root project.apiDir).destination before.here <+:
      project.symbolsPath.destination before.here)
    (classes : ∀ plan, Project.plan before project = .ok plan →
      ∀ model ∈ plan.models, ∀ member ∈ model.classes, '/' ∉ member.name.toList)
    (avoids : isGenerated before (resolve project.root project.apiDir) = true →
      (resolve project.root project.packageDir).Avoids before.here
          ((resolve project.root project.apiDir).destination before.here) ∧
        (project.table = none → project.symbolsPath.Avoids before.here
          ((resolve project.root project.apiDir).destination before.here)))
    (ready : isGenerated before (resolve project.root project.apiDir) = true ∨
      (∀ name, before.view ((resolve project.root project.apiDir).destination before.here ++ [name]) = none) ∨
      ∃ name, name ∉ ownNames ∧
        before.view ((resolve project.root project.apiDir).destination before.here ++ [name]) ≠ none)
    (ran : result (build project) before = (.ok report, after)) :
    result (build project) after = (.ok report, after) := by
  obtain ⟨plan, files, planned, published, rfl⟩ := build_eq_ok_iff.mp ran
  obtain ⟨located, table, records, loaded, listed, _, rendered⟩ := plan_eq_ok planned
  obtain ⟨steps, isName⟩ := steps_of_apiPath located
  have regular : ∀ page ∈ plan.pages, page.Regular := fun page =>
    SiteContext.regular_of_mem_pages (slashFree_of_plan wellFormed.wellNamed planned (classes plan planned)) rendered
  rw [← (apiPath_eq_ok located).2] at plain apart symbolsOutside avoids ready
  have afterOrdered := ordered_of_publish isName wellFormed.ordered published
  have package : after.node? (resolve project.root project.packageDir) =
      before.node? (resolve project.root project.packageDir) := by
    obtain ⟨_, isDirectory, _⟩ := enumerate_eq_ok wellFormed.wellNamed listed
    obtain ⟨node, held⟩ := exists_node?_of_isDirectory isDirectory
    rw [held]
    exact node?_publish_of_apart plain regular published (fun generated => (avoids generated).1) wellFormed.ordered
      afterOrdered apart.1 apart.2 held
  have symbols : project.table = none → after.node? project.symbolsPath = before.node? project.symbolsPath := by
    intro none
    obtain ⟨text, held⟩ := exists_symbols none loaded
    rw [held]
    exact node?_publish_of_file plain regular published (fun generated => (avoids generated).2 none) (symbolsOutside none) held
  have again : result (publish plan.apiPath plan.pages) after = (.ok files, after) := by
    rcases ready with generated | empty | ⟨name, foreign, present⟩
    · exact publish_again_of_bare plain isName regular wellFormed.ordered published steps (.inl generated)
    · refine publish_again_of_bare plain isName regular wellFormed.ordered published steps (.inr ?_)
      intro rest more
      obtain ⟨name, others, rfl⟩ := List.exists_cons_of_ne_nil more
      rw [List.append_cons]
      exact Node.view_append_of_absent (empty name) others
    · exact publish_again_of_foreign plain isName regular wellFormed.ordered published foreign present
  have garbled : after.garbled = before.garbled := by
    have kept := publish_garbled plan.apiPath before fun page member => (regular page member).toSlashFree
    rwa [published] at kept
  exact build_eq_ok_iff.mpr ⟨plan, files, (plan_congr garbled package symbols).trans planned, again, rfl⟩

/-- The source of a module beside a reference that was generated before. -/
def outdatedTree : FileTree where
  root := .directory [
    ("docs", .directory [("api", .directory [("MIKEDOC", .file ""), ("README.md", .file "old"),
      ("modules", .directory [("old", .directory [])])])]),
    ("pkg", .directory [("core.py", .file "")])]
  limits := .unlimited

theorem outdatedTree_rebuilt :
    isGenerated outdatedTree (resolve fieldProject.root fieldProject.apiDir) = true ∧
      ∃ report after, report.moduleCount = 1 ∧ result (build fieldProject) outdatedTree = (.ok report, after) ∧
        result (build fieldProject) after = (.ok report, after) := by
  have generated : isGenerated outdatedTree (resolve fieldProject.root fieldProject.apiDir) = true := by decide +kernel
  have plain : ".." ∉ (resolve fieldProject.root fieldProject.apiDir).names := by decide +kernel
  have wellFormed : outdatedTree.root.WellFormed := ⟨by decide +kernel, by decide +kernel⟩
  have planning : (Project.plan outdatedTree fieldProject).toOption.any fun plan =>
      (SiteContext.documented plan.models).length = 1 ∧
        ∀ model ∈ plan.models, ∀ member ∈ model.classes, '/' ∉ member.name.toList := by
    decide +kernel
  refine ⟨generated, ?_⟩
  cases planned : Project.plan outdatedTree fieldProject with
  | error failure =>
      rw [planned] at planning
      cases planning
  | ok plan =>
      rw [planned] at planning
      simp only [Except.toOption, Option.any_some, decide_eq_true_eq] at planning
      obtain ⟨located, _, _, _, _, _, rendered⟩ := plan_eq_ok planned
      have same := (apiPath_eq_ok located).2
      obtain ⟨after, published, _⟩ := publish_site_exists located (same ▸ plain) rfl wellFormed.ordered
        (.inl (same ▸ generated)) (slashFree_of_plan wellFormed.wellNamed planned planning.2) rendered
      have ran := build_eq_ok_iff.mpr ⟨plan, _, planned, published, rfl⟩
      refine ⟨_, after, planning.1, ran, build_again wellFormed plain (by decide +kernel) (fun none => by cases none) ?_
        (fun _ => ⟨by decide +kernel, fun none => by cases none⟩) (.inl generated) ran⟩
      intro other alsoPlanned
      cases planned.symm.trans alsoPlanned
      exact planning.2

/-- The same package under a path through what an earlier build left. -/
def detourProject : Project where
  root := ⟨"/"⟩
  packageDir := "docs/api/modules/old/../../../../pkg"
  table := some { modules := [{ name := "pkg.core" }] }

/-- The first build takes away what leads it to the package. -/
theorem detour_not_rebuilt :
    outdatedTree.root.WellFormed ∧ isGenerated outdatedTree (resolve detourProject.root detourProject.apiDir) = true ∧
      (resolve detourProject.root detourProject.apiDir).names = ["docs", "api"] ∧
      (resolve detourProject.root detourProject.apiDir).destination outdatedTree.here = ["docs", "api"] ∧
      (resolve detourProject.root detourProject.packageDir).destination outdatedTree.here = ["pkg"] ∧
      ((Project.plan outdatedTree detourProject).toOption.any fun plan => ∀ model ∈ plan.models, model.members = []) = true ∧
      (result (build detourProject) outdatedTree).1.isOk = true ∧
      (result (build detourProject) (result (build detourProject) outdatedTree).2).1.isOk = false := by
  refine ⟨⟨?_, ?_⟩, ?_, ?_, ?_, ?_, ?_, ?_, ?_⟩ <;> decide +kernel

end Project

end ApiReference
