import ApiReference.Project.Build
import ApiReference.Proofs.Model.Inspection
import ApiReference.Proofs.Publication.Repetition

namespace ApiReference.Project

open FileTree FileWork Publication

/-! What a build that fails leaves behind: everything as it was, as long as the pages are not
ready, and what the publication did otherwise. -/

/-- A build fails while it plans and changes nothing, or the file tree refuses the publication. -/
theorem build_eq_error {project : Project} {before after : FileTree} {failure : Failure}
    (failed : result (build project) before = (.error failure, after)) :
    (Project.plan before project = .error failure ∧ after = before) ∨
      ∃ plan, Project.plan before project = .ok plan ∧ failure = .fileTree ∧
        after = (result (publish plan.apiPath plan.pages) before).2 := by
  unfold build at failed
  rw [result_look_bind] at failed
  cases planned : Project.plan before project with
  | error cause =>
      rw [planned] at failed
      cases failed
      exact .inl ⟨rfl, rfl⟩
  | ok plan =>
      rw [planned] at failed
      simp only [result_bind] at failed
      rcases published : result (publish plan.apiPath plan.pages) before with ⟨cause | files, left⟩
      · rw [published] at failed
        cases failed
        have only := publish_failsOnly plan.apiPath plan.pages before failure after published
        exact .inr ⟨plan, rfl, only, by rw [published]⟩
      · rw [published] at failed
        cases failed

section Refusal

variable {project : Project} {before : FileTree} {plan : BuildPlan}

/-- A build that plans a page with a name that is too long is refused. -/
theorem build_refused (planned : Project.plan before project = .ok plan) (plain : ".." ∉ plan.apiPath.names)
    (proper : ∀ page ∈ plan.pages, page.Proper) {page : Page} (member : page ∈ plan.pages)
    (filled : page.isBlank = false) (long : before.limits.admitsName page.basename = false) :
    ∃ after, result (build project) before = (.error .fileTree, after) := by
  unfold build
  rw [result_look_bind, planned]
  simp only [result_bind]
  rcases published : result (publish plan.apiPath plan.pages) before with ⟨failure | files, after⟩
  · obtain rfl := publish_failsOnly plan.apiPath plan.pages before failure after published
    exact ⟨after, rfl⟩
  · obtain ⟨_, _, _, limits, _, laid, fits⟩ := publish_eq_ok plain proper published
    have ofPage := proper page member
    have named : page.basename ∈ (plan.apiPath.join page.location).names := by
      rw [Path.join, Path.names_push _ (Page.location_relative ofPage.toSlashFree), List.mem_append]
      exact .inr (by simp [Page.location_names_of_proper ofPage])
    have admitted := (fits.pages page member filled).1.names _ named
    rw [laid.limits, limits, long] at admitted
    cases admitted

/-- Once the modules are described, there is a plan. -/
theorem exists_plan {api : Path} {table : SymbolTable} {found : List ModuleModel × List Finding}
    (located : apiPath project.root project.apiDir = .ok api) (loaded : loadTable before project = .ok table)
    (browsed : browse before project table = .ok found) :
    ∃ plan, Project.plan before project = .ok plan ∧ plan.apiPath = api ∧
      project.siteContext.pages found.1 = .ok plan.pages := by
  obtain ⟨pages, rendered⟩ := project.siteContext.exists_pages found.1
  refine ⟨⟨api, found.1, found.2, pages⟩, ?_, rfl, rendered⟩
  unfold Project.plan
  rw [located, loaded]
  simp only [bind, Except.bind, browsed, rendered]
  rfl

end Refusal

/-- A build that fails before its pages are ready leaves the tree as it was. After that only the
file tree can refuse: then nothing outside the directory of the reference is touched but for
directories made above it, and a file inside that is no page of the build is kept exactly when the
directory did not look generated. -/
theorem build_failure_effect {project : Project} {before after : FileTree} {failure : Failure}
    (failed : result (build project) before = (.error failure, after)) :
    (∀ cause, Project.plan before project = .error cause → failure = cause ∧ after = before) ∧
      ∀ plan, Project.plan before project = .ok plan →
        failure = .fileTree ∧
          ((∀ page ∈ plan.pages, page.SlashFree) → ∀ rest, rest ≠ [] →
            (∀ text, (rest, Shape.file text) ∉ contents plan.pages) → ∀ text,
              (after.view (plan.apiPath.destination before.here ++ rest) = some (.file text) ↔
                isGenerated before plan.apiPath = false ∧
                  before.view (plan.apiPath.destination before.here ++ rest) = some (.file text))) ∧
          (".." ∉ plan.apiPath.names → (∀ page ∈ plan.pages, page.Proper) →
            ∀ location, ¬ plan.apiPath.destination before.here <+: location →
              after.view location = before.view location ∨
                location <+: plan.apiPath.destination before.here ∧ before.view location = none ∧
                  after.view location = some .directory) := by
  rcases build_eq_error failed with ⟨planned, same⟩ | ⟨plan, planned, only, left⟩
  · rw [planned]
    refine ⟨?_, ?_⟩
    · rintro cause ⟨⟩
      exact ⟨rfl, same⟩
    · rintro plan ⟨⟩
  · rw [planned]
    refine ⟨?_, ?_⟩
    · rintro cause ⟨⟩
    · rintro _ ⟨⟩
      refine ⟨only, ?_, ?_⟩
      · intro slashFree rest more untouched text
        rw [left]
        exact view_publish_eq_file_iff plan.apiPath before slashFree more untouched
      · intro plain proper location outside
        rw [left]
        exact publish_outside plain proper before outside

/-- A module with one field. -/
def fieldProject : Project where
  root := ⟨"/"⟩
  packageDir := "pkg"
  table := some {
    modules := [{ name := "pkg.core", attributes := ⟨[("limit", .ofData "pkg.core" "1")], by decide⟩ }] }

/-- The source of the module, and in the directory of the reference some notes and a directory
where the home page belongs. -/
def blockedTree : FileTree where
  root := .directory [
    ("docs", .directory [("api", .directory [("README.md", .directory []), ("notes.md", .file "kept")])]),
    ("pkg", .directory [("core.py", .file "")])]
  limits := .unlimited

/-- The notes are kept, but the marker is left behind. -/
theorem failed_build_leaves_marker :
    ∃ after, result (build fieldProject) blockedTree = (.error .fileTree, after) ∧
      after.view ["docs", "api", "notes.md"] = some (.file "kept") ∧
      blockedTree.view ["docs", "api", "MIKEDOC"] = none ∧
      after.view ["docs", "api", "MIKEDOC"] = some (.file markerText) := by
  have failing : (result (build fieldProject) blockedTree).1.isOk = false := by decide +kernel
  have marked : (result (build fieldProject) blockedTree).2.view ["docs", "api", "MIKEDOC"] =
      some (.file markerText) := by
    decide +kernel
  have planning : (Project.plan blockedTree fieldProject).toOption.any fun plan =>
      plan.apiPath = ⟨"/docs/api"⟩ ∧ ∀ page ∈ plan.pages, page.SlashFree ∧ ["notes.md"] ≠ page.location.names := by
    decide +kernel
  rcases ran : result (build fieldProject) blockedTree with ⟨failure | report, after⟩
  · rw [ran] at marked
    have effect := build_failure_effect ran
    cases planned : Project.plan blockedTree fieldProject with
    | error cause =>
        rw [planned] at planning
        cases planning
    | ok plan =>
        rw [planned] at planning
        simp only [Except.toOption, Option.any_some, decide_eq_true_eq] at planning
        obtain ⟨apiPath, pages⟩ := planning
        obtain ⟨rfl, kept, _⟩ := effect.2 plan planned
        have leads : (Path.mk "/docs/api").destination blockedTree.here = ["docs", "api"] := by decide +kernel
        have foreign : isGenerated blockedTree ⟨"/docs/api"⟩ = false := by decide +kernel
        have notes := kept (fun page member => (pages page member).1) ["notes.md"] (by decide)
          (not_mem_contents (by decide) (by decide) fun page member _ => (pages page member).2) "kept"
        rw [apiPath, leads] at notes
        exact ⟨after, rfl, notes.mpr ⟨foreign, by decide +kernel⟩, by decide +kernel, marked⟩
  · rw [ran] at failing
    cases failing

/-- The name of a class whose page would have a longer name than files may have. -/
def longName : String := String.ofList (List.replicate 300 'A')

def longRecord : ModuleRecord where
  name := "pkg.core"
  attributes := ⟨[(longName, .ofClass "pkg.core" "pkg.core.Long")], by simp⟩

def longNamedProject : Project where
  root := ⟨"/"⟩
  packageDir := "pkg"
  table := some { modules := [longRecord] }

/-- The source of the module beside a reference that was generated when it had another class. -/
def referenceTree : FileTree where
  root := .directory [
    ("docs", .directory [("api", .directory [("MIKEDOC", .file markerText), ("README.md", .file "# Project"),
      ("modules", .directory [("pkg", .directory [("core", .directory [("class-Old.md", .file "# Old")])])])])]),
    ("pkg", .directory [("core.py", .file "")])]
  limits := .usual

theorem toList_longName : longName.toList = List.replicate 300 'A' := String.toList_ofList

theorem not_mem_longName {c : Char} (other : c ≠ 'A') : c ∉ longName.toList := by
  rw [toList_longName]
  exact fun member => other (List.eq_of_mem_replicate member)

theorem documented_longRecord : longRecord.documented = [(longName, .ofClass "pkg.core" "pkg.core.Long")] := by
  have unreserved : isReservedName longName = false := by
    rw [← Bool.not_eq_true, isReservedName, Text.startsWith, List.isPrefixOf_iff_prefix]
    exact fun opening => @not_mem_longName '_' (by decide) (opening.subset (by decide))
  simp [ModuleRecord.documented, longRecord, ModuleRecord.documents, unreserved, AttributeRecord.ofClass, rank, rankInto]

theorem names_longNamed (context : SiteContext) :
    (context.drafts ((SymbolTable.mk [longRecord] ∅).describe [longRecord]).1).map
        (fun draft => (draft.moduleName, draft.basename)) =
      [(some "pkg.core", Page.homeName), (some "pkg.core", Page.className longName), (none, Page.homeName)] := by
  rw [SymbolTable.describe_eq]
  simp only [List.map_cons, List.map_nil, Inspection.moduleOf, documented_longRecord]
  rfl

/-- What the pages of the project are called, and where they are not stored. -/
theorem page_of_longNamed {context : SiteContext} {pages : List Page}
    (rendered : context.pages ((SymbolTable.mk [longRecord] ∅).describe [longRecord]).1 = .ok pages) :
    (∃ page ∈ pages, page.basename = Page.className longName) ∧
      ∀ page ∈ pages, page.Proper ∧ page.location.names.getLast? ≠ some "class-Old.md" := by
  have names := (SiteContext.pages_names rendered).trans (names_longNamed context)
  constructor
  · have listed : (some "pkg.core", Page.className longName) ∈ pages.map fun page => (page.moduleName, page.basename) := by
      simp [names]
    obtain ⟨page, member, same⟩ := List.mem_map.mp listed
    exact ⟨page, member, congrArg Prod.snd same⟩
  · intro page member
    have known : (page.moduleName, page.basename) ∈ pages.map fun page => (page.moduleName, page.basename) :=
      List.mem_map_of_mem member
    rw [names] at known
    obtain ⟨ofModule, basename⟩ : page.moduleName ∈ [some "pkg.core", none] ∧
        page.basename ∈ [Page.homeName, Page.className longName] := by
      simp only [List.mem_cons, Prod.mk.injEq, List.not_mem_nil, or_false] at known ⊢
      rcases known with ⟨ofModule, home⟩ | ⟨ofModule, ofClass⟩ | ⟨none, home⟩
      · exact ⟨.inl ofModule, .inl home⟩
      · exact ⟨.inl ofModule, .inr ofClass⟩
      · exact ⟨.inr none, .inl home⟩
    have slashFree : '/' ∉ longName.toList := not_mem_longName (by decide)
    rw [List.mem_cons, List.mem_singleton] at basename
    obtain ⟨nameFree, named, _⟩ : '/' ∉ page.basename.toList ∧ page.basename ∉ ["", ".", ".."] ∧ '.' ∈ page.basename.toList :=
      SiteContext.basename_regular (basename.imp (fun home => by simp [home]) fun ofClass => ⟨longName, slashFree, ofClass⟩)
    have moduleFree : ∀ moduleName ∈ [some "pkg.core", none], ∀ name ∈ moduleName, '/' ∉ name.toList := by decide
    have proper : page.Proper := ⟨⟨nameFree, moduleFree page.moduleName ofModule⟩, named⟩
    refine ⟨proper, ?_⟩
    rw [Page.location_names_of_proper proper, List.getLast?_concat]
    intro same
    rw [Option.some.inj same] at basename
    rcases basename with home | ofClass
    · exact absurd home (by decide)
    · have short : "Old" = longName := SiteContext.className_injective ofClass
      exact @not_mem_longName 'O' (by decide) (short ▸ by decide)

/-- A page of the generated reference is gone after a build that fails at one of its own pages. -/
theorem failed_build_loses_reference :
    ∃ after, result (build longNamedProject) referenceTree = (.error .fileTree, after) ∧
      isGenerated referenceTree ⟨"/docs/api"⟩ = true ∧
      referenceTree.view ["docs", "api", "modules", "pkg", "core", "class-Old.md"] = some (.file "# Old") ∧
      ∀ text, after.view ["docs", "api", "modules", "pkg", "core", "class-Old.md"] ≠ some (.file text) := by
  have located : apiPath longNamedProject.root longNamedProject.apiDir = .ok ⟨"/docs/api"⟩ := by decide +kernel
  have listed : (enumerate referenceTree ⟨[longRecord], ∅⟩ ⟨"/"⟩ "pkg" {}).1 = .ok [longRecord] := by decide +kernel
  have browsed : browse referenceTree longNamedProject ⟨[longRecord], ∅⟩ =
      .ok ((SymbolTable.mk [longRecord] ∅).describe [longRecord]) := congrArg (Except.map _) listed
  obtain ⟨plan, planned, api, rendered⟩ := exists_plan located rfl browsed
  obtain ⟨⟨long, member, named⟩, others⟩ := page_of_longNamed rendered
  have proper := fun page listed => (others page listed).1
  have filled := SiteContext.filled_of_mem_pages rendered member
  have refused : referenceTree.limits.admitsName long.basename = false := by
    rw [named]
    decide +kernel
  have plain : ".." ∉ plan.apiPath.names := by
    rw [api]
    decide +kernel
  have generated : isGenerated referenceTree ⟨"/docs/api"⟩ = true := by decide +kernel
  obtain ⟨after, ran⟩ := build_refused planned plain proper member filled refused
  refine ⟨after, ran, generated, by decide +kernel, ?_⟩
  rcases build_eq_error ran with ⟨failed, _⟩ | ⟨_, again, _, left⟩
  · rw [planned] at failed
    cases failed
  · rw [planned] at again
    cases again
    have leads : plan.apiPath.destination referenceTree.here = ["docs", "api"] := by
      rw [api]
      decide +kernel
    have kept := @view_publish_eq_file_iff plan.apiPath _ referenceTree (fun page listed => (proper page listed).toSlashFree)
      ["modules", "pkg", "core", "class-Old.md"] (by decide)
      (not_mem_contents (by decide) (by decide) fun page listed _ same => (others page listed).2 (same ▸ rfl))
    rw [leads] at kept
    intro text stands
    rw [left] at stands
    have foreign := (kept.mp stands).1
    rw [api, generated] at foreign
    cases foreign

end ApiReference.Project
