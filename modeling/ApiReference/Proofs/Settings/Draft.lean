import ApiReference.Proofs.FileTree.Success
import ApiReference.Proofs.OrderedMap
import ApiReference.Proofs.Settings.Extent
import ApiReference.Proofs.Text.Casing
import ApiReference.Proofs.Text.Line
import ApiReference.Proofs.Text.Replacement
import ApiReference.Settings.File

namespace ApiReference.Settings

open FileWork SettingsText

/-! The first settings file and what is loaded from it. The name of the directory goes into the
text as it is, so that it comes back only when it can stand between quotes. -/

def urlLines : List Line :=
  [.empty, .comment " project's website or README".toList, .entry "project_url".toList "/README.md".toList,
   .empty, .comment " package directory (relative path)".toList]

def apiLines : List Line :=
  [.empty, .comment " API directory (relative path)".toList, .entry "api_dir".toList "docs/api".toList,
   .empty, .comment " symbol table produced by the reflection dump (relative path)".toList,
   .entry "symbols".toList defaultSymbolsFile.toList]

/-- The lines of the first settings file. -/
def draftLines (name package : List Char) : List Line :=
  .comment " project name".toList :: .entry "project_name".toList name ::
    (urlLines ++ .entry "pkg_dir".toList package :: apiLines)

/-- The settings that the lines give. -/
def drafted (name package : String) : Settings where
  projectName := name
  projectUrl := "/README.md"
  packageDir := package
  apiDir := "docs/api"

section Lines

/-! The texts are turned into characters by a lemma: to compute them would take long. -/

theorem draftText_eq : draftText.toList = (draftLines nameMark.toList packageMark.toList).flatMap Line.write := by
  unfold draftText draftLines urlLines apiLines nameMark packageMark defaultSymbolsFile
  rw [String.toList_intercalate]
  simp only [List.map_cons, List.map_nil, String.toList_append]
  repeat rw [String.toList_ofList]
  decide +kernel

theorem urlLines_proper : urlLines.all Line.isProper = true := by
  unfold urlLines
  repeat rw [String.toList_ofList]
  decide

theorem apiLines_proper : apiLines.all Line.isProper = true := by
  unfold apiLines defaultSymbolsFile
  repeat rw [String.toList_ofList]
  decide

theorem draftLines_proper {name package : List Char} (namePlain : name.all isPlain = true)
    (packagePlain : package.all isPlain = true) : (draftLines name package).all Line.isProper = true := by
  have first : Line.isProper (.comment " project name".toList) = true := by decide
  have nameLine : Line.isProper (.entry "project_name".toList name) = true := by
    rw [Line.isProper, namePlain]
    decide
  have packageLine : Line.isProper (.entry "pkg_dir".toList package) = true := by
    rw [Line.isProper, packagePlain]
    decide
  rw [draftLines, List.all_cons, first, List.all_cons, nameLine, List.all_append, urlLines_proper, List.all_cons,
    packageLine, apiLines_proper]
  rfl

theorem guarded_urlLines (rest : List Char) : Guarded (urlLines.flatMap Line.write ++ rest) := by
  refine ⟨"\n# project's website or README\nproject_url = \"".toList,
    "README.md\"\n\n# package directory (relative path)\n".toList ++ rest, ?_⟩
  unfold urlLines
  repeat rw [String.toList_ofList]
  exact ⟨rfl, by decide, by decide, by decide, by decide⟩

theorem guarded_apiLines : Guarded (apiLines.flatMap Line.write) := by
  refine ⟨"\n# API directory (relative path)\napi_dir = \"docs".toList,
    "api\"\n\n# symbol table produced by the reflection dump (relative path)\nsymbols = \"mikedoc.json\"\n".toList, ?_⟩
  unfold apiLines defaultSymbolsFile
  repeat rw [String.toList_ofList]
  exact ⟨rfl, by decide, by decide, by decide, by decide⟩

def nameFront : List Char := (Line.comment " project name".toList).write ++ "project_name = ".toList

def packageFront : List Char := '\n' :: urlLines.flatMap Line.write ++ "pkg_dir".toList ++ [' ', '=', ' ']

def packageBack : List Char := '\n' :: apiLines.flatMap Line.write

theorem flatMap_write_draftLines (name package : List Char) :
    (draftLines name package).flatMap Line.write =
      nameFront ++ '"' :: (name ++ '"' :: (packageFront ++ '"' :: (package ++ '"' :: packageBack))) := by
  unfold draftLines nameFront packageFront packageBack
  simp only [List.flatMap_cons, List.flatMap_append, Line.write]
  repeat rw [String.toList_ofList]
  simp only [List.append_assoc, List.cons_append, List.nil_append]

theorem nameMark_absent : ∀ part ∈ [nameFront, packageFront, packageBack], ¬ nameMark.toList <:+: part := by
  unfold nameFront packageFront packageBack urlLines apiLines defaultSymbolsFile nameMark
  repeat rw [String.toList_ofList]
  decide +kernel

theorem packageMark_absent : ∀ part ∈ [nameFront, packageFront, packageBack], ¬ packageMark.toList <:+: part := by
  unfold nameFront packageFront packageBack urlLines apiLines defaultSymbolsFile packageMark
  repeat rw [String.toList_ofList]
  decide +kernel

end Lines

/-- A pattern that is not part of the fixed text is replaced in the name and in the package. -/
theorem replaceFrom_draftLines {pattern : List Char} (nonempty : pattern ≠ []) (unquoted : '"' ∉ pattern)
    (absent : ∀ part ∈ [nameFront, packageFront, packageBack], ¬ pattern <:+: part)
    (replacement name package : List Char) :
    Chars.replaceFrom pattern replacement 0 ((draftLines name package).flatMap Line.write) =
      (draftLines (Chars.replaceFrom pattern replacement 0 name)
        (Chars.replaceFrom pattern replacement 0 package)).flatMap Line.write := by
  have kept : ∀ part ∈ [nameFront, packageFront, packageBack], Chars.replaceFrom pattern replacement 0 part = part :=
    fun part member => Chars.replaceFrom_of_not_infix (absent part member)
  simp only [flatMap_write_draftLines, Chars.replaceFrom_append_cons nonempty unquoted (Nat.zero_le _)]
  rw [kept nameFront (by simp), kept packageFront (by simp), kept packageBack (by simp)]

/-- The two replacements one after the other. A mark in the name is replaced as well. -/
theorem replace_marks (name package : String) :
    Text.replace packageMark package (Text.replace nameMark name draftText) =
      String.ofList
        ((draftLines (Text.replace packageMark package name).toList package.toList).flatMap Line.write) := by
  have named : (Text.replace nameMark name draftText).toList =
      (draftLines name.toList packageMark.toList).flatMap Line.write := by
    rw [Text.replace, String.toList_ofList, draftText_eq, replaceFrom_draftLines (by decide) (by decide) nameMark_absent,
      Chars.replaceFrom_whole _ (by decide), Chars.replaceFrom_of_not_infix (by decide)]
  rw [Text.replace, named, replaceFrom_draftLines (by decide) (by decide) packageMark_absent,
    Chars.replaceFrom_whole _ (by decide), Text.replace, String.toList_ofList]

/-- The text of the first settings file is read as the lines it is made of. -/
theorem parse?_draftLines (name package : List Char) :
    SettingsText.parse? (String.ofList ((draftLines name package).flatMap Line.write)) =
      assignments? (((draftLines name package).flatMap Line.write).length + 1)
        ((draftLines name package).flatMap Line.write) := by
  have first : ∃ rest, (draftLines name package).flatMap Line.write = '#' :: rest := ⟨_, rfl⟩
  obtain ⟨rest, starts⟩ := first
  rw [SettingsText.parse?, String.toList_ofList, starts]
  simp

theorem ofAssignments?_draftLines (name package : List Char) :
    ofAssignments? ((draftLines name package).filterMap Line.entry?) =
      some (drafted (String.ofList name) (String.ofList package)) := by
  have entries : (draftLines name package).filterMap Line.entry? =
      [(String.ofList "project_name".toList, String.ofList name),
       (String.ofList "project_url".toList, String.ofList "/README.md".toList),
       (String.ofList "pkg_dir".toList, String.ofList package),
       (String.ofList "api_dir".toList, String.ofList "docs/api".toList),
       (String.ofList "symbols".toList, String.ofList defaultSymbolsFile.toList)] := rfl
  rw [entries]
  simp only [String.ofList_toList]
  rfl

theorem read_draftLines {name package : List Char} (namePlain : name.all isPlain = true)
    (packagePlain : package.all isPlain = true) :
    (SettingsText.parse? (String.ofList ((draftLines name package).flatMap Line.write))).bind ofAssignments? =
      some (drafted (String.ofList name) (String.ofList package)) := by
  rw [parse?_draftLines, assignments?_lines (draftLines_proper namePlain packagePlain), Option.bind_some,
    ofAssignments?_draftLines]

theorem ofAssignments?_eq_some {entries : List (String × String)} {settings : Settings}
    (made : ofAssignments? entries = some settings) :
    (∀ entry ∈ entries, entry.1 ∈ keys) ∧ (entries.map Prod.fst).Nodup ∧
      entries.lookup "project_name" = some settings.projectName ∧
      entries.lookup "project_url" = some settings.projectUrl ∧
      entries.lookup "pkg_dir" = some settings.packageDir ∧
      entries.lookup "api_dir" = some settings.apiDir ∧
      (entries.lookup "symbols").getD defaultSymbolsFile = settings.symbols := by
  obtain ⟨_, allowed, given⟩ := Option.bind_eq_some_iff.mp made
  obtain ⟨name, named, given⟩ := Option.bind_eq_some_iff.mp given
  obtain ⟨url, located, given⟩ := Option.bind_eq_some_iff.mp given
  obtain ⟨package, packaged, given⟩ := Option.bind_eq_some_iff.mp given
  obtain ⟨api, placed, given⟩ := Option.bind_eq_some_iff.mp given
  have checked : (entries.map Prod.fst).all keys.contains = true ∧ (entries.map Prod.fst).Nodup := by
    by_contra refused
    rw [guard, if_neg refused] at allowed
    cases allowed
  cases given
  refine ⟨fun entry member => ?_, checked.2, named, located, packaged, placed, rfl⟩
  simpa using List.all_eq_true.mp checked.1 entry.1 (List.mem_map_of_mem member)

/-- Every assignment shows in the settings. -/
theorem mem_values_of_ofAssignments? {entries : List (String × String)} {settings : Settings}
    (made : ofAssignments? entries = some settings) {entry : String × String} (member : entry ∈ entries) :
    entry ∈ settings.values := by
  obtain ⟨known, distinct, named, located, packaged, placed, symbols⟩ := ofAssignments?_eq_some made
  have found := (OrderedMap.lookup_eq_some_iff_mem distinct).mpr member
  have isKey := known entry member
  obtain ⟨key, value⟩ := entry
  simp only [keys, List.mem_cons, List.not_mem_nil, or_false] at isKey
  rcases isKey with rfl | rfl | rfl | rfl | rfl <;> simp_all [values]

/-- The name of the package in a directory. -/
def packageName (name : String) : String :=
  String.ofList (name.toList.map fun c => if c = '-' then '_' else c)

theorem defaultPackageDir_eq (tree : FileTree) (root : Path) (name : String) :
    defaultPackageDir tree root name =
      if tree.isDirectory (root.push (packageName name)) then packageName name else "src/" ++ packageName name := by
  have replaced : Text.replace "-" "_" name = packageName name := by
    rw [Text.replace, packageName]
    congr 1
    exact Chars.replaceFrom_single '-' '_' name.toList
  rw [defaultPackageDir, replaced]

theorem all_packageName {condition : Char → Bool} (same : condition '_' = condition '-') (name : String) :
    (packageName name).toList.all condition = name.toList.all condition := by
  rw [packageName, String.toList_ofList, List.all_map]
  congr 1
  funext c
  by_cases hyphen : c = '-'
  · simp [hyphen, same]
  · simp [hyphen]

theorem blind_isPlain : Casing.Blind isPlain := by
  intro c cased
  have low : ' ' ≤ c := by
    have outside := Casing.not_span_of_cased cased (by decide : (0x0000, 0x0020) ∈ Casing.caseless)
    exact Nat.le_of_lt (by simpa using outside)
  have other : ∀ d, Casing.isCaseless d.toNat = true → c ≠ d := fun _ => Casing.ne_of_cased cased
  have delete := other '\u007f' rfl
  have quote := other '"' rfl
  have backslash := other '\\' rfl
  have plain : isPlain c = true := by simp [isPlain, isPrintable, low, delete, quote, backslash]
  rw [plain]
  rfl

theorem slashFree_iff {cs : List Char} : '/' ∉ cs ↔ cs.all (· ≠ '/') = true := by
  rw [List.all_eq_true]
  constructor
  · intro absent c member
    simpa using fun same : c = '/' => absent (same ▸ member)
  · intro all member
    simpa using all _ member

theorem blind_ne_slash : Casing.Blind (· ≠ '/') := by
  intro c cased
  have other : c ≠ '/' := Casing.ne_of_cased cased rfl
  simp [other]

/-- The package directory of a project, below `src` or not. -/
def IsPackageDir (name package : String) : Prop :=
  package = packageName name ∨ package = "src/" ++ packageName name

namespace IsPackageDir

variable {name package : String}

theorem all_isPlain (isDir : IsPackageDir name package) :
    package.toList.all isPlain = name.toList.all isPlain := by
  have kept := all_packageName (by decide : isPlain '_' = isPlain '-') name
  have front : "src/".toList.all isPlain = true := by decide
  rcases isDir with rfl | rfl
  · exact kept
  · rw [String.toList_append, List.all_append, front, kept, Bool.true_and]

theorem isBlank_eq_false (isDir : IsPackageDir name package) (filled : Text.isBlank name = false) :
    Text.isBlank package = false := by
  have kept : Text.isBlank (packageName name) = false :=
    (all_packageName (by decide : Chars.isBlank '_' = Chars.isBlank '-') name).trans filled
  rcases isDir with rfl | rfl
  · exact kept
  · rw [Text.isBlank] at kept
    rw [Text.isBlank, String.toList_append, List.all_append, kept, Bool.and_false]

theorem unshown (isDir : IsPackageDir name package) (slashFree : '/' ∉ name.toList) :
    ¬ ['=', '/'].Sublist package.toList := by
  have absent : '/' ∉ (packageName name).toList := by
    have kept : (packageName name).toList.all (· ≠ '/') = name.toList.all (· ≠ '/') := all_packageName rfl name
    rw [slashFree_iff] at slashFree ⊢
    rw [kept, slashFree]
  intro shown
  rcases isDir with rfl | rfl
  · exact absent (shown.subset (by simp))
  · rw [String.toList_append] at shown
    obtain ⟨front, back, parted, inFront, inBack⟩ := List.sublist_append_iff.mp shown
    cases front with
    | nil =>
        obtain rfl : ['=', '/'] = back := parted
        exact absent (inBack.subset (by simp))
    | cons first more =>
        obtain ⟨rfl, _⟩ : '=' = first ∧ ['/'] = more ++ back := by simpa using parted
        exact absurd (inFront.subset List.mem_cons_self) (by decide)

end IsPackageDir

/-- The package comes back only when it can stand between quotes, whatever the name is. -/
theorem plain_of_read {name package : List Char} {settings : Settings}
    (read : (SettingsText.parse? (String.ofList ((draftLines name package).flatMap Line.write))).bind ofAssignments? =
      some settings)
    (unshown : ∀ entry ∈ settings.values, ¬ ['=', '/'].Sublist entry.2.toList)
    (returned : settings.packageDir = String.ofList package) : package.all isPlain = true := by
  obtain ⟨entries, assigned, made⟩ := Option.bind_eq_some_iff.mp read
  rw [parse?_draftLines] at assigned
  have parted : (draftLines name package).flatMap Line.write =
      (nameFront ++ '"' :: (name ++ ['"'])) ++ '\n' :: (urlLines.flatMap Line.write ++
        ("pkg_dir".toList ++ ' ' :: '=' :: ' ' :: '"' :: (package ++ '"' :: '\n' :: apiLines.flatMap Line.write))) := by
    rw [flatMap_write_draftLines, packageFront, packageBack]
    simp only [List.append_assoc, List.cons_append, List.nil_append]
  generalize ((draftLines name package).flatMap Line.write).length + 1 = lines at assigned
  rw [parted] at assigned
  rcases assignments?_crosses (guarded_urlLines _) assigned with ⟨fewer, later, followed, ends⟩ | ⟨entry, member, shown⟩
  · obtain ⟨least, last, followed, within⟩ := exists_of_assignments?_write urlLines_proper followed
    cases least with
    | zero => cases followed
    | succ least =>
        rw [assignments?_entry (by decide) (by decide)] at followed
        obtain ⟨⟨value, rest⟩, valued, ended⟩ := Option.bind_eq_some_iff.mp followed
        obtain ⟨left, _, mapped⟩ := Option.bind_eq_some_iff.mp ended
        obtain ⟨others, _, rfl⟩ := Option.map_eq_some_iff.mp mapped
        have listed := mem_values_of_ofAssignments? made (ends.subset (within.subset List.mem_cons_self))
        have same : String.ofList value = String.ofList package := by
          simpa [values, ← returned] using listed
        obtain rfl : value = package := String.ofList_injective same
        exact plain_of_value? guarded_apiLines (by simpa using unshown _ listed) valued
  · exact absurd shown (unshown entry (mem_values_of_ofAssignments? made member))

theorem parse_eq_ok_iff {text : String} {settings : Settings} :
    parse text = .ok settings ↔
      (SettingsText.parse? text).bind ofAssignments? = some settings ∧ settings.blankKey? = none := by
  unfold parse
  cases (SettingsText.parse? text).bind ofAssignments? with
  | none => simp
  | some found =>
      simp only [Option.some.injEq]
      cases blank : found.blankKey? with
      | none =>
          constructor
          · intro parsed
            cases parsed
            exact ⟨rfl, blank⟩
          · rintro ⟨rfl, _⟩
            rfl
      | some key =>
          constructor
          · intro failed
            cases failed
          · rintro ⟨rfl, filled⟩
            rw [blank] at filled
            cases filled

theorem blankKey?_drafted {name package : String} :
    (drafted name package).blankKey? = none ↔ Text.isBlank name = false ∧ Text.isBlank package = false := by
  have url : Text.isBlank "/README.md" = false := by decide
  have api : Text.isBlank "docs/api" = false := by decide
  have symbols : Text.isBlank defaultSymbolsFile = false := by decide
  simp [blankKey?, values, drafted, url, api, symbols]

theorem draft_eq_ok {tree : FileTree} {root : Path} {text : String} (made : draft tree root = .ok text) :
    ∃ place name, tree.absolute? root = some place ∧ place.fileName? = some name ∧
      text = Text.replace packageMark (defaultPackageDir tree place name)
        (Text.replace nameMark (Text.capitalize name) draftText) := by
  unfold draft at made
  split at made
  · cases made
  · rename_i place found
    split at made
    · cases made
    · rename_i name named
      exact ⟨place, name, found, (Option.filter_eq_some_iff.mp named).1, (Except.ok.inj made).symm⟩

theorem init_eq_ok {root : Path} {tree made : FileTree} (created : result (init root) tree = (.ok true, made)) :
    ∃ text, draft tree root = .ok text ∧ result (write (path root) text) tree = (.ok (), made) := by
  unfold init at created
  rw [result_get_bind] at created
  split at created
  · cases (pure_eq_ok created).1
  · rw [result_look_bind] at created
    cases drafting : draft tree root with
    | error failure =>
        rw [drafting] at created
        cases created
    | ok text =>
        rw [drafting] at created
        obtain ⟨_, between, written, ended⟩ := bind_eq_ok created
        obtain ⟨_, rfl⟩ := pure_eq_ok ended
        exact ⟨text, rfl, written⟩

theorem load_of_init {root : Path} {tree made : FileTree} (created : result (init root) tree = (.ok true, made)) :
    ∃ place name, tree.absolute? root = some place ∧ place.fileName? = some name ∧
      load made root = parse (Text.replace packageMark (defaultPackageDir tree place name)
        (Text.replace nameMark (Text.capitalize name) draftText)) := by
  obtain ⟨text, drafting, written⟩ := init_eq_ok created
  obtain ⟨place, name, found, named, same⟩ := draft_eq_ok drafting
  refine ⟨place, name, found, named, ?_⟩
  rw [← same]
  simp only [load, read?_of_write written]

section Loading

variable {name package : String}

/-- A name that can stand between quotes is loaded again, with the package in place of every
mark. -/
theorem parse_draft_of_plain (isDir : IsPackageDir name package) (plain : name.toList.all isPlain = true)
    (filled : Text.isBlank name = false) :
    parse (Text.replace packageMark package (Text.replace nameMark (Text.capitalize name) draftText)) =
      .ok (drafted (Text.replace packageMark package (Text.capitalize name)) package) := by
  have packagePlain : package.toList.all isPlain = true := isDir.all_isPlain.trans plain
  have namePlain : (Text.replace packageMark package (Text.capitalize name)).toList.all isPlain = true :=
    Text.all_replace ((Text.all_capitalize blind_isPlain name).trans plain) packagePlain
  have packageFilled := isDir.isBlank_eq_false filled
  have capitalized : Text.isBlank (Text.capitalize name) = false :=
    (Text.all_capitalize Casing.blind_isBlank name).trans filled
  rw [replace_marks, parse_eq_ok_iff]
  refine ⟨?_, blankKey?_drafted.mpr ⟨Text.all_replace_eq_false (by decide) capitalized packageFilled, packageFilled⟩⟩
  have read := read_draftLines namePlain packagePlain
  rwa [String.ofList_toList, String.ofList_toList] at read

theorem plain_of_parse_draft (isDir : IsPackageDir name package) (slashFree : '/' ∉ name.toList)
    (loaded : parse (Text.replace packageMark package (Text.replace nameMark (Text.capitalize name) draftText)) =
      .ok (drafted (Text.capitalize name) package)) :
    name.toList.all isPlain = true ∧ Text.isBlank name = false := by
  rw [replace_marks, parse_eq_ok_iff] at loaded
  obtain ⟨read, filled⟩ := loaded
  have capitalized : '/' ∉ (Text.capitalize name).toList := by
    rw [slashFree_iff] at slashFree ⊢
    rw [Text.all_capitalize blind_ne_slash, slashFree]
  have unshown : ∀ entry ∈ (drafted (Text.capitalize name) package).values, ¬ ['=', '/'].Sublist entry.2.toList := by
    simp only [values, drafted, List.forall_mem_cons]
    exact ⟨fun shown => capitalized (shown.subset (by simp)), by decide, isDir.unshown slashFree, by decide, by decide,
      by simp⟩
  constructor
  · rw [← isDir.all_isPlain]
    exact plain_of_read read unshown (by simp [drafted])
  · exact (Text.all_capitalize Casing.blind_isBlank name).symm.trans (blankKey?_drafted.mp filled).1

end Loading

/-- A first settings file is loaded with the capitalized name of the directory exactly if the
name can stand between quotes, is not blank and does not get a mark for the package when it is
capitalized. -/
theorem load_init {root : Path} {tree made : FileTree} (created : result (init root) tree = (.ok true, made)) :
    ∃ place name package, tree.absolute? root = some place ∧ place.fileName? = some name ∧
      package = (if tree.isDirectory (place.push (packageName name)) then packageName name
        else "src/" ++ packageName name) ∧
      (name.toList.all isPlain = true → Text.isBlank name = false →
        load made root = .ok (drafted (Text.replace packageMark package (Text.capitalize name)) package)) ∧
      (load made root = .ok (drafted (Text.capitalize name) package) ↔
        name.toList.all isPlain = true ∧ Text.isBlank name = false ∧
          (¬ packageMark.toList <:+: (Text.capitalize name).toList ∨ package = packageMark)) := by
  obtain ⟨place, name, found, named, loads⟩ := load_of_init created
  have isDir : IsPackageDir name (defaultPackageDir tree place name) := by
    rw [defaultPackageDir_eq]
    split
    · exact .inl rfl
    · exact .inr rfl
  have slashFree : '/' ∉ name.toList := (Path.isPart_of_mem_names (Path.mem_names_of_fileName? named)).slashFree
  refine ⟨place, name, _, found, named, defaultPackageDir_eq tree place name, ?_, ?_⟩
  · intro plain filled
    rw [loads]
    exact parse_draft_of_plain isDir plain filled
  · rw [loads, ← Text.replace_eq_self_iff (by decide)]
    constructor
    · intro loaded
      obtain ⟨plain, filled⟩ := plain_of_parse_draft isDir slashFree loaded
      rw [parse_draft_of_plain isDir plain filled] at loaded
      exact ⟨plain, filled, congrArg projectName (Except.ok.inj loaded)⟩
    · rintro ⟨plain, filled, kept⟩
      rw [parse_draft_of_plain isDir plain filled, kept]

/-- A directory for which all goes well, and one with a quote in its name. -/
def shelf : FileTree where
  root := .directory [("a\"b", .directory []), ("my-lib", .directory [("my_lib", .directory [])])]
  limits := .unlimited

theorem quote_in_name_not_loaded :
    (∃ made, result (init ⟨"/my-lib"⟩) shelf = (.ok true, made) ∧
      load made ⟨"/my-lib"⟩ = .ok (drafted "My-lib" "my_lib")) ∧
    ∃ made, result (init ⟨"/a\"b"⟩) shelf = (.ok true, made) ∧
      load made ⟨"/a\"b"⟩ ≠ .ok (drafted "A\"b" "src/a\"b") := by
  have plainly : result (init ⟨"/my-lib"⟩) shelf = (.ok true, (result (init ⟨"/my-lib"⟩) shelf).2) := rfl
  have quoting : result (init ⟨"/a\"b"⟩) shelf = (.ok true, (result (init ⟨"/a\"b"⟩) shelf).2) := rfl
  refine ⟨⟨_, plainly, ?_⟩, _, quoting, ?_⟩
  · obtain ⟨place, name, package, found, named, packaged, _, loads⟩ := load_init plainly
    obtain rfl : ⟨"/my-lib"⟩ = place := Option.some.inj ((by decide +kernel : _ = some _).symm.trans found)
    obtain rfl : "my-lib" = name := Option.some.inj ((by decide +kernel : _ = some _).symm.trans named)
    obtain rfl : package = "my_lib" := packaged.trans (by decide +kernel)
    have capitalized : Text.capitalize "my-lib" = "My-lib" := by decide
    rw [capitalized] at loads
    exact loads.mpr ⟨by decide, by decide, .inl (by decide)⟩
  · obtain ⟨place, name, package, found, named, packaged, _, loads⟩ := load_init quoting
    obtain rfl : ⟨"/a\"b"⟩ = place := Option.some.inj ((by decide +kernel : _ = some _).symm.trans found)
    obtain rfl : "a\"b" = name := Option.some.inj ((by decide +kernel : _ = some _).symm.trans named)
    obtain rfl : package = "src/a\"b" := packaged.trans (by decide +kernel)
    have capitalized : Text.capitalize "a\"b" = "A\"b" := by decide
    rw [capitalized] at loads
    exact fun loaded => absurd (loads.mp loaded).1 (by decide)

end ApiReference.Settings
