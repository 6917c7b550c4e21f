import ApiReference.Proofs.Project.Enumeration
import ApiReference.Proofs.Publication.Addresses

namespace ApiReference

/-! Source files, the names of their modules and the addresses they are shown under. Where no name
holds a dot, a name is the way of its file with dots for slashes, and the address undoes that. -/

namespace Text

theorem intercalate_append_last (separator : String) (front : List String) (last tail : String) :
    separator.intercalate (front ++ [last]) ++ tail = separator.intercalate (front ++ [last ++ tail]) := by
  cases front with
  | nil => simp
  | cons first more =>
      rw [String.intercalate_append_of_ne_nil (by simp) (by simp), String.intercalate_append_of_ne_nil (by simp) (by simp),
        String.intercalate_singleton, String.intercalate_singleton, String.append_assoc]

end Text

namespace Path

theorem names_append_slashes (text : String) (count : Nat) :
    (Path.mk (text ++ String.ofList (List.replicate count '/'))).names = (Path.mk text).names := by
  induction count with
  | zero => simp
  | succ count ih =>
      have written : text ++ String.ofList (List.replicate (count + 1) '/') =
          text ++ String.ofList (List.replicate count '/') ++ "/" ++ "" := by
        apply String.toList_injective
        simp [List.replicate_succ']
      have idle : (Path.mk "").names = [] := rfl
      rw [written, names_append_slash, ih, idle, List.append_nil]

end Path

namespace Project

open ApiReference.Path
open Node (ProperName)

/-- A directory that is written with single slashes between its parts. A single dot or nothing may
stand before a slash in front of them, and slashes may follow. -/
def Spells (directory : String) (parts : List String) : Prop :=
  ∃ lead ∈ ["", "./", "/"], ∃ slashes : Nat,
    directory = lead ++ "/".intercalate parts ++ String.ofList (List.replicate slashes '/')

/-- The parts of a directory that can be that of a package: it is not hidden, and its name is
one word of a module name. -/
structure IsPackage (parts : List String) (package : String) : Prop where
  ends : parts.getLast? = some package
  plain : ∀ part ∈ parts, part ∉ ["", ".", ".."] ∧ '/' ∉ part.toList
  visible : ∀ first, parts.head? = some first → first.toList.head? ≠ some '.'
  undotted : '.' ∉ package.toList

/-- A name that can stand between the dots of a module name. -/
structure IsWord (name : String) : Prop where
  nonempty : name ≠ ""
  undotted : '.' ∉ name.toList
  slashFree : '/' ∉ name.toList

/-- The file of a module: the parts of its package and the directories below it are pushed onto the
root one by one, and then the name of the module with the extension of source files. -/
def sourceFile (root : Path) (parts directories : List String) (stem : String) : Path :=
  root.pushAll (parts ++ directories ++ [stem ++ ".py"])

/-- The dotted name of a module in a package. -/
def dottedName (package : String) (directories : List String) (stem : String) : String :=
  ".".intercalate (package :: directories ++ [stem])

namespace IsWord

variable {name : String}

theorem properName (word : IsWord name) : ProperName name := by
  have ne_of_dotted : ∀ {other : String}, '.' ∈ other.toList → name ≠ other := fun dotted same =>
    word.undotted (same ▸ dotted)
  have idle : isIdle name = false := by
    simp [isIdle, word.nonempty, ne_of_dotted (show '.' ∈ ".".toList by decide)]
  exact ⟨⟨word.slashFree, idle⟩, ne_of_dotted (by decide)⟩

theorem properName_source (word : IsWord name) : ProperName (name ++ ".py") := by
  have slashFree : '/' ∉ (name ++ ".py").toList := by
    rw [String.toList_append, List.mem_append, not_or]
    exact ⟨word.slashFree, by decide⟩
  have ne_of_ending : ∀ {other : String}, other.toList.getLast? ≠ some 'y' → name ++ ".py" ≠ other := fun ending same =>
    ending (by simp [← same])
  have idle : isIdle (name ++ ".py") = false := by
    simp [isIdle, ne_of_ending (show ".".toList.getLast? ≠ some 'y' by decide)]
  exact ⟨⟨slashFree, idle⟩, ne_of_ending (by decide)⟩

theorem cutName_source (word : IsWord name) : cutName (name ++ ".py") = (name, some "py") := by
  have cut : Text.splitLast? '.' (name ++ ".py") = some (name, "py") :=
    (Text.splitLast?_eq_some_iff (by decide)).mpr (by simp)
  rw [cutName, cut]
  exact if_neg word.nonempty

end IsWord

section Package

variable {packageDir package : String} {parts : List String}

theorem IsPackage.isPart (isPackage : IsPackage parts package) {part : String} (member : part ∈ parts) : IsPart part := by
  obtain ⟨named, slashFree⟩ := isPackage.plain part member
  simp only [List.mem_cons, not_or] at named
  exact ⟨slashFree, by simp [isIdle, named.1, named.2.1]⟩

theorem IsPackage.ne_nil (isPackage : IsPackage parts package) : parts ≠ [] := by
  rintro rfl
  cases isPackage.ends

theorem IsPackage.names (isPackage : IsPackage parts package) : (Path.mk ("/".intercalate parts)).names = parts :=
  names_intercalate fun _ => isPackage.isPart

theorem Spells.parts_eq (spelled : Spells packageDir parts) (isPackage : IsPackage parts package) :
    Project.parts packageDir = parts := by
  obtain ⟨lead, listed, slashes, rfl⟩ := spelled
  rw [parts_eq_names, names_append_slashes]
  simp only [List.mem_cons, List.not_mem_nil, or_false] at listed
  rcases listed with rfl | rfl | rfl
  · rw [String.empty_append, isPackage.names]
  · have dotted := names_append_slash "." ("/".intercalate parts)
    rw [isPackage.names] at dotted
    exact dotted
  · have rooted := names_append_slash "" ("/".intercalate parts)
    rw [isPackage.names] at rooted
    exact rooted

theorem IsPackage.ne_empty (isPackage : IsPackage parts package) {part : String} (member : part ∈ parts) : part ≠ "" := by
  rintro rfl
  exact absurd (isPackage.isPart member).active (by decide)

theorem IsPackage.opening (isPackage : IsPackage parts package) : ("/".intercalate parts).toList.head? ≠ some '.' := by
  obtain ⟨first, more, rfl⟩ := List.exists_cons_of_ne_nil isPackage.ne_nil
  rw [Text.head?_intercalate (isPackage.ne_empty List.mem_cons_self)]
  exact isPackage.visible first rfl

theorem IsPackage.ending (isPackage : IsPackage parts package) : ("/".intercalate parts).toList.getLast? ≠ some '.' := by
  obtain ⟨front, rfl⟩ := List.getLast?_eq_some_iff.mp isPackage.ends
  rw [Text.getLast?_intercalate (isPackage.ne_empty (by simp))]
  exact fun dot => isPackage.undotted (List.mem_of_getLast? dot)

theorem Spells.bareDir_eq (spelled : Spells packageDir parts) (isPackage : IsPackage parts package) :
    Address.bareDir packageDir = "/".intercalate parts := by
  have own := spelled.parts_eq isPackage
  have plain : PlainlyWritten packageDir := by
    obtain ⟨lead, _, slashes, written⟩ := spelled
    refine ⟨?_, own ▸ isPackage.opening, own ▸ isPackage.ending⟩
    rw [own]
    exact ⟨lead.toList, List.replicate slashes '/', by simp [written]⟩
  rw [(bareDir_eq_iff (own ▸ isPackage.ne_nil)).mpr plain, own]

variable {directories : List String} {stem : String}

theorem properName_of_words (words : ∀ name ∈ directories ++ [stem], IsWord name) :
    ∀ name ∈ directories ++ [stem ++ ".py"], ProperName name := by
  intro name member
  rcases List.mem_append.mp member with member | last
  · exact (words name (List.mem_append_left _ member)).properName
  · rw [List.mem_singleton.mp last]
    exact (words stem (by simp)).properName_source

/-- A source file is reached from the root by the steps of its package and then by its own. -/
theorem components_sourceFile (root : Path) (isPackage : IsPackage parts package)
    (words : ∀ name ∈ directories ++ [stem], IsWord name) :
    (sourceFile root parts directories stem).components =
      root.components ++ (parts ++ directories ++ [stem ++ ".py"]).map pieceComponent := by
  refine components_pushAll root ?_
  rw [List.append_assoc]
  intro part member
  rcases List.mem_append.mp member with member | member
  · exact isPackage.isPart member
  · exact (properName_of_words words part member).toIsPart

theorem moduleName?_sourceFile (root : Path) (spelled : Spells packageDir parts) (isPackage : IsPackage parts package)
    (words : ∀ name ∈ directories ++ [stem], IsWord name) :
    moduleName? root packageDir (sourceFile root parts directories stem) = some (dottedName package directories stem) := by
  have own := spelled.parts_eq isPackage
  have below : sourceFile root parts directories stem = (resolve root packageDir).pushAll (directories ++ [stem ++ ".py"]) := by
    rw [resolve, own, ← pushAll_append, ← List.append_assoc]
    rfl
  obtain ⟨front, ended⟩ := List.getLast?_eq_some_iff.mp isPackage.ends
  have down : package ≠ ".." := fun up => absurd isPackage.undotted (by rw [up]; decide)
  have legible : (directories ++ [stem ++ ".py"]).filter (· ∉ ([] : List String)) = directories ++ [stem ++ ".py"] := by simp
  rw [below, moduleName?_below (own.trans ended) (properName_of_words words), if_neg down, legible, List.getLast?_concat,
    List.dropLast_concat, Option.map_some, (words stem (by simp)).cutName_source]
  rfl

theorem splitOn_dottedName (isPackage : IsPackage parts package) (words : ∀ name ∈ directories ++ [stem], IsWord name) :
    Text.splitOn '.' (dottedName package directories stem) = package :: directories ++ [stem] := by
  refine Text.splitOn_intercalate_of_not_mem (by simp) ?_
  intro name member
  rcases List.mem_cons.mp member with rfl | member
  · exact isPackage.undotted
  · exact (words name member).undotted

theorem ofSource_dottedName (spelled : Spells packageDir parts) (isPackage : IsPackage parts package)
    (words : ∀ name ∈ directories ++ [stem], IsWord name) :
    Address.ofSource packageDir (dottedName package directories stem) =
      "/" ++ "/".intercalate (parts ++ directories ++ [stem ++ ".py"]) := by
  rw [Address.ofSource, spelled.bareDir_eq isPackage, splitOn_dottedName isPackage words]
  calc "/" ++ "/".intercalate parts ++ "/" ++ "/".intercalate (directories ++ [stem]) ++ ".py"
      = "/" ++ ("/".intercalate parts ++ "/" ++ ("/".intercalate (directories ++ [stem]) ++ ".py")) := by
        simp only [String.append_assoc]
    _ = "/" ++ "/".intercalate (parts ++ directories ++ [stem ++ ".py"]) := by
        rw [Text.intercalate_append_last, ← String.intercalate_append_of_ne_nil isPackage.ne_nil (by simp),
          List.append_assoc]

/-- The file of a module in a package, its dotted name and its address say the same: the name is that
of the package, the directories and the file joined by dots, and the address made of the name is the
way from the root to the file. So files of one package that get the same name are the same file. -/
theorem source_named (root : Path) (isPackage : IsPackage parts package) (spelled : Spells packageDir parts)
    (words : ∀ name ∈ directories ++ [stem], IsWord name) :
    moduleName? root packageDir (sourceFile root parts directories stem) =
        some (".".intercalate (package :: directories ++ [stem])) ∧
      Address.ofSource packageDir (".".intercalate (package :: directories ++ [stem])) =
        "/" ++ "/".intercalate (parts ++ directories ++ [stem ++ ".py"]) ∧
      Publication.LeadsTo root (sourceFile root parts directories stem)
        (Address.ofSource packageDir (".".intercalate (package :: directories ++ [stem]))) ∧
      ∀ otherDir otherDirectories otherStem, Spells otherDir parts →
        (∀ name ∈ otherDirectories ++ [otherStem], IsWord name) →
        moduleName? root packageDir (sourceFile root parts directories stem) =
          moduleName? root otherDir (sourceFile root parts otherDirectories otherStem) →
        sourceFile root parts directories stem = sourceFile root parts otherDirectories otherStem := by
  have address := ofSource_dottedName spelled isPackage words
  refine ⟨moduleName?_sourceFile root spelled isPackage words, address, ?_, ?_⟩
  · exact ⟨_, componentsAfter?_eq_some_iff.mpr (components_sourceFile root isPackage words), address⟩
  · intro otherDir otherDirectories otherStem otherSpelled otherWords same
    rw [moduleName?_sourceFile root spelled isPackage words,
      moduleName?_sourceFile root otherSpelled isPackage otherWords, Option.some.injEq] at same
    have pieces := congrArg (Text.splitOn '.') same
    rw [splitOn_dottedName isPackage words, splitOn_dottedName isPackage otherWords] at pieces
    obtain ⟨directoriesSame, stemSame⟩ := List.append_inj' (List.cons.inj pieces).2 rfl
    rw [directoriesSame, (List.cons.inj stemSame).1]

/-- A module two directories deep, in a package that is not written in the shortest way. -/
theorem nested_source_named :
    IsPackage ["src", "my_project"] "my_project" ∧ Spells "./src/my_project//" ["src", "my_project"] ∧
      moduleName? ⟨"/project"⟩ "./src/my_project//" ⟨"/project/src/my_project/package1/module1.py"⟩ =
        some "my_project.package1.module1" ∧
      Address.ofSource "./src/my_project//" "my_project.package1.module1" = "/src/my_project/package1/module1.py" := by
  have isPackage : IsPackage ["src", "my_project"] "my_project" :=
    ⟨rfl, by decide, fun first found => by cases found; decide, by decide⟩
  have spelled : Spells "./src/my_project//" ["src", "my_project"] := ⟨"./", by decide, 2, by decide⟩
  have words : ∀ name ∈ ["package1"] ++ ["module1"], IsWord name := by
    intro name member
    simp only [List.cons_append, List.nil_append, List.mem_cons, List.not_mem_nil, or_false] at member
    rcases member with rfl | rfl <;> exact ⟨by decide, by decide, by decide⟩
  obtain ⟨named, address, _⟩ := source_named ⟨"/project"⟩ isPackage spelled words
  exact ⟨isPackage, spelled, named, address⟩

end Package

end Project

end ApiReference
