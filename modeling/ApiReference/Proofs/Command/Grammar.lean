import ApiReference.Command.Arguments
import ApiReference.Proofs.Failure
import ApiReference.Proofs.Text.Casing
import Mathlib.Data.List.Induction

namespace ApiReference.Command

/-! The grammar of the command line. Arguments are cut into groups from the left, and what the
groups ask for can be said without the order in which they are read. -/

namespace Action

def name : Action → String
  | .init => "init"
  | .build => "build"
  | .list => "list"
  | .help => "help"

/-- The text is the name of the command, each letter of it small or capital. -/
def IsWritten (action : Action) (text : String) : Prop :=
  text.toList.map Char.toLower = action.name.toList

instance (action : Action) (text : String) : Decidable (action.IsWritten text) :=
  inferInstanceAs (Decidable (_ = _))

def written? (text : String) : Option Action :=
  [init, build, list, help].find? (·.IsWritten text)

variable {action : Action} {text : String}

theorem toLower_eq_name_iff : Text.toLower text = action.name ↔ action.IsWritten text := by
  have letters : action.name.toList.all (fun c => c < '\u0080' && c ≠ 'k') = true := by
    cases action <;> decide
  have plain : ∀ c ∈ action.name.toList, c < '\u0080' ∧ c ≠ 'k' := by
    simpa using letters
  rw [← String.toList_inj, Text.toLower, String.toList_ofList, Casing.flatMap_lower_eq_iff plain, IsWritten]

theorem ofName?_eq_some_iff : ofName? text = some action ↔ action.IsWritten text := by
  rw [← toLower_eq_name_iff]
  unfold ofName?
  split
  case h_5 noInit noBuild noList noHelp =>
      cases action
      · exact iff_of_false (by simp) noInit
      · exact iff_of_false (by simp) noBuild
      · exact iff_of_false (by simp) noList
      · exact iff_of_false (by simp) noHelp
  all_goals
    rename_i lowered
    rw [lowered]
    cases action <;> decide

theorem IsWritten.unique {other : Action} (written : other.IsWritten text) (again : action.IsWritten text) : other = action :=
  Option.some.inj ((ofName?_eq_some_iff.mpr written).symm.trans (ofName?_eq_some_iff.mpr again))

theorem written?_eq_some_iff : written? text = some action ↔ action.IsWritten text := by
  constructor
  · intro found
    simpa using List.find?_some found
  · intro written
    cases found : written? text with
    | none =>
        have absent := List.find?_eq_none.mp found action (by cases action <;> decide)
        simp [written] at absent
    | some other =>
        have same : other.IsWritten text := by simpa using List.find?_some found
        rw [same.unique written]

end Action

/-- A group of arguments that are read together. -/
inductive ArgumentGroup where
  | root (directory : String)
  | quiet
  | help
  | word (text : String)
deriving DecidableEq

namespace ArgumentGroup

/-- How a group is written. What follows a root flag belongs to it, whatever it is. -/
inductive Spells : ArgumentGroup → List String → Prop
  | root {flag : String} (known : flag ∈ ["--root", "-r"]) (directory : String) :
      Spells (.root directory) [flag, directory]
  | quiet {flag : String} (known : flag ∈ ["--quiet", "-q"]) : Spells .quiet [flag]
  | help {flag : String} (known : flag ∈ ["--help", "-h"]) : Spells .help [flag]
  | word {text : String} (other : text ∉ ["--root", "-r", "--quiet", "-q", "--help", "-h"]) :
      Spells (.word text) [text]

/-- Arguments that are cut into groups from left to right. -/
inductive Splits : List ArgumentGroup → List String → Prop
  | nil : Splits [] []
  | cons {group : ArgumentGroup} {groups : List ArgumentGroup} {first rest : List String} (spelled : group.Spells first)
      (split : Splits groups rest) : Splits (group :: groups) (first ++ rest)

def isWord : ArgumentGroup → Bool
  | .word _ => true
  | _ => false

def directory? : ArgumentGroup → Option String
  | .root directory => some directory
  | _ => none

def action? : ArgumentGroup → Option Action
  | .word text => Action.written? text
  | _ => none

/-- There is at most one word, which is the name of a command and stands before all help flags. -/
structure Accepted (groups : List ArgumentGroup) : Prop where
  named : ∀ text, .word text ∈ groups → Text.startsWith "-" text = false ∧ ∃ action : Action, action.IsWritten text
  single : groups.countP isWord ≤ 1
  beforeHelp : ∀ front back, groups = front ++ .help :: back → ∀ text, .word text ∉ back

/-- The command that groups ask for, if any. A help flag counts more than a word. -/
def command? (groups : List ArgumentGroup) : Option Action :=
  if .help ∈ groups then some .help else groups.findSome? action?

/-- What groups ask for: the last root counts, and help is given where no command is. -/
def options (groups : List ArgumentGroup) : Options where
  action := (command? groups).getD .help
  root := ⟨(groups.filterMap directory?).getLast?.getD "."⟩
  quiet := decide (.quiet ∈ groups)

/-- What has been read after groups. -/
def reading (groups : List ArgumentGroup) : Reading :=
  ⟨command? groups, (options groups).root, (options groups).quiet⟩

end ArgumentGroup

open ArgumentGroup

/-- Reads one group. Of the words, only the name of a first command is taken. -/
def Reading.read (reading : Reading) : ArgumentGroup → Except UsageError Reading
  | .root directory => .ok { reading with root := ⟨directory⟩ }
  | .quiet => .ok { reading with quiet := true }
  | .help => .ok { reading with action := some .help }
  | .word text =>
      if Text.startsWith "-" text then .error (.unknownFlag text)
      else if reading.action.isSome then .error (.unexpected text)
      else
        match Action.ofName? text with
        | some action => .ok { reading with action := some action }
        | none => .error (.unknownCommand text)

/-- Induction along the groups of arguments; the last of them may be a root flag alone. -/
@[elab_as_elim]
theorem arguments_induction {motive : List String → Prop} (nil : motive [])
    (dangling : ∀ flag, isRootFlag flag = true → motive [flag])
    (root : ∀ flag directory rest, isRootFlag flag = true → motive rest → motive (flag :: directory :: rest))
    (other : ∀ argument rest, isRootFlag argument = false → motive rest → motive (argument :: rest))
    (arguments : List String) : motive arguments := by
  induction arguments using (measure List.length).wf.induction with
  | h arguments ih =>
      cases arguments with
      | nil => exact nil
      | cons argument rest =>
          cases known : isRootFlag argument with
          | false => exact other argument rest known (ih rest (Nat.lt_succ_self _))
          | true =>
              cases rest with
              | nil => exact dangling argument known
              | cons directory rest =>
                  exact root argument directory rest known (ih rest (Nat.lt_add_of_pos_right Nat.two_pos))

namespace Reading

variable {groups : List ArgumentGroup} {group : ArgumentGroup} {before inserted : List String}

theorem arguments_dangling {flag : String} (known : isRootFlag flag = true) (reading : Reading) :
    reading.arguments [flag] = .error .missingRoot := by
  rw [arguments, if_pos known]

theorem arguments_root {flag : String} (known : isRootFlag flag = true) (reading : Reading) (directory : String)
    (rest : List String) :
    reading.arguments (flag :: directory :: rest) = { reading with root := ⟨directory⟩ : Reading }.arguments rest := by
  rw [arguments, if_pos known]

theorem arguments_cons {argument : String} (other : isRootFlag argument = false) (reading : Reading) (rest : List String) :
    reading.arguments (argument :: rest) = reading.argument argument >>= fun next => next.arguments rest := by
  have noRoot : ¬ isRootFlag argument = true := Bool.eq_false_iff.mp other
  cases rest <;> rw [arguments, if_neg noRoot] <;> cases reading.argument argument <;> rfl

theorem arguments_of_spells (spelled : group.Spells inserted) (reading : Reading) (rest : List String) :
    reading.arguments (inserted ++ rest) = reading.read group >>= fun next => next.arguments rest := by
  cases spelled with
  | root known directory =>
      rw [List.cons_append, List.singleton_append, arguments_root (by simpa [isRootFlag] using known)]
      rfl
  | quiet known =>
      rw [List.singleton_append]
      rcases List.mem_pair.mp known with rfl | rfl <;> exact arguments_cons (by decide) reading rest
  | help known =>
      rw [List.singleton_append]
      rcases List.mem_pair.mp known with rfl | rfl <;> exact arguments_cons (by decide) reading rest
  | word other =>
      simp only [List.mem_cons, List.not_mem_nil, or_false, not_or] at other
      rw [List.singleton_append, arguments_cons (by simp [isRootFlag, other])]
      simp only [argument, other, decide_false, Bool.or_self, Bool.false_eq_true, if_false]
      rfl

/-- Groups are read one after another, and the arguments after them are read by what they leave. -/
theorem arguments_of_splits (split : Splits groups before) (reading : Reading) (rest : List String) :
    reading.arguments (before ++ rest) = groups.foldlM read reading >>= fun next => next.arguments rest := by
  induction split generalizing reading with
  | nil => rfl
  | cons spelled _ ih =>
      rw [List.append_assoc, arguments_of_spells spelled, List.foldlM_cons, bind_assoc]
      simp only [ih]

theorem exists_spells {argument : String} (other : isRootFlag argument = false) :
    ∃ group : ArgumentGroup, group.Spells [argument] := by
  by_cases quiet : argument ∈ ["--quiet", "-q"]
  · exact ⟨.quiet, .quiet quiet⟩
  · by_cases help : argument ∈ ["--help", "-h"]
    · exact ⟨.help, .help help⟩
    · refine ⟨.word argument, .word ?_⟩
      simp only [isRootFlag, Bool.or_eq_false_iff, decide_eq_false_iff_not] at other
      simp only [List.mem_cons, List.not_mem_nil, or_false, not_or] at quiet help ⊢
      exact ⟨other.1, other.2, quiet.1, quiet.2, help.1, help.2⟩

/-- Arguments that are read to their end split into groups. -/
theorem exists_splits {arguments : List String} {reading : Reading} {options : Options}
    (done : reading.arguments arguments = .ok options) : ∃ groups, Splits groups arguments := by
  induction arguments using arguments_induction generalizing reading with
  | nil => exact ⟨[], .nil⟩
  | dangling flag known =>
      rw [arguments_dangling known] at done
      cases done
  | root flag directory rest known ih =>
      rw [arguments_root known] at done
      obtain ⟨groups, split⟩ := ih done
      exact ⟨.root directory :: groups, .cons (.root (by simpa [isRootFlag] using known) directory) split⟩
  | other argument rest other ih =>
      rw [arguments_cons other] at done
      obtain ⟨next, _, rested⟩ := Failure.bind_eq_ok done
      obtain ⟨group, spelled⟩ := exists_spells other
      obtain ⟨groups, split⟩ := ih rested
      exact ⟨group :: groups, .cons spelled split⟩

end Reading

namespace ArgumentGroup

variable {groups : List ArgumentGroup} {group : ArgumentGroup}

theorem countP_isWord_eq_zero_iff : groups.countP isWord = 0 ↔ ∀ text, .word text ∉ groups := by
  rw [List.countP_eq_zero]
  constructor
  · intro none text member
    exact none _ member rfl
  · intro none group member
    cases group with
    | word text => exact absurd member (none text)
    | _ => exact Bool.false_ne_true

/-- What a further group needs of those before it. -/
def Admits (groups : List ArgumentGroup) (group : ArgumentGroup) : Prop :=
  ∀ text, group = .word text → (Text.startsWith "-" text = false ∧ ∃ action : Action, action.IsWritten text) ∧
    .help ∉ groups ∧ ∀ other, .word other ∉ groups

theorem Accepted.of_concat (accepted : Accepted (groups ++ [group])) : Accepted groups ∧ Admits groups group := by
  have counted := accepted.single
  rw [List.countP_append] at counted
  refine ⟨⟨?_, Nat.le_trans (Nat.le_add_right _ _) counted, ?_⟩, ?_⟩
  · intro text member
    exact accepted.named text (List.mem_append_left _ member)
  · intro front back split text member
    exact accepted.beforeHelp front (back ++ [group]) (by simp [split]) text (List.mem_append_left _ member)
  · intro text same
    subst same
    refine ⟨accepted.named text (by simp), ?_, ?_⟩
    · intro help
      obtain ⟨front, back, split⟩ := List.append_of_mem help
      exact accepted.beforeHelp front (back ++ [.word text]) (by simp [split]) text (by simp)
    · have one : [ArgumentGroup.word text].countP isWord = 1 := rfl
      exact countP_isWord_eq_zero_iff.mp (by omega)

theorem Accepted.concat (accepted : Accepted groups) (admitted : Admits groups group) : Accepted (groups ++ [group]) := by
  refine ⟨?_, ?_, ?_⟩
  · intro text member
    rcases List.mem_append.mp member with earlier | last
    · exact accepted.named text earlier
    · exact (admitted text (List.mem_singleton.mp last).symm).1
  · rw [List.countP_append]
    cases group with
    | word text =>
        rw [countP_isWord_eq_zero_iff.mpr (admitted text rfl).2.2]
        exact Nat.le_refl 1
    | _ => exact accepted.single
  · intro front back split text member
    -- what follows a help flag is the new group alone, or follows it among the earlier groups too
    rcases List.eq_nil_or_concat back with rfl | ⟨middle, last, rfl⟩
    · cases member
    · rw [List.concat_eq_append, ← List.cons_append, ← List.append_assoc] at split
      obtain ⟨same, ended⟩ := List.append_inj' split rfl
      rw [List.concat_eq_append, ← ended] at member
      rcases List.mem_append.mp member with earlier | last
      · exact accepted.beforeHelp front middle same text earlier
      · exact (admitted text (List.mem_singleton.mp last).symm).2.1 (by simp [same])

theorem command?_eq_none_iff (accepted : Accepted groups) :
    command? groups = none ↔ .help ∉ groups ∧ ∀ text, .word text ∉ groups := by
  rw [command?]
  by_cases help : .help ∈ groups
  · simp [help]
  · rw [if_neg help, List.findSome?_eq_none_iff]
    constructor
    · intro silent
      refine ⟨help, fun text member => ?_⟩
      obtain ⟨action, written⟩ := (accepted.named text member).2
      have found := silent _ member
      rw [action?, Action.written?_eq_some_iff.mpr written] at found
      cases found
    · intro absent group member
      cases group with
      | word text => exact absurd member (absent.2 text)
      | _ => rfl

theorem admits_of_read (accepted : Accepted groups) {next : Reading} (done : (reading groups).read group = .ok next) :
    Admits groups group := by
  intro text same
  rw [same, Reading.read] at done
  split at done
  · cases done
  · rename_i relative
    split at done
    · cases done
    · rename_i unasked
      split at done
      · rename_i action named
        refine ⟨⟨by simpa using relative, action, Action.ofName?_eq_some_iff.mp named⟩, ?_⟩
        exact (command?_eq_none_iff accepted).mp (Option.not_isSome_iff_eq_none.mp unasked)
      · cases done

theorem read_of_admits (accepted : Accepted groups) (admitted : Admits groups group) :
    (reading groups).read group = .ok (reading (groups ++ [group])) := by
  cases group with
  | root directory => simp [Reading.read, reading, options, command?, directory?, action?, List.findSome?_append]
  | quiet => simp [Reading.read, reading, options, command?, directory?, action?, List.findSome?_append]
  | help => simp [Reading.read, reading, options, command?, directory?]
  | word text =>
      obtain ⟨⟨relative, action, written⟩, absent⟩ := admitted text rfl
      have unasked : command? groups = none := (command?_eq_none_iff accepted).mpr absent
      have named : Action.ofName? text = some action := Action.ofName?_eq_some_iff.mpr written
      have asked : command? (groups ++ [.word text]) = some action := by
        rw [command?, if_neg absent.1] at unasked
        rw [command?, if_neg (by simp [absent.1]), List.findSome?_append, unasked, Option.none_or,
          List.findSome?_singleton]
        exact Action.written?_eq_some_iff.mpr written
      simp [Reading.read, reading, options, relative, unasked, named, asked, directory?]

/-- Reading group after group goes through for the accepted groups alone, and ends in what they ask for. -/
theorem foldlM_read_eq_ok_iff {next : Reading} :
    groups.foldlM Reading.read {} = .ok next ↔ Accepted groups ∧ next = reading groups := by
  -- from the last group backwards: what has been read says enough of the groups to judge the next one
  induction groups using List.reverseRecOn generalizing next with
  | nil =>
      have accepted : Accepted [] := ⟨by simp, by simp, by simp⟩
      have started : reading [] = {} := rfl
      rw [List.foldlM_nil, started]
      constructor
      · intro same
        exact ⟨accepted, (Except.ok.inj same).symm⟩
      · intro same
        rw [same.2]
        rfl
  | append_singleton groups group ih =>
      simp only [List.foldlM_append, List.foldlM_cons, List.foldlM_nil, bind_pure]
      constructor
      · intro done
        obtain ⟨middle, ready, stepped⟩ := Failure.bind_eq_ok done
        obtain ⟨accepted, rfl⟩ := ih.mp ready
        have admitted := admits_of_read accepted stepped
        rw [read_of_admits accepted admitted] at stepped
        exact ⟨accepted.concat admitted, (Except.ok.inj stepped).symm⟩
      · intro target
        obtain ⟨accepted, same⟩ := target
        obtain ⟨earlier, admitted⟩ := accepted.of_concat
        rw [ih.mpr ⟨earlier, rfl⟩, same]
        exact read_of_admits earlier admitted

end ArgumentGroup

namespace Reading

/-- Whether an argument is accepted, and the command after it, depends on the command before it alone. -/
theorem action_argument {first second : Reading} (same : first.action = second.action) (argument : String) :
    (first.argument argument).map Reading.action = (second.argument argument).map Reading.action := by
  rw [Reading.argument, Reading.argument, same]
  split
  · rfl
  · split
    · rfl
    · split
      · rfl
      · split
        · rfl
        · split <;> rfl

theorem action_arguments {first second : Reading} (same : first.action = second.action) (arguments : List String) :
    (first.arguments arguments).map Options.action = (second.arguments arguments).map Options.action := by
  induction arguments using arguments_induction generalizing first second with
  | nil => exact congrArg (fun action => Except.ok (action.getD .help)) same
  | dangling flag known => rw [arguments_dangling known, arguments_dangling known]
  | root flag directory rest known ih =>
      rw [arguments_root known, arguments_root known]
      exact ih same
  | other argument rest other ih =>
      rw [arguments_cons other, arguments_cons other]
      exact Failure.map_bind_congr (action_argument same argument) fun _ _ => ih

end Reading

theorem parse_eq_ok_iff {arguments : List String} {options : Options} :
    parse arguments = .ok options ↔
      ∃ groups, Splits groups arguments ∧ Accepted groups ∧ options = ArgumentGroup.options groups := by
  have run {groups : List ArgumentGroup} (split : Splits groups arguments) :
      parse arguments = groups.foldlM Reading.read {} >>= fun next => .ok next.options := by
    have whole := Reading.arguments_of_splits split {} []
    rwa [List.append_nil] at whole
  constructor
  · intro done
    obtain ⟨groups, split⟩ := Reading.exists_splits done
    rw [run split] at done
    obtain ⟨next, folded, ended⟩ := Failure.bind_eq_ok done
    obtain ⟨accepted, rfl⟩ := foldlM_read_eq_ok_iff.mp folded
    exact ⟨groups, split, accepted, (Except.ok.inj ended).symm⟩
  · intro described
    obtain ⟨groups, split, accepted, same⟩ := described
    rw [run split, foldlM_read_eq_ok_iff.mpr ⟨accepted, rfl⟩, same]
    rfl

/-- A group that is put between others and sets no command leaves the command, or the error, as it is. -/
theorem action_parse_insert {groups : List ArgumentGroup} {group : ArgumentGroup} {before inserted : List String}
    (split : Splits groups before) (spelled : group.Spells inserted)
    (aside : group = .quiet ∨ ∃ directory, group = .root directory) (after : List String) :
    (parse (before ++ inserted ++ after)).map Options.action = (parse (before ++ after)).map Options.action := by
  rw [parse, parse, List.append_assoc, Reading.arguments_of_splits split, Reading.arguments_of_splits split]
  cases groups.foldlM Reading.read {} with
  | error failure => rfl
  | ok reading =>
      have kept : ∃ next, reading.read group = .ok next ∧ next.action = reading.action := by
        rcases aside with rfl | ⟨directory, rfl⟩ <;> exact ⟨_, rfl, rfl⟩
      obtain ⟨next, read, same⟩ := kept
      change (reading.arguments (inserted ++ after)).map Options.action = (reading.arguments after).map Options.action
      rw [Reading.arguments_of_spells spelled, read]
      exact Reading.action_arguments same after

/-- The arguments that are accepted are those of the grammar, with the options that their groups ask for. A
further quiet or root group between two groups, of whatever arguments, changes neither the command nor the error. -/
theorem parse_follows_grammar (arguments : List String) :
    (∀ options, parse arguments = .ok options ↔
      ∃ groups, Splits groups arguments ∧ Accepted groups ∧ options = ArgumentGroup.options groups) ∧
      ∀ (before after inserted : List String) (groups : List ArgumentGroup) (group : ArgumentGroup),
        arguments = before ++ after → Splits groups before → group.Spells inserted →
        (group = .quiet ∨ ∃ directory, group = .root directory) →
        (parse (before ++ inserted ++ after)).map Options.action = (parse arguments).map Options.action := by
  refine ⟨fun options => parse_eq_ok_iff, ?_⟩
  intro before after inserted groups group cut split spelled aside
  rw [cut]
  exact action_parse_insert split spelled aside after

/-- Directories that look like flags, and a command in mixed case. -/
theorem spread_options_parsed :
    parse ["-r", "--help", "BuiLd", "-q", "--root", "docs"] = .ok ⟨.build, ⟨"docs"⟩, true⟩ ∧
      (parse ["-r", "--help", "--root", "-q", "BuiLd", "-q", "--root", "docs"]).map Options.action = .ok .build := by
  obtain ⟨accepts, inserts⟩ := parse_follows_grammar ["-r", "--help", "BuiLd", "-q", "--root", "docs"]
  have lead : Splits [.root "--help"] ["-r", "--help"] := .cons (.root (by decide) "--help") .nil
  have split : Splits [.root "--help", .word "BuiLd", .quiet, .root "docs"]
      ["-r", "--help", "BuiLd", "-q", "--root", "docs"] :=
    .cons (.root (by decide) "--help") (.cons (.word (by decide)) (.cons (.quiet (by decide))
      (.cons (.root (by decide) "docs") .nil)))
  have accepted : Accepted [.root "--help", .word "BuiLd", .quiet, .root "docs"] := by
    refine ⟨?_, by decide, ?_⟩
    · intro text member
      obtain rfl : text = "BuiLd" := by simpa using member
      exact ⟨by decide, .build, by decide⟩
    · intro front back same
      have help : ArgumentGroup.help ∈ [.root "--help", .word "BuiLd", .quiet, .root "docs"] := same ▸ by simp
      exact absurd help (by decide)
  have parsed := (accepts ⟨.build, ⟨"docs"⟩, true⟩).mpr ⟨_, split, accepted, by decide⟩
  refine ⟨parsed, ?_⟩
  have inserted := inserts ["-r", "--help"] ["BuiLd", "-q", "--root", "docs"] ["--root", "-q"] _ (.root "-q") rfl lead
    (.root (by decide) "-q") (.inr ⟨"-q", rfl⟩)
  rw [parsed] at inserted
  exact inserted

end ApiReference.Command
