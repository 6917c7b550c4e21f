import ApiReference.Listing.Basic
import ApiReference.Proofs.Docstring.Tidy
import ApiReference.Proofs.Listing.Signals

namespace ApiReference

/-! Coloured and plain listings. What a listing shows comes from the strings of the models, so that
without an escape in these the sequences of the styles are all that the colours add. -/

theorem Chars.firstParagraph_prefix (cs : List Char) : firstParagraph cs <+: cs := by
  fun_induction firstParagraph cs with
  | case1 => exact List.nil_prefix
  | case2 => exact List.nil_prefix
  | case3 c rest _ ih => exact (List.prefix_cons_inj c).mpr ih

theorem Text.toList_mem_lines {text line : String} (member : line ∈ lines text) : line.toList ∈ Chars.lines text.toList := by
  obtain ⟨cs, listed, rfl⟩ := List.mem_map.mp member
  rwa [String.toList_ofList]

theorem Text.not_mem_summary {c : Char} (noDot : c ≠ '.') (noBlank : c ≠ ' ') {description : String}
    (absent : c ∉ description.toList) (length : Nat) : c ∉ (summary length description).toList := by
  have flat : c ∉ Chars.singleLine (Chars.firstParagraph description.toList) := by
    intro member
    obtain ⟨d, inside, same⟩ := List.mem_map.mp member
    split at same
    · exact noBlank same.symm
    · exact absent ((Chars.firstParagraph_prefix _).subset (same ▸ inside))
  rw [summary, String.toList_ofList, Chars.truncate]
  split
  · simp only [List.mem_append, List.mem_cons, List.not_mem_nil, or_false, or_self, not_or]
    exact ⟨fun taken => flat (List.mem_of_mem_take taken), noDot⟩
  · exact flat

/-- A description has no characters but those of the docstring and line feeds. -/
theorem Docstring.not_mem_description {c : Char} (noFeed : c ≠ '\n') {source : Option String}
    (absent : ∀ text ∈ source, c ∉ text.toList) {description : String}
    (present : (parse source).description = some description) : c ∉ description.toList := by
  cases source with
  | none => cases present
  | some text =>
      simp only [parse, ofBodies, block?] at present
      obtain ⟨trimmed, _⟩ := nonEmpty?_eq_some present
      rw [← trimmed]
      intro member
      have joined := Text.trim_subset _ member
      rw [String.toList_intercalate] at joined
      refine Chars.not_mem_intercalate (by simpa using noFeed) ?_ joined
      intro piece listed inside
      obtain ⟨line, found, rfl⟩ := List.mem_map.mp listed
      rcases @Reading.mem_of_mem_foldl _ _ _ .description found with early | ofText
      · cases early
      · have own := Chars.mem_of_mem_lines (Text.toList_mem_lines ofText) inside
        exact absent text rfl own.1

namespace Listing

open Terminal StyledText

/-! The strings of a model that can show in its listing. -/

def baseStrings (base : Base) : List String :=
  base.id :: base.record.toList.flatMap fun type => [type.moduleName, type.name]

def classMemberStrings (member : ClassMember) : List String :=
  member.name :: member.declaration.value.toList ++ member.declaration.signature.toList ++ member.lineage.map (·.name)

def classStrings (model : ClassModel) : List String :=
  model.bases.flatMap baseStrings ++ (model.constants.flatMap fun constant => [constant.name, constant.value]) ++
    model.recordFields.map (·.name) ++ model.members.flatMap classMemberStrings

def memberStrings (member : Member) : List String :=
  member.name :: member.value.toList ++ member.signature.toList ++ member.doc.toList ++
    member.classModel?.toList.flatMap classStrings

def moduleStrings (model : ModuleModel) : List String :=
  model.name :: model.doc.toList ++ model.members.flatMap memberStrings

def Quiet (text : String) : Prop := escape ∉ text.toList

instance (text : String) : Decidable (Quiet text) := inferInstanceAs (Decidable (escape ∉ text.toList))

theorem quiet_append {first second : String} : Quiet (first ++ second) ↔ Quiet first ∧ Quiet second := by
  simp [Quiet]

theorem quiet_intercalate {separator : String} (between : Quiet separator) {texts : List String}
    (each : ∀ text ∈ texts, Quiet text) : Quiet (separator.intercalate texts) := by
  rw [Quiet, String.toList_intercalate]
  exact Chars.not_mem_intercalate between (List.forall_mem_map.mpr each)

theorem escapeFree_append {first second : StyledText} :
    EscapeFree (first ++ second) ↔ EscapeFree first ∧ EscapeFree second :=
  List.forall_mem_append

theorem escapeFree_flatMap {α : Type} {shape : α → StyledText} {items : List α}
    (each : ∀ item ∈ items, EscapeFree (shape item)) : EscapeFree (items.flatMap shape) :=
  List.forall_mem_flatMap.mpr each

theorem escapeFree_plain {text : String} : EscapeFree (plain text) ↔ Quiet text := List.forall_mem_singleton

theorem escapeFree_endLine : EscapeFree endLine := escapeFree_plain.mpr (by decide)

theorem escapeFree_keyword {text : String} : EscapeFree (keyword text) ↔ Quiet text := List.forall_mem_singleton

theorem escapeFree_dimmed (level : Nat) {text : String} (quiet : Quiet text) : EscapeFree (dimmed level text) := by
  have indent : Quiet (String.join (List.replicate level "  ")) := by
    rw [Quiet, String.toList_join]
    intro member
    obtain ⟨blanks, listed, inside⟩ := List.mem_flatMap.mp member
    rw [List.eq_of_mem_replicate listed] at inside
    exact absurd inside (by decide)
  exact List.forall_mem_cons.mpr ⟨quiet_append.mpr ⟨indent, quiet⟩, escapeFree_endLine⟩

theorem escapeFree_summary (level : Nat) {doc : Option String} (quiet : ∀ text ∈ doc, Quiet text) :
    EscapeFree (summary level (Docstring.parse doc).description) := by
  have short : Quiet (Text.summary summaryLength ((Docstring.parse doc).description.getD "")) := by
    refine Text.not_mem_summary (by decide) (by decide) ?_ summaryLength
    cases present : (Docstring.parse doc).description with
    | none => decide
    | some description => exact Docstring.not_mem_description (by decide) quiet present
  unfold summary
  simp only
  split
  · exact List.forall_mem_nil _
  · exact escapeFree_dimmed level short

theorem quiet_assigned {value : Option String} (quiet : ∀ text ∈ value, Quiet text) : Quiet (assigned value) := by
  cases value with
  | none => decide
  | some text => exact quiet_append.mpr ⟨by decide, quiet text rfl⟩

theorem quiet_getD {value : Option String} (quiet : ∀ text ∈ value, Quiet text) {fallback : String}
    (other : Quiet fallback) : Quiet (value.getD fallback) := by
  cases value with
  | none => exact other
  | some text => exact quiet text rfl

theorem escapeFree_origin {lineage : List TypeRecord} (quiet : ∀ type ∈ lineage, Quiet type.name) :
    EscapeFree (origin lineage) := by
  unfold origin
  split
  · exact List.forall_mem_nil _
  · refine List.forall_mem_singleton.mpr (quiet_append.mpr ⟨by decide, ?_⟩)
    exact quiet_intercalate (by decide) (List.forall_mem_map.mpr quiet)

theorem quiet_accessors (member : ClassMember) : ∀ name ∈ member.accessors, Quiet name := by
  have quiet : ∀ name ∈ ["getter", "setter", "deleter"], Quiet name := by decide
  exact fun name listed => quiet name (member.accessors_subset listed)

theorem escapeFree_classMember {member : ClassMember} (quiet : ∀ text ∈ classMemberStrings member, Quiet text) :
    EscapeFree (classMember member) := by
  simp only [classMemberStrings, List.cons_append, List.forall_mem_cons, List.forall_mem_append, List.forall_mem_map,
    Option.mem_toList] at quiet
  obtain ⟨name, ⟨value, signed⟩, lineage⟩ := quiet
  simp only [classMember, escapeFree_append, escapeFree_plain, escapeFree_keyword, quiet_append]
  refine ⟨⟨⟨⟨by decide, ?_⟩, ⟨by decide, name⟩, ?_⟩, escapeFree_origin lineage⟩, escapeFree_endLine⟩
  · cases member.kind <;> decide
  · cases member.kind with
    | field => exact quiet_assigned value
    | property =>
        exact quiet_append.mpr ⟨quiet_append.mpr ⟨by decide, quiet_intercalate (by decide) (quiet_accessors member)⟩, by decide⟩
    | method =>
        refine quiet_getD ?_ (by decide)
        intro text present
        unfold ClassMember.signature? at present
        split at present
        · exact signed text present
        · cases present

theorem quiet_displayName {base : Base} (quiet : ∀ text ∈ baseStrings base, Quiet text) : Quiet base.displayName := by
  obtain ⟨own, recorded⟩ := List.forall_mem_cons.mp quiet
  unfold Base.displayName
  cases known : base.record with
  | some type =>
      rw [known] at recorded
      simp only [Option.toList_some, List.flatMap_singleton, List.forall_mem_cons] at recorded
      obtain ⟨moduleName, name, _⟩ := recorded
      simp only [TypeRecord.displayName, TypeRecord.id]
      split
      · exact name
      · split
        · exact name
        · exact quiet_append.mpr ⟨quiet_append.mpr ⟨moduleName, by decide⟩, name⟩
  | none =>
      cases found : Text.after? "builtins." base.id with
      | none => exact own
      | some rest =>
          obtain ⟨cs, taken, rfl⟩ := Option.map_eq_some_iff.mp found
          rw [Quiet, Chars.after?_eq_some taken, List.mem_append, not_or] at own
          simp only [Option.getD_some, Quiet, String.toList_ofList]
          exact own.2

theorem escapeFree_classModel {model : ClassModel} (quiet : ∀ text ∈ classStrings model, Quiet text) :
    EscapeFree (classModel model) := by
  simp only [classStrings, List.forall_mem_append, List.forall_mem_flatMap, List.forall_mem_map, List.forall_mem_cons] at quiet
  obtain ⟨⟨⟨bases, constants⟩, fields⟩, members⟩ := quiet
  simp only [classModel, escapeFree_append]
  refine ⟨⟨⟨?_, ?_⟩, ?_⟩, ?_⟩
  · unfold Listing.bases
    split
    · exact List.forall_mem_nil _
    · refine escapeFree_dimmed 2 (quiet_append.mpr ⟨by decide, quiet_intercalate (by decide) ?_⟩)
      exact List.forall_mem_map.mpr fun base listed => quiet_displayName (bases base listed)
  · refine escapeFree_flatMap fun constant listed => escapeFree_append.mpr ⟨escapeFree_plain.mpr ?_, escapeFree_endLine⟩
    obtain ⟨name, value, _⟩ := constants constant listed
    simp only [quiet_append]
    exact ⟨⟨⟨by decide, name⟩, by decide⟩, value⟩
  · refine escapeFree_flatMap fun field listed => escapeFree_append.mpr ⟨escapeFree_plain.mpr ?_, escapeFree_endLine⟩
    exact quiet_append.mpr ⟨by decide, fields field listed⟩
  · exact escapeFree_flatMap fun member listed => escapeFree_classMember (members member listed)

theorem escapeFree_member {given : Member} (quiet : ∀ text ∈ memberStrings given, Quiet text) :
    EscapeFree (member given) := by
  simp only [memberStrings, List.cons_append, List.forall_mem_cons, List.forall_mem_append, List.forall_mem_flatMap,
    Option.mem_toList] at quiet
  obtain ⟨name, ⟨⟨value, signed⟩, doc⟩, known⟩ := quiet
  have line : ∀ kind detail, Quiet kind → Quiet detail →
      EscapeFree (plain "  " ++ keyword kind ++ plain (" " ++ given.name ++ detail) ++ endLine) := by
    intro kind detail quietKind quietDetail
    simp only [escapeFree_append, escapeFree_plain, escapeFree_keyword, quiet_append]
    exact ⟨⟨⟨by decide, quietKind⟩, ⟨by decide, name⟩, quietDetail⟩, escapeFree_endLine⟩
  have described : EscapeFree (summary 2 given.docstring.description) := escapeFree_summary 2 doc
  unfold member
  cases kind : given.kind with
  | field => exact line "field" _ (by decide) (quiet_assigned value)
  | function =>
      exact escapeFree_append.mpr ⟨line "function" _ (by decide) (quiet_getD signed (by decide)), described⟩
  | classType model =>
      have inner := escapeFree_classModel (known model (by rw [Member.classModel?, kind]))
      exact escapeFree_append.mpr
        ⟨escapeFree_append.mpr ⟨line "class" _ (by decide) (quiet_getD signed (by decide)), described⟩, inner⟩

theorem escapeFree_moduleModel {model : ModuleModel} (quiet : ∀ text ∈ moduleStrings model, Quiet text) :
    EscapeFree (moduleModel model) := by
  simp only [moduleStrings, List.cons_append, List.forall_mem_cons, List.forall_mem_append, List.forall_mem_flatMap,
    Option.mem_toList] at quiet
  obtain ⟨name, doc, members⟩ := quiet
  have described : EscapeFree (summary 1 model.docstring.description) := escapeFree_summary 1 doc
  have title : EscapeFree (heading "module") := List.forall_mem_singleton.mpr (by decide)
  have nothing : EscapeFree (if model.isEmpty then dimmed 1 "(no members)" else []) := by
    split
    · exact escapeFree_dimmed 1 (by decide)
    · exact List.forall_mem_nil _
  simp only [moduleModel, escapeFree_append, escapeFree_plain, quiet_append]
  refine ⟨⟨⟨⟨⟨title, by decide, name⟩, escapeFree_endLine⟩, described⟩, nothing⟩, ?_⟩
  exact escapeFree_flatMap fun member listed => escapeFree_member (members member listed)

/-- If no string of the models has an escape in it, then the coloured listing without its control
sequences is the plain one, and behind every sequence that is no reset there comes one. -/
theorem coloured_agrees {models : List ModuleModel}
    (quiet : ∀ model ∈ models, ∀ text ∈ moduleStrings model, escape ∉ text.toList) :
    String.ofList (withoutControls (coloured (ofModels models)).toList) = StyledText.plain (ofModels models) ∧
      ∀ before code after, (coloured (ofModels models)).toList = before ++ sequenceOf code ++ after →
        IsCode code → code ≠ resetCode → sequenceOf resetCode <:+: after := by
  have free : EscapeFree (ofModels models) := escapeFree_flatMap fun model listed =>
    escapeFree_append.mpr ⟨escapeFree_moduleModel (quiet model listed), escapeFree_endLine⟩
  refine ⟨?_, ?_⟩
  · rw [withoutControls_coloured free, String.ofList_toList]
  · intro before code after written isCode change
    have settles := settles_coloured free
    rw [written] at settles
    exact reset_infix_of_settles isCode settles change

/-- A value that looks like a control sequence, but has no escape. -/
def signalFlags : ModuleModel where
  name := "flags"
  doc := some "Signals at sea."
  members := [{ name := "STOP", attr := .ofData "flags" "[32m", doc := none, signature := none, kind := .field }]

theorem signalFlags_agree :
    (∀ text ∈ moduleStrings signalFlags, escape ∉ text.toList) ∧
      String.ofList (withoutControls (coloured (ofModels [signalFlags])).toList) =
        "module flags\n  Signals at sea.\n  field STOP = [32m\n\n" ∧
      ∃ after, (coloured (ofModels [signalFlags])).toList = sequenceOf resetCode ++ sequenceOf ['1'] ++ after ∧
        sequenceOf resetCode <:+: after := by
  have quiet : ∀ text ∈ moduleStrings signalFlags, escape ∉ text.toList := by decide
  obtain ⟨agree, resets⟩ := coloured_agrees (List.forall_mem_singleton.mpr quiet)
  have shown : StyledText.plain (ofModels [signalFlags]) = "module flags\n  Signals at sea.\n  field STOP = [32m\n\n" := by
    decide +kernel
  have written : (coloured (ofModels [signalFlags])).toList =
      sequenceOf resetCode ++ sequenceOf ['1'] ++ (coloured (ofModels [signalFlags])).toList.drop 8 := by
    decide +kernel
  have isCode : IsCode ['1'] := ⟨by decide, List.forall_mem_singleton.mpr (by decide)⟩
  exact ⟨quiet, agree.trans shown, _, written, resets _ _ _ written isCode (by decide)⟩

end Listing

end ApiReference
