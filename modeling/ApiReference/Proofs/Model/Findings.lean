import ApiReference.Proofs.Model.Selection

namespace ApiReference

/-! What a run of inspections reports, told from the models it returns. Each class that has no record
is reported once, each base that the table lacks once for the class that declares it, and each module
without members once. -/

namespace FindingLog

theorem warningCount_addAll (log : FindingLog) (findings : List Finding) :
    (log.addAll findings).warningCount = log.warningCount + findings.countP (·.isWarning) :=
  List.countP_append

end FindingLog

namespace Member

/-- Whether the member is a class of which only the name is known. -/
def lacksRecord (member : Member) : Bool := member.classModel?.any (·.record.isNone)

end Member

namespace Inspection

/-- The declared bases that the table does not have, but for the root type. -/
def unknownBases (table : SymbolTable) (type : TypeRecord) : List String :=
  type.bases.filter fun id => (table.types.get? id).isNone && id ≠ "builtins.object"

/-- The class that a member stands for: the recorded one or, without a record of it, the one of the
member's name in the module that owns it. What no module owns is of the module described. -/
def identity (record : ModuleRecord) (member : Member) : String :=
  member.attr.typeId.getD (member.attr.owner.getD record.name ++ "." ++ member.name)

def memberReport (table : SymbolTable) (record : ModuleRecord) (member : Member) : List Finding :=
  if member.attr.kind = .classType then
    let id := identity record member
    match table.types.get? id with
    | none => [⟨.warning, "class `" ++ id ++ "` has no record in the symbol table", some record.name⟩]
    | some type =>
        (unknownBases table type).map fun base =>
          ⟨.info, "base `" ++ base ++ "` of `" ++ type.name ++ "` is not in the symbol table", some record.name⟩
  else []

def moduleReport (table : SymbolTable) (record : ModuleRecord) (model : ModuleModel) : List Finding :=
  if model.members = [] then [⟨.info, "module exports nothing", some record.name⟩]
  else model.members.flatMap (memberReport table record)

/-- The members of a model are the attributes that the module shows, in the order of their names. -/
structure Selects (record : ModuleRecord) (model : ModuleModel) : Prop where
  name : model.name = record.name
  ascend : (model.members.map (·.name)).Pairwise (· < ·)
  shown : ∀ name attr, (∃ member ∈ model.members, member.name = name ∧ member.attr = attr) ↔ record.Shows name attr

variable (table : SymbolTable) (record : ModuleRecord)

theorem selects_moduleOf : Selects record (moduleOf table record) where
  name := rfl
  ascend := by
    rw [moduleOf_names]
    exact record.documented_ascend
  shown name attr := by
    rw [← ModuleRecord.mem_documented_iff_shows]
    simp [moduleOf, memberOf_name, memberOf_attr]

theorem identity_memberOf (entry : String × AttributeRecord) :
    identity record (memberOf table record entry) = classId record entry.1 entry.2 := by
  rw [identity, memberOf_name, memberOf_attr, classId]
  cases entry.2.typeId <;> rfl

theorem flatMap_baseFindings (type : TypeRecord) :
    (table.declaredBases type).flatMap (baseFindings record type) =
      (unknownBases table type).map fun base =>
        ⟨.info, "base `" ++ base ++ "` of `" ++ type.name ++ "` is not in the symbol table", some record.name⟩ := by
  unfold SymbolTable.declaredBases unknownBases
  induction type.bases with
  | nil => rfl
  | cons id rest ih =>
      rw [List.map_cons, List.flatMap_cons, ih, List.filter_cons]
      by_cases unknown : table.type? id = none ∧ id ≠ rootTypeId
      · have missing : ((table.types.get? id).isNone && decide (id ≠ "builtins.object")) = true := by
          simpa [SymbolTable.type?, rootTypeId] using unknown
        rw [baseFindings, if_pos unknown, missing]
        rfl
      · have known : ((table.types.get? id).isNone && decide (id ≠ "builtins.object")) = false := by
          simpa [SymbolTable.type?, rootTypeId] using unknown
        rw [baseFindings, if_neg unknown, known]
        rfl

theorem memberOf_classModel? (entry : String × AttributeRecord) :
    (memberOf table record entry).classModel? =
      if entry.2.kind = .classType then some (((classOf? table record entry).map (classModelOf table)).getD {}) else none := by
  obtain ⟨name, attr⟩ := entry
  cases kind : attr.kind <;> simp [memberOf, kind, Member.classModel?]

/-- A class is described by the record that its identity leads to. -/
theorem record_of_kind_eq {entry : String × AttributeRecord} {model : ClassModel}
    (isClass : (memberOf table record entry).kind = .classType model) :
    model.record = table.types.get? (identity record (memberOf table record entry)) := by
  have known : (memberOf table record entry).classModel? = some model := by
    rw [Member.classModel?, isClass]
  rw [memberOf_classModel?] at known
  split at known
  · rw [← Option.some.inj known, classOf?, identity_memberOf, SymbolTable.type?]
    cases table.types.get? (classId record entry.1 entry.2) <;> rfl
  · cases known

theorem memberReport_memberOf (entry : String × AttributeRecord) :
    memberReport table record (memberOf table record entry) = memberFindings table record entry := by
  unfold memberReport memberFindings
  simp only [memberOf_attr, identity_memberOf, classOf?, SymbolTable.type?]
  cases table.types.get? (classId record entry.1 entry.2) with
  | none => rfl
  | some type => simp only [flatMap_baseFindings]

/-- Of a member there is one warning if it lacks its record, and else none. -/
theorem countP_memberReport (entry : String × AttributeRecord) :
    (memberReport table record (memberOf table record entry)).countP (·.isWarning) =
      if (memberOf table record entry).lacksRecord then 1 else 0 := by
  rw [memberReport_memberOf, Member.lacksRecord, memberOf_classModel?, memberFindings]
  by_cases isClass : entry.2.kind = .classType
  · simp only [if_pos isClass, Option.any_some]
    cases classOf? table record entry with
    | none => rfl
    | some type =>
        simp only [flatMap_baseFindings]
        simp [Finding.isWarning, classModelOf, List.countP_map]
  · simp [isClass]

theorem moduleReport_moduleOf : moduleReport table record (moduleOf table record) = moduleFindings table record := by
  unfold moduleReport moduleFindings moduleOf
  simp only [List.map_eq_nil_iff, List.flatMap_map, memberReport_memberOf]
  rfl

theorem countP_flatMap_memberReport (entries : List (String × AttributeRecord)) :
    ((entries.map (memberOf table record)).flatMap (memberReport table record)).countP (·.isWarning) =
      (entries.map (memberOf table record)).countP (·.lacksRecord) := by
  induction entries with
  | nil => rfl
  | cons entry rest ih =>
      rw [List.map_cons, List.flatMap_cons, List.countP_append, ih, countP_memberReport, List.countP_cons, Nat.add_comm]

theorem countP_moduleReport :
    (moduleReport table record (moduleOf table record)).countP (·.isWarning) =
      (moduleOf table record).members.countP (·.lacksRecord) := by
  unfold moduleReport
  split
  · rename_i none
    rw [none]
    rfl
  · exact countP_flatMap_memberReport table record record.documented

/-- The modules of a run, each with the model that it is described by. -/
theorem zip_moduleOf (records : List ModuleRecord) :
    records.zip (records.map (moduleOf table)) = records.map fun record => (record, moduleOf table record) :=
  List.map_prod_left_eq_zip.symm

theorem countP_flatMap_moduleReport (records : List ModuleRecord) :
    (records.flatMap fun record => moduleReport table record (moduleOf table record)).countP (·.isWarning) =
      ((records.map (moduleOf table)).flatMap (·.members)).countP (·.lacksRecord) := by
  induction records with
  | nil => rfl
  | cons record rest ih =>
      rw [List.flatMap_cons, List.countP_append, ih, countP_moduleReport, List.map_cons, List.flatMap_cons,
        List.countP_append]

/-- The findings of a run are the reports on its modules in the order of the calls: on each class
without a record a warning that names the identity looked up, on each other class an info for every
declared base that is neither in the table nor the root type, and on a module without members one
info. So there are as many warnings as classes without a record, and a class has no record exactly
when its description adds one warning. -/
theorem run_reports (records : List ModuleRecord) (log : FindingLog) :
    ∃ models findings, (records.mapM (describeModule table)).run log = (models, log.addAll findings) ∧
      List.Forall₂ Selects records models ∧
      findings = (records.zip models).flatMap (fun visit => moduleReport table visit.1 visit.2) ∧
      (log.addAll findings).warningCount =
        log.warningCount + (models.flatMap (·.members)).countP (·.lacksRecord) ∧
      ∀ visit ∈ records.zip models, ∀ member ∈ visit.2.members, ∀ known, member.kind = .classType known →
        known.record = table.types.get? (identity visit.1 member) ∧
        (∀ earlier, (describeMember table visit.1 (member.name, member.attr)).run earlier =
          (member, earlier.addAll (memberReport table visit.1 member))) ∧
        (known.record = none ↔ (memberReport table visit.1 member).countP (·.isWarning) = 1) := by
  have given := Gives.mapM (gives_describeModule table) records log
  refine ⟨records.map (moduleOf table), records.flatMap (moduleFindings table), given, ?_, ?_, ?_, ?_⟩
  · rw [List.forall₂_map_right_iff, List.forall₂_same]
    exact fun record _ => selects_moduleOf table record
  · rw [zip_moduleOf, List.flatMap_map]
    simp only [moduleReport_moduleOf]
  · have warnings := countP_flatMap_moduleReport table records
    simp only [moduleReport_moduleOf] at warnings
    rw [FindingLog.warningCount_addAll, warnings]
  · rw [zip_moduleOf]
    intro visit visited member listed known isClass
    obtain ⟨record, _, rfl⟩ := List.mem_map.mp visited
    obtain ⟨entry, _, rfl⟩ := List.mem_map.mp listed
    have looked := record_of_kind_eq table record isClass
    have added := gives_describeMember table record entry
    rw [memberOf_name, memberOf_attr, countP_memberReport, memberReport_memberOf]
    refine ⟨looked, added, ?_⟩
    rw [Member.lacksRecord, Member.classModel?, isClass]
    simp

/-- A class with a base that the table lacks, beside the root type. -/
def ferry : TypeRecord where
  name := "Ferry"
  moduleName := "port.boats"
  bases := ["sea.Vessel", "builtins.object"]

/-- Two of the classes have no record: one is looked up by what is recorded of it, the other by its name. -/
def boats : ModuleRecord where
  name := "port.boats"
  attributes := ⟨[("Raft", { kind := .classType }), ("Ferry", { kind := .classType, owner := some "port.boats" }),
    ("Canoe", { kind := .classType, typeId := some "river.Canoe" }), ("moor", { kind := .function }),
    ("__all__", { kind := .classType })], by decide⟩

def harbour : SymbolTable where
  modules := [boats, { name := "port.piers" }]
  types := ⟨[("port.boats.Ferry", ferry)], by decide⟩

def harbourLog : FindingLog where
  findings := [
    ⟨.warning, "class `river.Canoe` has no record in the symbol table", some "port.boats"⟩,
    ⟨.info, "base `sea.Vessel` of `Ferry` is not in the symbol table", some "port.boats"⟩,
    ⟨.warning, "class `port.boats.Raft` has no record in the symbol table", some "port.boats"⟩,
    ⟨.info, "module exports nothing", some "port.piers"⟩]

/-- Each class is reported under the identity that it is looked up by, and a reserved name not at all. -/
theorem harbour_reported : ∃ models,
    (harbour.modules.mapM (describeModule harbour)).run {} = (models, harbourLog) ∧
      List.Forall₂ Selects harbour.modules models ∧ (models.flatMap (·.members)).countP (·.lacksRecord) = 2 := by
  obtain ⟨models, findings, ran, selected, _, counted, _⟩ := run_reports harbour harbour.modules {}
  have logged : FindingLog.addAll {} findings = harbourLog := (congrArg Prod.snd ran).symm.trans (by decide +kernel)
  rw [logged] at ran counted
  have warnings : harbourLog.warningCount = 2 := by decide
  rw [warnings] at counted
  exact ⟨models, ran, selected, by simpa [FindingLog.warningCount] using counted.symm⟩

end Inspection

end ApiReference
