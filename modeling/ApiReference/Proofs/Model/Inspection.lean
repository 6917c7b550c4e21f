import ApiReference.Model.Inspection

namespace ApiReference

/-! Describing modules, with models and findings told apart.

An inspection only adds to the log, so each step is a value and a list of findings. -/

theorem ModuleRecord.documented_names_nodup (record : ModuleRecord) : (record.documented.map Prod.fst).Nodup := by
  rw [documented, ((rank_perm _ _).map Prod.fst).nodup_iff]
  exact record.attributes.distinct.sublist (List.filter_sublist.map Prod.fst)

namespace FindingLog

def addAll (log : FindingLog) (findings : List Finding) : FindingLog := ⟨log.findings ++ findings⟩

@[simp] theorem addAll_nil (log : FindingLog) : log.addAll [] = log := by
  simp [addAll]

@[simp] theorem addAll_addAll (log : FindingLog) (first second : List Finding) :
    (log.addAll first).addAll second = log.addAll (first ++ second) := by
  simp [addAll]

end FindingLog

namespace Inspection

/-- A step that gives a value and adds findings, whatever the log holds before. -/
def Gives {α : Type} (step : Inspection α) (value : α) (findings : List Finding) : Prop :=
  ∀ log, step.run log = (value, log.addAll findings)

namespace Gives

variable {α β : Type}

theorem pure (value : α) : Gives (Pure.pure value) value [] := by
  intro log
  rw [FindingLog.addAll_nil]
  rfl

theorem bind {step : Inspection α} {next : α → Inspection β} {value : α} {result : β}
    {first second : List Finding} (given : Gives step value first)
    (continued : Gives (next value) result second) :
    Gives (step >>= next) result (first ++ second) := by
  intro log
  rw [StateT.run_bind, given log]
  change (next value).run (log.addAll first) = _
  rw [continued, FindingLog.addAll_addAll]

theorem andSilent {step : Inspection α} {next : α → Inspection β} {value : α} {result : β}
    {findings : List Finding} (given : Gives step value findings)
    (continued : Gives (next value) result []) : Gives (step >>= next) result findings := by
  have both := given.bind continued
  rwa [List.append_nil] at both

theorem mapM {step : α → Inspection β} {value : α → β} {findings : α → List Finding}
    (given : ∀ item, Gives (step item) (value item) (findings item)) (items : List α) :
    Gives (items.mapM step) (items.map value) (items.flatMap findings) := by
  induction items with
  | nil => exact .pure []
  | cons item rest ih =>
      rw [List.mapM_cons, List.map_cons, List.flatMap_cons]
      exact (given item).bind (ih.andSilent (.pure _))

theorem forM {step : α → Inspection Unit} {findings : α → List Finding}
    (given : ∀ item, Gives (step item) () (findings item)) (items : List α) :
    Gives (items.forM step) () (items.flatMap findings) := by
  induction items with
  | nil => exact .pure ()
  | cons item rest ih =>
      rw [List.flatMap_cons]
      exact (given item).bind ih

end Gives

def missingClass (record : ModuleRecord) (id : String) : Finding where
  severity := .warning
  message := "class `" ++ id ++ "` has no record in the symbol table"
  moduleName := some record.name

def missingBase (record : ModuleRecord) (type : TypeRecord) (base : Base) : Finding where
  severity := .info
  message := "base `" ++ base.id ++ "` of `" ++ type.name ++ "` is not in the symbol table"
  moduleName := some record.name

def emptyModule (record : ModuleRecord) : Finding where
  severity := .info
  message := "module exports nothing"
  moduleName := some record.name

def baseFindings (record : ModuleRecord) (type : TypeRecord) (base : Base) : List Finding :=
  if base.record = none ∧ base.id ≠ rootTypeId then [missingBase record type base] else []

/-- The class that an attribute stands for, if the table has it. -/
def classOf? (table : SymbolTable) (record : ModuleRecord) (entry : String × AttributeRecord) :
    Option TypeRecord :=
  table.type? (classId record entry.1 entry.2)

def classModelOf (table : SymbolTable) (type : TypeRecord) : ClassModel where
  record := some type
  bases := table.declaredBases type
  members := if type.form.isSpecial then [] else table.classMembers type

def memberOf (table : SymbolTable) (record : ModuleRecord) (entry : String × AttributeRecord) :
    Member :=
  let (name, attr) := entry
  match attr.kind with
  | .function => { name, attr, doc := attr.doc, signature := attr.signature, kind := .function }
  | .data => { name, attr, doc := attr.doc, signature := none, kind := .field }
  | .classType =>
      let type := classOf? table record entry
      { name, attr
        doc := attr.doc <|> type.bind (·.doc)
        signature := classSignature? attr type
        kind := .classType ((type.map (classModelOf table)).getD {}) }

/-- What is found out about one documented attribute. -/
def memberFindings (table : SymbolTable) (record : ModuleRecord)
    (entry : String × AttributeRecord) : List Finding :=
  if entry.2.kind = .classType then
    match classOf? table record entry with
    | none => [missingClass record (classId record entry.1 entry.2)]
    | some type => (table.declaredBases type).flatMap (baseFindings record type)
  else []

def moduleOf (table : SymbolTable) (record : ModuleRecord) : ModuleModel where
  name := record.name
  doc := record.doc
  members := record.documented.map (memberOf table record)

def moduleFindings (table : SymbolTable) (record : ModuleRecord) : List Finding :=
  if record.documented = [] then [emptyModule record]
  else record.documented.flatMap (memberFindings table record)

theorem gives_note (record : ModuleRecord) (severity : Severity) (message : String) :
    Gives (note record severity message) () [⟨severity, message, some record.name⟩] :=
  fun _ => rfl

theorem gives_noteBase (record : ModuleRecord) (type : TypeRecord) (base : Base) :
    Gives (noteBase record type base) () (baseFindings record type base) := by
  unfold noteBase baseFindings
  by_cases missing : base.record = none ∧ base.id ≠ rootTypeId
  · rw [if_pos missing, if_pos missing]
    exact gives_note record .info _
  · rw [if_neg missing, if_neg missing]
    exact .pure ()

theorem gives_describeClass (table : SymbolTable) (record : ModuleRecord) (type : TypeRecord) :
    Gives (describeClass table record type) (classModelOf table type)
      ((table.declaredBases type).flatMap (baseFindings record type)) :=
  (Gives.forM (gives_noteBase record type) (table.declaredBases type)).andSilent (.pure _)

theorem gives_describeMember (table : SymbolTable) (record : ModuleRecord)
    (entry : String × AttributeRecord) :
    Gives (describeMember table record entry) (memberOf table record entry)
      (memberFindings table record entry) := by
  obtain ⟨name, attr⟩ := entry
  cases kind : attr.kind with
  | function =>
      simp only [describeMember, memberOf, memberFindings, kind, reduceCtorEq, if_false]
      exact .pure _
  | data =>
      simp only [describeMember, memberOf, memberFindings, kind, reduceCtorEq, if_false]
      exact .pure _
  | classType =>
      simp only [describeMember, memberOf, memberFindings, kind, if_true, findClass, classOf?]
      cases found : table.type? (classId record name attr) with
      | none =>
          exact ((gives_note record .warning _).andSilent (.pure none)).andSilent (.pure _)
      | some type =>
          exact (Gives.pure (some type)).bind ((gives_describeClass table record type).andSilent (.pure _))

theorem gives_describeModule (table : SymbolTable) (record : ModuleRecord) :
    Gives (describeModule table record) (moduleOf table record) (moduleFindings table record) := by
  have members := Gives.mapM (gives_describeMember table record) record.documented
  unfold describeModule moduleOf moduleFindings
  by_cases nothing : record.documented = []
  · rw [if_pos nothing]
    rw [nothing] at members ⊢
    exact members.bind ((gives_note record .info _).bind (.pure _))
  · rw [if_neg nothing]
    have shown : (record.documented.map (memberOf table record)).isEmpty = false := by
      simpa using nothing
    refine members.andSilent ?_
    simp only [shown, Bool.false_eq_true, if_false]
    exact .pure _

theorem memberOf_name (table : SymbolTable) (record : ModuleRecord) (entry : String × AttributeRecord) :
    (memberOf table record entry).name = entry.1 := by
  obtain ⟨name, attr⟩ := entry
  cases kind : attr.kind <;> simp [memberOf, kind]

theorem moduleOf_names (table : SymbolTable) (record : ModuleRecord) :
    (moduleOf table record).members.map (·.name) = record.documented.map Prod.fst := by
  rw [moduleOf, List.map_map]
  exact List.map_congr_left fun entry _ => memberOf_name table record entry

/-- The members of a described module have different names. -/
theorem moduleOf_names_nodup (table : SymbolTable) (record : ModuleRecord) :
    ((moduleOf table record).members.map (·.name)).Nodup := by
  rw [moduleOf_names]
  exact record.documented_names_nodup

end Inspection

/-- The models and findings of modules, one module after the other. -/
theorem SymbolTable.describe_eq (table : SymbolTable) (records : List ModuleRecord) :
    table.describe records =
      (records.map (Inspection.moduleOf table), records.flatMap (Inspection.moduleFindings table)) := by
  have given := Inspection.Gives.mapM (Inspection.gives_describeModule table) records {}
  unfold describe
  rw [given]
  simp [FindingLog.addAll]

end ApiReference
