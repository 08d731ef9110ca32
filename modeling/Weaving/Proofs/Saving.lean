import Weaving.Model
import Weaving.Proofs.JsonText

/-!
Models that are saved and loaded. Several layouts are told apart only by what they look like: an operand is
a position, or else a variable, or else a value; a default is the name of a body or else a value; what stands
in a step depends on the operation that it names. None of them takes what another has written, so every
declaration is read as it was written, and so is a whole model (`Model.ofJson?_toJson`).

A model is exact if its text can say what it is. Doubles are left out, since text may round them; so is null
as a default, since a field that is null counts as absent. All numbers lie within the words that they are kept
in, and scripts are in the order of their names.
-/

namespace Weaving

open Document

/-! ## Exact models -/

/-- A value that is no double, with numbers of 64 bits, and of 32 for types. -/
def Value.Exact : Value → Prop
  | .float _ => False
  | .int value => Word.isSigned value = true
  | .object ref => ref.id < Word.count 64 ∧ ref.type.index < Word.count 32
  | .null | .bool _ | .text _ => True

def Operand.Exact : Operand → Prop
  | .arg index => index < Word.count 64
  | .var _ => True
  | .literal value => value.Exact

def Target.Exact : Target → Prop
  | .arg index => index < Word.count 64
  | .this | .static | .var _ => True

/-- A step whose operands are exact, however deep they lie. -/
inductive Step.Exact : Step → Prop where
  | emit (template : String) : Exact (.emit template)
  | give {value : Operand} (exact : value.Exact) : Exact (.give value)
  | fault (template : String) : Exact (.fault template)
  | join (point : String) {args : List Operand} (exact : ∀ arg ∈ args, arg.Exact) : Exact (.join point args)
  | call (member : String) {on : Target} (target : on.Exact) (isVirtual : Bool) {args : List Operand}
    (exact : ∀ arg ∈ args, arg.Exact) (into : Option String) : Exact (.call member on isVirtual args into)
  | allocate (type into : String) : Exact (.allocate type into)
  | guard (relations : RelationSet) {permitted otherwise : List Step} (inside : ∀ step ∈ permitted, Exact step)
    (outside : ∀ step ∈ otherwise, Exact step) : Exact (.guard relations permitted otherwise)
  | checkpoint : Exact .checkpoint

def DefaultDeclaration.Exact : DefaultDeclaration → Prop
  | .computed _ => True
  | .const value => value ≠ .null ∧ value.Exact

def ParamDeclaration.Exact (param : ParamDeclaration) : Prop := ∀ default ∈ param.default, default.Exact

structure Model.Exact (model : Model) : Prop where
  defaults : ∀ member ∈ model.members, ∀ param ∈ member.params, param.Exact
  steps : ∀ script ∈ model.scripts, ∀ step ∈ script.2, step.Exact
  ordered : model.scripts.Pairwise fun first second => first.1 < second.1

/-! ## Documents -/

namespace Document

@[simp] theorem plain_null : Plain .null := .null

@[simp] theorem plain_bool (value : Bool) : Plain (.bool value) := .bool value

@[simp] theorem plain_text (value : String) : Plain (.text value) := .text value

@[simp] theorem plain_list_iff {items : List Document} : Plain (.list items) ↔ ∀ item ∈ items, item.Plain :=
  ⟨fun | .list each => each, .list⟩

@[simp] theorem plain_table_iff {entries : List (String × Document)} :
    Plain (.table entries) ↔ ∀ entry ∈ entries, entry.2.Plain :=
  ⟨fun | .table each => each, .table⟩

@[simp] theorem plain_texts (texts : List String) : Plain (ofTexts texts) := by simp [ofTexts]

theorem plain_ofNat {n : Nat} (inside : n < Word.count 64) : Plain (.ofNat n) :=
  .int (by omega) (by omega)

theorem allReadable_of_each {items : List Document} (each : ∀ item ∈ items, item.isReadable = true) :
    allReadable items = true := by
  induction items with
  | nil => rfl
  | cons item items ih => simp_all [allReadable]

theorem entriesReadable_of_each {entries : List (String × Document)}
    (each : ∀ entry ∈ entries, entry.2.isReadable = true) : entriesReadable entries = true := by
  induction entries with
  | nil => rfl
  | cons entry entries ih => simp_all [entriesReadable]

/-- Every part of a plain document has a value. -/
theorem isReadable_of_plain {document : Document} (plain : document.Plain) : document.isReadable = true := by
  induction plain with
  | null | bool | int | text => rfl
  | list _ each => exact allReadable_of_each each
  | table _ each => exact entriesReadable_of_each each

/-- An item is no higher than its list is inside. -/
theorem height_le_itemsHeight {items : List Document} {item : Document} (held : item ∈ items) :
    item.height ≤ itemsHeight items := by
  induction items with
  | nil => cases held
  | cons first items ih =>
    rw [itemsHeight]
    rcases List.mem_cons.mp held with rfl | held
    · exact le_max_left _ _
    · exact (ih held).trans (le_max_right _ _)

theorem asNat?_ofNat {n greatest : Nat} (inside : n ≤ greatest) : asNat? greatest (.ofNat n) = some n := by
  simp [asNat?, ofNat, inside]

theorem asCount?_ofNat {n : Nat} (inside : n < Word.count 64) : asCount? (.ofNat n) = some n :=
  asNat?_ofNat (Nat.le_sub_one_of_lt inside)

theorem asList?_map {α : Type} {read? : Document → Option α} {write : α → Document} {items : List α}
    (each : ∀ item ∈ items, read? (write item) = some item) :
    asList? read? (.list (items.map write)) = some items := by
  unfold asList?
  induction items with
  | nil => rfl
  | cons item items ih => simp_all

theorem entriesAt_nil (key : String) : entriesAt key [] = [] := rfl

theorem entriesAt_cons_self (key : String) (document : Document) (entries : List (String × Document)) :
    entriesAt key ((key, document) :: entries) = document :: entriesAt key entries := by
  simp [entriesAt]

theorem entriesAt_cons_of_ne {key other : String} (differs : other ≠ key) (document : Document)
    (entries : List (String × Document)) :
    entriesAt key ((other, document) :: entries) = entriesAt key entries := by
  simp [entriesAt, differs]

/-- A field that may be absent, and is not written as null when it is there. -/
theorem Fields.optional_of_written {α : Type} {fields : Fields} {name : String} {write : α → Document}
    {read? : Document → Option α} {value : Option α} (written : fields name = value.map write)
    (present : ∀ held ∈ value, write held ≠ .null) (read : ∀ held ∈ value, read? (write held) = some held) :
    fields.optional name read? = some value := by
  unfold optional
  rw [written]
  cases value with
  | none => rfl
  | some value =>
    rw [Option.map_some]
    split
    · contradiction
    · rename_i null
      exact absurd (Option.some.inj null) (present value rfl)
    · rename_i document found
      cases found
      rw [read value rfl, Option.map_some]

@[simp] theorem asList?_ofTexts (texts : List String) : asList? asText? (ofTexts texts) = some texts :=
  asList?_map fun _ _ => rfl

end Document

attribute [local simp] fields? tableFields? entriesAt_nil entriesAt_cons_self entriesAt_cons_of_ne Fields.required Fields.orElse Fields.optional optionalEntry
  asText? asBool? asName?

/-! ## Values and operands -/

theorem Value.plain_toDocument {value : Value} (exact : value.Exact) : value.toDocument.Plain := by
  cases value with
  | null | bool | text => simp [toDocument]
  | int value =>
    obtain ⟨low, high⟩ := Word.isSigned_iff.mp exact
    exact .int low (Int.lt_trans high (by decide))
  | float => exact exact.elim
  | object ref =>
    obtain ⟨id, type⟩ := exact
    have wide : ref.type.index < Word.count 64 := type.trans (by decide)
    simp [toDocument, ObjectRef.toDocument, plain_ofNat id, plain_ofNat wide]

theorem Value.ofDocument?_toDocument {value : Value} (exact : value.Exact) :
    ofDocument? value.toDocument = some value := by
  unfold ofDocument?
  rw [if_pos (isReadable_of_plain (plain_toDocument exact))]
  cases value with
  | null | bool | text => rfl
  | int value => simp [toDocument, show Word.isSigned value = true from exact]
  | float => exact exact.elim
  | object ref =>
    obtain ⟨id, type⟩ := exact
    simp [toDocument, ObjectRef.toDocument, ObjectRef.ofDocument?, asCount?_ofNat id,
      asNat?_ofNat (Nat.le_sub_one_of_lt type)]

/-- No value is written as a record of one field by another name than its own. -/
theorem Operand.soleField?_value {α : Type} {name : String} (foreign : name ≠ "id" ∧ name ≠ "ty")
    (read? : Document → Option α) (value : Value) : soleField? name read? value.toDocument = none := by
  cases value with
  | object ref => simp [Value.toDocument, ObjectRef.toDocument, soleField?, foreign.1.symm, foreign.2.symm]
  | null | bool | int | float | text => rfl

theorem Operand.plain_toDocument {operand : Operand} (exact : operand.Exact) : operand.toDocument.Plain := by
  cases operand with
  | arg index => simp [toDocument, plain_ofNat exact]
  | var name => simp [toDocument]
  | literal value => exact Value.plain_toDocument exact

theorem Operand.ofDocument?_toDocument {operand : Operand} (exact : operand.Exact) :
    ofDocument? operand.toDocument = some operand := by
  cases operand with
  | arg index => simp [toDocument, ofDocument?, soleField?, asCount?_ofNat exact]
  | var name => simp [toDocument, ofDocument?, soleField?]
  | literal value =>
    simp [toDocument, ofDocument?, soleField?_value, Value.ofDocument?_toDocument exact]

theorem Target.plain_toDocument {target : Target} (exact : target.Exact) : target.toDocument.Plain := by
  cases target with
  | this | static | var => simp [toDocument]
  | arg index => simp [toDocument, plain_ofNat exact]

theorem Target.ofDocument?_toDocument (source : Source) {target : Target} (exact : target.Exact) :
    ofDocument? source target.toDocument = some target := by
  cases target with
  | this | static => rfl
  | arg index => simp [toDocument, ofDocument?, choice?, asCount?_ofNat exact]
  | var name => simp [toDocument, ofDocument?, choice?]

theorem RelationSet.plain_toDocument (set : RelationSet) : set.toDocument.Plain := plain_texts _

theorem RelationSet.ofDocument?_toDocument (source : Source) (set : RelationSet) :
    ofDocument? source set.toDocument = some set := by
  have names : asList? (RelationClass.ofDocument? source)
      (.list (set.toList.map fun relation => .text relation.name)) = some set.toList :=
    asList?_map fun relation _ => RelationClass.ofExactName?_name relation
  unfold ofDocument? toDocument ofTexts
  rw [List.map_map]
  refine (congrArg (Option.map ofList) names).trans ?_
  rw [Option.map_some, ofList_toList]

/-! ## Steps -/

namespace Step

theorem toDocuments_eq_map (steps : List Step) : toDocuments steps = steps.map toDocument := by
  induction steps with
  | nil => rfl
  | cons step steps ih => simp [toDocuments, ih]

theorem plain_operands {args : List Operand} (exact : ∀ arg ∈ args, arg.Exact) : (operands args).Plain := by
  simpa [operands] using fun arg held => Operand.plain_toDocument (exact arg held)

theorem plain_toDocument {step : Step} (exact : step.Exact) : step.toDocument.Plain := by
  induction exact with
  | emit | fault | allocate | checkpoint => simp [toDocument, record]
  | give exact => simp [toDocument, record, Operand.plain_toDocument exact]
  | join point exact => simp [toDocument, record, plain_operands exact]
  | call member target isVirtual exact into =>
    cases into <;> simp [toDocument, record, plain_operands exact, Target.plain_toDocument target]
  | guard relations _ _ inside outside =>
    simpa [toDocument, record, toDocuments_eq_map, RelationSet.plain_toDocument] using ⟨inside, outside⟩

theorem operands?_operands {args : List Operand} (exact : ∀ arg ∈ args, arg.Exact) :
    asList? Operand.ofDocument? (operands args) = some args :=
  asList?_map fun arg held => Operand.ofDocument?_toDocument (exact arg held)

theorem limit_of_deep {step : Step} {limit : Nat} (deep : step.toDocument.height ≤ limit) :
    ∃ below, limit = below + 1 := by
  have positive : 0 < step.toDocument.height := by
    cases step <;> simp [toDocument, record, height]
  exact Nat.exists_eq_add_one_of_ne_zero (positive.trans_le deep).ne'

/-- A record is read by its operation, with what stands beside it as the content. -/
theorem ofNested?_record (source : Source) (below : Nat) (operation : String) {entries : List (String × Document)}
    (others : ∀ entry ∈ entries, entry.1 ≠ "op") :
    ofNested? (below + 1) source (record operation entries) =
      ofContent? source.part (ofNested? below source.part) operation (.table entries) := by
  have alone : entries.filter (·.1 = "op") = [] := List.filter_eq_nil_iff.mpr (by simpa using others)
  have tagged : tagged? "op" (record operation entries) = some (.text operation, .table entries) := by
    simpa [record, tagged?, entriesAt, alone] using others
  rw [ofNested?, tagged]
  rfl

/-- A step is read if the limit lets it lie as deep as its document does. -/
theorem ofNested?_toDocument {step : Step} (exact : step.Exact) (source : Source) {limit : Nat}
    (deep : step.toDocument.height ≤ limit) : ofNested? limit source step.toDocument = some step := by
  induction exact generalizing source limit with
  | emit | fault | allocate | checkpoint =>
    obtain ⟨below, rfl⟩ := limit_of_deep deep
    simp [toDocument, ofNested?_record, ofContent?]
  | give exact =>
    obtain ⟨below, rfl⟩ := limit_of_deep deep
    simp [toDocument, ofNested?_record, ofContent?, Operand.ofDocument?_toDocument exact]
  | join point exact =>
    obtain ⟨below, rfl⟩ := limit_of_deep deep
    simp [toDocument, ofNested?_record, ofContent?, operands?_operands exact]
  | call member target isVirtual exact into =>
    obtain ⟨below, rfl⟩ := limit_of_deep deep
    cases into <;> simp [toDocument, ofNested?_record, ofContent?, operands?_operands exact,
      Target.ofDocument?_toDocument _ target]
  | @guard relations permitted otherwise _ _ inside outside =>
    obtain ⟨below, rfl⟩ := limit_of_deep deep
    simp only [toDocument, record, height, entriesHeight, toDocuments_eq_map] at deep
    -- The steps inside lie two levels deeper, in a list of this step's record.
    have first : asList? (ofNested? below source.part) (.list (permitted.map toDocument)) = some permitted :=
      asList?_map fun step held => inside step held source.part
        (by have := height_le_itemsHeight (List.mem_map_of_mem (f := toDocument) held); omega)
    have second : asList? (ofNested? below source.part) (.list (otherwise.map toDocument)) = some otherwise :=
      asList?_map fun step held => outside step held source.part
        (by have := height_le_itemsHeight (List.mem_map_of_mem (f := toDocument) held); omega)
    simp [toDocument, ofNested?_record, ofContent?, toDocuments_eq_map, first, second,
      RelationSet.ofDocument?_toDocument]

theorem ofDocument?_toDocument {step : Step} (exact : step.Exact) (source : Source) :
    ofDocument? source step.toDocument = some step := by
  rw [ofDocument?, if_pos (isReadable_of_plain (plain_toDocument exact))]
  exact ofNested?_toDocument exact source le_rfl

end Step

theorem Script.plain_toDocument {script : Script} (exact : ∀ step ∈ script, step.Exact) :
    (Script.toDocument script).Plain := by
  simpa [toDocument, Step.toDocuments_eq_map] using fun step held => Step.plain_toDocument (exact step held)

theorem Script.ofDocument?_toDocument (source : Source) {script : Script} (exact : ∀ step ∈ script, step.Exact) :
    ofDocument? source (toDocument script) = some script := by
  unfold ofDocument? toDocument
  rw [Step.toDocuments_eq_map]
  exact asList?_map fun step held => Step.ofDocument?_toDocument (exact step held) source

/-! ## Declarations -/

theorem ModuleDeclaration.ofDocument?_toDocument (source : Source) (module : ModuleDeclaration) :
    ofDocument? source module.toDocument = some module := by
  simp [toDocument, ofDocument?]

theorem TypeDeclaration.ofDocument?_toDocument (source : Source) (type : TypeDeclaration) :
    ofDocument? source type.toDocument = some type := by
  obtain ⟨name, scope, module, base, capabilities, visibility⟩ := type
  cases base <;> simp [toDocument, ofDocument?, visibilityField, Visibility.ofName?_name]

theorem TypeDeclaration.plain_toDocument (type : TypeDeclaration) : type.toDocument.Plain := by
  obtain ⟨name, scope, module, base, capabilities, visibility⟩ := type
  cases base <;> simp [toDocument]

theorem DefaultDeclaration.plain_toDocument {default : DefaultDeclaration} (exact : default.Exact) :
    default.toDocument.Plain := by
  cases default with
  | computed body => simp [toDocument]
  | const value => exact Value.plain_toDocument exact.2

/-- A default is never written as null, which would count as absent. -/
theorem DefaultDeclaration.toDocument_ne_null {default : DefaultDeclaration} (exact : default.Exact) :
    default.toDocument ≠ .null := by
  cases default with
  | computed body => simp [toDocument]
  | const value => cases value <;> simp_all [toDocument, Exact, Value.toDocument, ObjectRef.toDocument]

theorem DefaultDeclaration.ofDocument?_toDocument {default : DefaultDeclaration} (exact : default.Exact) :
    ofDocument? default.toDocument = some default := by
  rw [ofDocument?, if_pos (isReadable_of_plain (plain_toDocument exact))]
  cases default with
  | computed body => simp [toDocument, Operand.soleField?]
  | const value => simp [toDocument, Operand.soleField?_value, Value.ofDocument?_toDocument exact.2]

theorem ParamDeclaration.plain_toDocument {param : ParamDeclaration} (exact : param.Exact) :
    param.toDocument.Plain := by
  obtain ⟨name, type, default, relations⟩ := param
  cases default with
  | none => cases relations <;> simp [toDocument, RelationSet.plain_toDocument]
  | some default =>
    have plain := DefaultDeclaration.plain_toDocument (exact default rfl)
    cases relations <;> simp [toDocument, RelationSet.plain_toDocument, plain]

theorem ParamDeclaration.ofDocument?_toDocument (source : Source) {param : ParamDeclaration} (exact : param.Exact) :
    ofDocument? source param.toDocument = some param := by
  obtain ⟨fields, isRecord, name, type, default, relations⟩ : ∃ fields : Fields,
      param.toDocument.fields? source ["name", "type", "default", "relations"] = some fields ∧
        fields "name" = some (.text param.name) ∧ fields "type" = some (.text param.type) ∧
        fields "default" = param.default.map DefaultDeclaration.toDocument ∧
        fields "relations" = param.relations.map RelationSet.toDocument := by
    obtain ⟨name, type, default, relations⟩ := param
    cases default <;> cases relations <;> simp [toDocument]
  have default := Fields.optional_of_written default
    (fun default held => DefaultDeclaration.toDocument_ne_null (exact default held))
    fun default held => DefaultDeclaration.ofDocument?_toDocument (exact default held)
  have relations := Fields.optional_of_written relations (fun _ _ => Document.noConfusion)
    fun relations _ => RelationSet.ofDocument?_toDocument source relations
  simp only [ofDocument?, isRecord, Fields.required, name, type, default, relations, Option.bind_eq_bind,
    Option.bind_some, asText?]

theorem VariantDeclaration.plain_toDocument (variant : VariantDeclaration) : variant.toDocument.Plain := by
  simp [toDocument, RelationSet.plain_toDocument]

theorem VariantDeclaration.ofDocument?_toDocument (source : Source) (variant : VariantDeclaration) :
    ofDocument? source variant.toDocument = some variant := by
  simp [toDocument, ofDocument?, RelationSet.ofDocument?_toDocument]

theorem PointDeclaration.plain_toDocument (point : PointDeclaration) : point.toDocument.Plain := by
  simp [toDocument]

theorem PointDeclaration.ofDocument?_toDocument (source : Source) (point : PointDeclaration) :
    ofDocument? source point.toDocument = some point := by
  simp [toDocument, ofDocument?]

theorem MemberDeclaration.plain_toDocument {member : MemberDeclaration}
    (exact : ∀ param ∈ member.params, param.Exact) : member.toDocument.Plain := by
  have params : ∀ param ∈ member.params, param.toDocument.Plain := fun param held =>
    ParamDeclaration.plain_toDocument (exact param held)
  cases body : member.body <;> simpa [toDocument, body, VariantDeclaration.plain_toDocument,
    PointDeclaration.plain_toDocument] using params

theorem MemberDeclaration.ofDocument?_toDocument (source : Source) {member : MemberDeclaration}
    (exact : ∀ param ∈ member.params, param.Exact) : ofDocument? source member.toDocument = some member := by
  obtain ⟨owner, kind, name, params, returns, visibility, isStatic, passthru, body, variants, points⟩ := member
  have params : asList? (ParamDeclaration.ofDocument? source) (.list (params.map (·.toDocument))) = some params :=
    asList?_map fun param held => ParamDeclaration.ofDocument?_toDocument source (exact param held)
  have variants : asList? (VariantDeclaration.ofDocument? source) (.list (variants.map (·.toDocument))) =
      some variants := asList?_map fun variant _ => VariantDeclaration.ofDocument?_toDocument source variant
  have points : asList? (PointDeclaration.ofDocument? source) (.list (points.map (·.toDocument))) = some points :=
    asList?_map fun point _ => PointDeclaration.ofDocument?_toDocument source point
  cases body <;> simp [toDocument, ofDocument?, visibilityField, params, variants, points, Visibility.ofName?_name,
    MemberKind.ofName?_name]

theorem AspectDeclaration.plain_toDocument (aspect : AspectDeclaration) : aspect.toDocument.Plain := by
  cases scope : aspect.scope <;> simp [toDocument, scope]

theorem AspectDeclaration.ofDocument?_toDocument (source : Source) (aspect : AspectDeclaration) :
    ofDocument? source aspect.toDocument = some aspect := by
  obtain ⟨name, module, scope⟩ := aspect
  cases scope <;> simp [toDocument, ofDocument?]

theorem OwnerDeclaration.plain_toDocument (owner : OwnerDeclaration) : owner.toDocument.Plain := by
  cases owner <;> simp [toDocument]

theorem OwnerDeclaration.ofDocument?_toDocument (owner : OwnerDeclaration) :
    ofDocument? owner.toDocument = some owner := by
  cases owner <;> simp [toDocument, ofDocument?, choice?]

theorem PointcutDeclaration.plain_toDocument (pointcut : PointcutDeclaration) : pointcut.toDocument.Plain := by
  cases returns : pointcut.returns <;> simp [toDocument, returns, OwnerDeclaration.plain_toDocument]

theorem PointcutDeclaration.ofDocument?_toDocument (source : Source) (pointcut : PointcutDeclaration) :
    ofDocument? source pointcut.toDocument = some pointcut := by
  obtain ⟨advice, pattern, returns, body, owner⟩ := pointcut
  cases returns <;> simp [toDocument, ofDocument?, AdviceKind.ofName?_name, OwnerDeclaration.ofDocument?_toDocument]

/-! ## Models -/

namespace Model

/-- A script that comes after all others in the order of names is added behind them. -/
theorem insertScript_last {name : String} (script : Script) {sorted : List (String × Script)}
    (last : ∀ held ∈ sorted, held.1 < name) : insertScript name script sorted = sorted ++ [(name, script)] := by
  induction sorted with
  | nil => rfl
  | cons first sorted ih =>
    have before : first.1 < name := last first (.head _)
    rw [insertScript, if_neg (String.lt_asymm before), if_neg (String.ne_of_lt before).symm,
      ih fun held among => last held (.tail _ among), List.cons_append]

/-- Scripts in the order of their names stay in this order when they are collected. -/
theorem foldl_insertScript {scripts sorted : List (String × Script)}
    (ordered : (sorted ++ scripts).Pairwise fun first second => first.1 < second.1) :
    scripts.foldl (fun sorted script => insertScript script.1 script.2 sorted) sorted = sorted ++ scripts := by
  induction scripts generalizing sorted with
  | nil => simp
  | cons script scripts ih =>
    have last (held : String × Script) (among : held ∈ sorted) : held.1 < script.1 :=
      (List.pairwise_append.mp ordered).2.2 held among script (.head _)
    have split : sorted ++ script :: scripts = (sorted ++ [script]) ++ scripts := by simp
    rw [List.foldl_cons, insertScript_last script.2 last, split]
    exact ih (split ▸ ordered)

theorem scriptsOf?_toDocument (source : Source) {scripts : List (String × Script)}
    (exact : ∀ script ∈ scripts, ∀ step ∈ script.2, step.Exact)
    (ordered : scripts.Pairwise fun first second => first.1 < second.1) :
    scriptsOf? source (.table (scripts.map fun script => (script.1, Script.toDocument script.2))) = some scripts := by
  have read : (scripts.map fun script => (script.1, Script.toDocument script.2)).mapM
      (fun entry : String × Document => (Script.ofDocument? source entry.2).map fun script => (entry.1, script)) =
        some scripts := by
    clear ordered
    induction scripts with
    | nil => rfl
    | cons script scripts ih =>
      have first := Script.ofDocument?_toDocument source (exact script (.head _))
      have others := ih fun other held => exact other (.tail _ held)
      simp [first, others]
  change (List.mapM (fun entry : String × Document =>
      (Script.ofDocument? source entry.2).map fun script => (entry.1, script)) _ >>= fun scripts =>
    some (scripts.foldl (fun sorted script => insertScript script.1 script.2 sorted) [])) = some scripts
  rw [read]
  exact congrArg some (foldl_insertScript ordered)

theorem plain_toDocument {model : Model} (exact : model.Exact) : model.toDocument.Plain := by
  have members : ∀ member ∈ model.members, member.toDocument.Plain := fun member held =>
    MemberDeclaration.plain_toDocument (exact.defaults member held)
  have scripts : ∀ script ∈ model.scripts, (Script.toDocument script.2).Plain := fun script held =>
    Script.plain_toDocument (exact.steps script held)
  simpa [toDocument, ModuleDeclaration.toDocument, TypeDeclaration.plain_toDocument,
    AspectDeclaration.plain_toDocument, PointcutDeclaration.plain_toDocument] using
    ⟨members, fun _ _ name script held _ written => written ▸ scripts (name, script) held⟩

theorem ofDocument?_toDocument (source : Source) {model : Model} (exact : model.Exact) :
    ofDocument? source model.toDocument = some model := by
  obtain ⟨⟨modules, types, members, aspects, pointcuts⟩, scripts⟩ := model
  have modules : asList? (ModuleDeclaration.ofDocument? source) (.list (modules.map (·.toDocument))) =
      some modules := asList?_map fun module _ => ModuleDeclaration.ofDocument?_toDocument source module
  have types : asList? (TypeDeclaration.ofDocument? source) (.list (types.map (·.toDocument))) = some types :=
    asList?_map fun type _ => TypeDeclaration.ofDocument?_toDocument source type
  have members : asList? (MemberDeclaration.ofDocument? source) (.list (members.map (·.toDocument))) =
      some members :=
    asList?_map fun member held => MemberDeclaration.ofDocument?_toDocument source (exact.defaults member held)
  have aspects : asList? (AspectDeclaration.ofDocument? source) (.list (aspects.map (·.toDocument))) =
      some aspects := asList?_map fun aspect _ => AspectDeclaration.ofDocument?_toDocument source aspect
  have pointcuts : asList? (PointcutDeclaration.ofDocument? source) (.list (pointcuts.map (·.toDocument))) =
      some pointcuts := asList?_map fun pointcut _ => PointcutDeclaration.ofDocument?_toDocument source pointcut
  have scripts := scriptsOf?_toDocument source exact.steps exact.ordered
  simp [toDocument, ofDocument?, modules, types, members, aspects, pointcuts, scripts]

/-- **A model that is saved is loaded as it was**, if its text can say what it is and does not nest too deep. -/
theorem ofJson?_toJson {model : Model} (exact : model.Exact) (shallow : model.toDocument.height < Json.depthLimit) :
    ofJson? model.toDocument.toJson = some model := by
  rw [ofJson?, Document.read?_toJson (plain_toDocument exact) shallow]
  exact ofDocument?_toDocument .json exact

/-- A ledger with a default, and with a step that lies in another one. -/
def ledger : Model where
  modules := [⟨"books"⟩]
  types := [{ name := "Account", scope := "Acme", module := "books", capabilities := ["IAudit"] }]
  members :=
    [{ owner := "Account", name := "Pay", body := some "pay"
       params := [{ name := "sum", type := "int", default := some (.const (.int (-5))) }] }]
  aspects := [{ name := "Watch", module := "books", scope := some "Acme.*" }]
  pointcuts := [{ advice := .before, pattern := "Pay", body := "audit", owner := .aspect "Watch" }]
  scripts :=
    [("audit", [.call "note" .this true [.literal .null, .var "sum"] (some "seen")]),
      ("pay", [.guard (.only .sameInstance) [.give (.arg 0)] [.fault "no \"access\"\n"], .checkpoint])]

theorem ofJson?_toJson_ledger :
    ledger.toDocument.height = 7 ∧ ofJson? ledger.toDocument.toJson = some ledger := by
  have exact : ledger.Exact := {
    defaults := by
      simp only [ledger, ParamDeclaration.Exact, List.forall_mem_singleton, Option.mem_some_iff, forall_eq']
      exact ⟨by decide, show Word.isSigned (-5) = true by decide⟩
    steps := by
      have args : ∀ arg ∈ [Operand.literal .null, .var "sum"], arg.Exact := by simp [Operand.Exact, Value.Exact]
      have inside : ∀ step ∈ [Step.give (.arg 0)], step.Exact := by
        simpa using .give (show (0 : Nat) < Word.count 64 by decide)
      have outside : ∀ step ∈ [Step.fault "no \"access\"\n"], step.Exact := by simpa using .fault _
      have onThis : Target.this.Exact := trivial
      simpa [ledger] using ⟨.call "note" onThis true args (some "seen"),
        .guard (.only .sameInstance) inside outside, Step.Exact.checkpoint⟩
    ordered := by decide }
  exact ⟨by decide, ofJson?_toJson exact (by decide)⟩

end Model

end Weaving
