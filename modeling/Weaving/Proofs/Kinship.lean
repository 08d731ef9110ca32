import Weaving.Classification
import Weaving.Proofs.Hierarchy

/-!
Kinship of calls. The code that calls is part of the type of its target, of a type below it, of a type above it
or of none of these, and since bases have no loops it is never two of them at once. The class of a call names
the case; among the kin it does not matter what modules there are, and among strangers nothing else does. What
lies below from one end of a call lies above from the other, so that calls there and back have classes that
answer each other (`Registry.kinship_of_build`).
-/

namespace Weaving

/-! ## Kin -/

/-- A type comes to another along one base or more. -/
def Declarations.Inherits (declared : Declarations) : Nat → Nat → Prop :=
  Relation.TransGen declared.Extends

namespace Caller

variable (caller : Caller) (declared : Declarations) (target : TypeId)

/-- The code is part of a type that inherits from another. -/
def Below : Prop := ∃ type, caller.type = some type ∧ declared.Inherits type.index target.index

/-- The code is part of a type from which another inherits. -/
def Above : Prop := ∃ type, caller.type = some type ∧ declared.Inherits target.index type.index

/-- The code is part of a type, or of one below or above it. -/
def Kin : Prop := caller.type = some target ∨ caller.Below declared target ∨ caller.Above declared target

end Caller

namespace Catalog

variable (catalog : Catalog)

/-- A call stays with its object: code that has a receiver calls a member that has one, on the same object. -/
structure StaysOn (caller : Caller) (receiver : Option ObjectRef) (target : MemberEntry) : Prop where
  code : ∃ id member, caller.member = some id ∧ catalog.member? id = some member ∧ member.isStatic = false
  target : target.isStatic = false
  object : ∃ this object, caller.this = some this ∧ receiver = some object ∧ this.id = object.id

/-- The caller says that it is of the module of a type. -/
def StatesModule (caller : Caller) (type : TypeId) : Prop :=
  ∃ entry, catalog.type? type = some entry ∧ caller.module = some entry.module

/-- What each class says of the calling code and the target. -/
inductive Related (declared : Declarations) (caller : Caller) (receiver : Option ObjectRef)
    (target : MemberEntry) : RelationClass → Prop
  | sameInstance (own : caller.type = some target.owner) (stays : catalog.StaysOn caller receiver target) :
      Related declared caller receiver target .sameInstance
  | sameType (own : caller.type = some target.owner) (leaves : ¬ catalog.StaysOn caller receiver target) :
      Related declared caller receiver target .sameTypeDifferentInstance
  | derivedType (below : caller.Below declared target.owner) :
      Related declared caller receiver target .derivedType
  | baseType (above : caller.Above declared target.owner) : Related declared caller receiver target .baseType
  | sameModule (strange : ¬ caller.Kin declared target.owner)
      (neighbour : catalog.StatesModule caller target.owner) :
      Related declared caller receiver target .sameModule
  | external (strange : ¬ caller.Kin declared target.owner)
      (foreign : ¬ catalog.StatesModule caller target.owner) :
      Related declared caller receiver target .external

/-- The class of a call is the one that says what is so, and no caller is kin to a type in two ways. -/
structure Kinship (declared : Declarations) (caller : Caller) (receiver : Option ObjectRef)
    (target : MemberEntry) : Prop where
  classify : ∀ relation, catalog.classify caller receiver target = relation ↔
    catalog.Related declared caller receiver target relation
  notBelow : caller.type = some target.owner → ¬ caller.Below declared target.owner
  notAbove : caller.type = some target.owner → ¬ caller.Above declared target.owner
  oneSide : caller.Below declared target.owner → ¬ caller.Above declared target.owner

/-- Calls between two members, there and back, have classes that answer each other, whatever objects there are.
-/
structure Mutual (first second : MemberEntry) : Prop where
  derivedType : ∀ this that receiver object,
    catalog.classify (catalog.callerInMember first.id this) receiver second = .derivedType ↔
      catalog.classify (catalog.callerInMember second.id that) object first = .baseType
  sameModule : ∀ this that receiver object,
    catalog.classify (catalog.callerInMember first.id this) receiver second = .sameModule ↔
      catalog.classify (catalog.callerInMember second.id that) object first = .sameModule

variable {catalog} {declared : Declarations} {caller : Caller} {receiver : Option ObjectRef}
  {target : MemberEntry} {type sub super : TypeId}

/-! ## What the classes turn on -/

/-- Proper subtypes are the types from which a base or more lead to another; a type that is not there has none.
-/
theorem Closed.isProperSubtype_iff (closed : catalog.Closed)
    (unlooped : ∀ type, ¬ Relation.TransGen catalog.HasBase type type) :
    catalog.isProperSubtype sub super = true ↔ Relation.TransGen catalog.HasBase sub super := by
  rw [isProperSubtype, Bool.and_eq_true, decide_eq_true_eq]
  by_cases inside : sub.index < catalog.types.length
  · rw [closed.isSubtype_iff inside]
    constructor
    · rintro ⟨other, derives⟩
      exact (Relation.reflTransGen_iff_eq_or_transGen.mp derives).resolve_left (Ne.symm other)
    · intro above
      refine ⟨?_, above.to_reflTransGen⟩
      rintro rfl
      exact unlooped sub above
  · have unknown : catalog.base? sub = none := by
      rw [base?, type?, List.getElem?_eq_none (Nat.le_of_not_lt inside)]
      rfl
    constructor
    · rintro ⟨other, above⟩
      rw [isSubtype, List.contains_iff_mem, baseChain, mem_chainFrom_iff] at above
      obtain ⟨_ | steps, -, reached⟩ := above
      · exact absurd (Option.some.inj reached) other
      · rw [ancestor?, unknown] at reached
        cases reached
    · intro above
      obtain ⟨base, isBase, -⟩ := Relation.TransGen.head'_iff.mp above
      cases unknown.symm.trans isBase

theorem isInstanceCode_iff : catalog.isInstanceCode caller = true ↔
    ∃ id member, caller.member = some id ∧ catalog.member? id = some member ∧ member.isStatic = false := by
  simp only [isInstanceCode, Option.any_eq_true, Option.bind_eq_some_iff, Bool.not_eq_true']
  constructor
  · rintro ⟨member, ⟨id, isMember, found⟩, hasReceiver⟩
    exact ⟨id, member, isMember, found, hasReceiver⟩
  · rintro ⟨id, member, isMember, found, hasReceiver⟩
    exact ⟨member, ⟨id, isMember, found⟩, hasReceiver⟩

theorem isSameInstance_iff : caller.isSameInstance receiver = true ↔
    ∃ this object, caller.this = some this ∧ receiver = some object ∧ this.id = object.id := by
  unfold Caller.isSameInstance
  cases caller.this <;> cases receiver <;> simp

theorem staysOn_iff : (catalog.isInstanceCode caller && !target.isStatic && caller.isSameInstance receiver) =
    true ↔ catalog.StaysOn caller receiver target := by
  rw [Bool.and_eq_true, Bool.and_eq_true, isInstanceCode_iff, isSameInstance_iff, Bool.not_eq_true']
  constructor
  · rintro ⟨⟨code, target⟩, object⟩
    exact ⟨code, target, object⟩
  · intro stays
    exact ⟨⟨stays.code, stays.target⟩, stays.object⟩

theorem statesModule_iff :
    (caller.module.isSome = true ∧ caller.module = (catalog.type? type).map (·.module)) ↔
      catalog.StatesModule caller type := by
  unfold StatesModule
  cases catalog.type? type with
  | none =>
    constructor
    · rintro ⟨stated, same⟩
      rw [same] at stated
      cases stated
    · rintro ⟨entry, found, -⟩
      cases found
  | some entry =>
    constructor
    · rintro ⟨-, same⟩
      exact ⟨entry, rfl, same⟩
    · rintro ⟨_, ⟨rfl⟩, same⟩
      exact ⟨same ▸ rfl, same⟩

theorem classifyModules_of_states (neighbour : catalog.StatesModule caller type) :
    catalog.classifyModules caller type = .sameModule :=
  if_pos (statesModule_iff.mpr neighbour)

theorem classifyModules_of_not_states (foreign : ¬ catalog.StatesModule caller type) :
    catalog.classifyModules caller type = .external :=
  if_neg (mt statesModule_iff.mp foreign)

end Catalog

/-! ## Classes of calls -/

namespace Represents

variable {declared : Declarations} {catalog : Catalog} (represents : Represents declared catalog)
  (closed : catalog.Closed) (straight : ∀ position, ¬ declared.Inherits position position)
  {caller : Caller} {receiver : Option ObjectRef} {target : MemberEntry} {type sub super : TypeId}

include represents in
/-- Types come to each other along the base links of a catalog where they do along declared bases. -/
theorem inherits_iff :
    Relation.TransGen catalog.HasBase sub super ↔ declared.Inherits sub.index super.index := by
  constructor
  · intro above
    exact above.lift Id.index fun a b => (represents.bases a b).mp
  · intro above
    exact above.lift Id.mk fun a b => (represents.bases ⟨a⟩ ⟨b⟩).mpr

include straight

theorem not_below_of_own (own : caller.type = some type) : ¬ caller.Below declared type := by
  rintro ⟨other, isOther, inherits⟩
  obtain rfl := Option.some.inj (own.symm.trans isOther)
  exact straight _ inherits

theorem not_above_of_own (own : caller.type = some type) : ¬ caller.Above declared type := by
  rintro ⟨other, isOther, inherits⟩
  obtain rfl := Option.some.inj (own.symm.trans isOther)
  exact straight _ inherits

theorem not_above_of_below (below : caller.Below declared type) : ¬ caller.Above declared type := by
  obtain ⟨own, isOwn, up⟩ := below
  rintro ⟨other, isOther, down⟩
  obtain rfl := Option.some.inj (isOwn.symm.trans isOther)
  exact straight _ (up.trans down)

include represents closed

theorem isProperSubtype_iff :
    catalog.isProperSubtype sub super = true ↔ declared.Inherits sub.index super.index := by
  rw [closed.isProperSubtype_iff ((loops_iff represents.bases).mpr straight)]
  exact represents.inherits_iff

/-- What the class of a call says is so. -/
theorem related_classify :
    catalog.Related declared caller receiver target (catalog.classify caller receiver target) := by
  have proper {sub super : TypeId} :
      catalog.isProperSubtype sub super = true ↔ declared.Inherits sub.index super.index :=
    represents.isProperSubtype_iff closed straight
  have strangers (strange : ¬ caller.Kin declared target.owner) :
      catalog.Related declared caller receiver target (catalog.classifyModules caller target.owner) := by
    by_cases neighbour : catalog.StatesModule caller target.owner
    · rw [Catalog.classifyModules_of_states neighbour]
      exact .sameModule strange neighbour
    · rw [Catalog.classifyModules_of_not_states neighbour]
      exact .external strange neighbour
  unfold Catalog.classify
  cases isType : caller.type with
  | none =>
    refine strangers ?_
    simp [Caller.Kin, Caller.Below, Caller.Above, isType]
  | some type =>
    dsimp only
    split
    · rename_i same
      subst same
      split
      · rename_i stays
        exact .sameInstance isType (Catalog.staysOn_iff.mp stays)
      · rename_i leaves
        exact .sameType isType (mt Catalog.staysOn_iff.mpr leaves)
    · rename_i other
      split
      · rename_i below
        exact .derivedType ⟨type, isType, proper.mp below⟩
      · rename_i notBelow
        split
        · rename_i above
          exact .baseType ⟨type, isType, proper.mp above⟩
        · rename_i notAbove
          refine strangers ?_
          rintro (own | ⟨_, isOther, inherits⟩ | ⟨_, isOther, inherits⟩)
          · exact other (Option.some.inj (isType.symm.trans own))
          · obtain rfl := Option.some.inj (isType.symm.trans isOther)
            exact notBelow (proper.mpr inherits)
          · obtain rfl := Option.some.inj (isType.symm.trans isOther)
            exact notAbove (proper.mpr inherits)

omit represents closed

/-- No two classes are true of the same call. -/
theorem related_unique {first second : RelationClass}
    (one : catalog.Related declared caller receiver target first)
    (other : catalog.Related declared caller receiver target second) : first = second := by
  have notBelow : caller.type = some target.owner → ¬ caller.Below declared target.owner :=
    not_below_of_own straight
  have notAbove : caller.type = some target.owner → ¬ caller.Above declared target.owner :=
    not_above_of_own straight
  have oneSide : caller.Below declared target.owner → ¬ caller.Above declared target.owner :=
    not_above_of_below straight
  cases one <;> cases other <;> simp_all [Caller.Kin]

include represents closed

theorem kinship : catalog.Kinship declared caller receiver target where
  classify relation := by
    have related : catalog.Related declared caller receiver target (catalog.classify caller receiver target) :=
      represents.related_classify closed straight
    constructor
    · rintro rfl
      exact related
    · exact related_unique straight related
  notBelow := not_below_of_own straight
  notAbove := not_above_of_own straight
  oneSide := not_above_of_below straight

end Represents

/-! ## Calls there and back -/

section Members

variable {declared : Declarations} {catalog : Catalog} {first second : MemberEntry}

namespace Catalog

theorem type_callerInMember (found : catalog.member? first.id = some first) (this : Option ObjectRef) :
    (catalog.callerInMember first.id this).type = some first.owner := by
  rw [callerInMember, found]
  rfl

theorem module_callerInMember (found : catalog.member? first.id = some first) (this : Option ObjectRef) :
    (catalog.callerInMember first.id this).module = (catalog.type? first.owner).map (·.module) := by
  rw [callerInMember, found]
  rfl

theorem below_callerInMember (found : catalog.member? first.id = some first) (this : Option ObjectRef)
    (type : TypeId) : (catalog.callerInMember first.id this).Below declared type ↔
      declared.Inherits first.owner.index type.index := by
  simp [Caller.Below, type_callerInMember found]

theorem above_callerInMember (found : catalog.member? first.id = some first) (this : Option ObjectRef)
    (type : TypeId) : (catalog.callerInMember first.id this).Above declared type ↔
      declared.Inherits type.index first.owner.index := by
  simp [Caller.Above, type_callerInMember found]

/-- Members are kin to the types of each other. -/
theorem kin_callerInMember (isFirst : catalog.member? first.id = some first)
    (isSecond : catalog.member? second.id = some second) (this that : Option ObjectRef) :
    (catalog.callerInMember first.id this).Kin declared second.owner ↔
      (catalog.callerInMember second.id that).Kin declared first.owner := by
  unfold Caller.Kin
  rw [type_callerInMember isFirst, type_callerInMember isSecond, below_callerInMember isFirst,
    below_callerInMember isSecond, above_callerInMember isFirst, above_callerInMember isSecond]
  constructor
  · rintro (same | below | above)
    · exact .inl same.symm
    · exact .inr (.inr below)
    · exact .inr (.inl above)
  · rintro (same | below | above)
    · exact .inl same.symm
    · exact .inr (.inr below)
    · exact .inr (.inl above)

theorem statesModule_callerInMember (isFirst : catalog.member? first.id = some first)
    (isSecond : catalog.member? second.id = some second) {this : Option ObjectRef} (that : Option ObjectRef)
    (neighbour : catalog.StatesModule (catalog.callerInMember first.id this) second.owner) :
    catalog.StatesModule (catalog.callerInMember second.id that) first.owner := by
  obtain ⟨entry, found, states⟩ := neighbour
  rw [module_callerInMember isFirst] at states
  obtain ⟨own, isOwn, same⟩ := Option.map_eq_some_iff.mp states
  refine ⟨own, isOwn, ?_⟩
  rw [module_callerInMember isSecond, found, same]
  rfl

/-- Where classes tell kinship, calls there and back have classes that answer each other. -/
theorem mutual_of_kinship (kinship : ∀ caller receiver target, catalog.Kinship declared caller receiver target)
    (isFirst : catalog.member? first.id = some first) (isSecond : catalog.member? second.id = some second) :
    catalog.Mutual first second where
  derivedType this that receiver object := by
    rw [(kinship _ receiver second).classify, (kinship _ object first).classify]
    constructor
    · intro related
      cases related with
      | derivedType below =>
        rw [below_callerInMember isFirst] at below
        exact .baseType ((above_callerInMember isSecond that first.owner).mpr below)
    · intro related
      cases related with
      | baseType above =>
        rw [above_callerInMember isSecond] at above
        exact .derivedType ((below_callerInMember isFirst this second.owner).mpr above)
  sameModule this that receiver object := by
    rw [(kinship _ receiver second).classify, (kinship _ object first).classify]
    constructor
    · intro related
      cases related with
      | sameModule strange neighbour =>
        rw [kin_callerInMember isFirst isSecond this that] at strange
        exact .sameModule strange (statesModule_callerInMember isFirst isSecond that neighbour)
    · intro related
      cases related with
      | sameModule strange neighbour =>
        rw [kin_callerInMember isSecond isFirst that this] at strange
        exact .sameModule strange (statesModule_callerInMember isSecond isFirst this neighbour)

end Catalog

end Members

variable {declared : Declarations} {bodies : List String} {registry : Registry}

/-- An accepted registry represents what is declared. -/
theorem Registry.represents_of_build (accepted : Registry.build declared bodies = .ok registry) :
    Represents declared registry.toCatalog := by
  obtain ⟨rfl, clean⟩ := eq_ofCatalog_of_build accepted
  exact Resolution.represents_catalog clean

/-- Registries are accepted without loops, so their classes tell kinship. -/
theorem Registry.kinship_of_accepted (accepted : Registry.build declared bodies = .ok registry)
    (caller : Caller) (receiver : Option ObjectRef) (target : MemberEntry) :
    registry.Kinship declared caller receiver target := by
  have closed := (closed_of_build accepted).toClosed
  have represents := represents_of_build accepted
  obtain ⟨rfl, clean⟩ := eq_ofCatalog_of_build accepted
  exact represents.kinship closed (Resolution.catalog_clean_iff.mp clean).loops

/-- **Classes tell kinship.** In an accepted registry the class of a call is the one that says how the caller is
related to the target, whoever calls: of the same type on the same object or not, of a type from which declared
bases lead to that of the target or that they reach from there, and otherwise of its module or of none that
matters. No caller is kin in two ways; and between two members a call is from below just if the one back is from
above, and between neighbours just if the one back is. -/
theorem Registry.kinship_of_build (accepted : Registry.build declared bodies = .ok registry) :
    (∀ caller receiver target, registry.Kinship declared caller receiver target) ∧
      ∀ first ∈ registry.members, ∀ second ∈ registry.members, registry.Mutual first second := by
  have closed := (closed_of_build accepted).toClosed
  have kinship := kinship_of_accepted accepted
  refine ⟨kinship, fun first isFirst second isSecond => ?_⟩
  exact Catalog.mutual_of_kinship kinship (closed.members.getElem?_of_mem isFirst)
    (closed.members.getElem?_of_mem isSecond)

/-- A sloop is a boat and a boat is a vessel; the crane beside them is of their module and no kin of theirs. -/
def harbour : Declarations where
  modules := [⟨"port"⟩]
  types :=
    [{ name := "Sloop", module := "port", base := some "Boat" },
      { name := "Boat", module := "port", base := some "Vessel" },
      { name := "Vessel", module := "port" },
      { name := "Crane", module := "port" }]
  members :=
    [{ owner := "Sloop", name := "Sail", body := some "work" },
      { owner := "Vessel", name := "Moor", body := some "work" },
      { owner := "Crane", name := "Lift", body := some "work" }]

/-- A sloop calls a vessel from below, through the boat in between, so that it is called from above; and it calls
the crane as a neighbour, so that it is called as one. -/
theorem Registry.kinship_of_harbour :
    ∃ registry sloop vessel crane, Registry.build harbour ["work"] = .ok registry ∧
      registry.member? ⟨0⟩ = some sloop ∧ registry.member? ⟨1⟩ = some vessel ∧
      registry.member? ⟨2⟩ = some crane ∧ harbour.Inherits 0 2 ∧
      registry.classify (registry.callerInMember vessel.id none) none sloop = .baseType ∧
      registry.classify (registry.callerInMember crane.id none) none sloop = .sameModule := by
  have runs : (Registry.build harbour ["work"]).toOption.map (fun registry =>
      (registry.member? ⟨0⟩).any fun sloop => (registry.member? ⟨1⟩).any fun vessel =>
        (registry.member? ⟨2⟩).any fun crane => decide (vessel.owner = ⟨2⟩ ∧
          (registry.callerInMember sloop.id none).type = some ⟨0⟩ ∧
          registry.classify (registry.callerInMember sloop.id none) none vessel = .derivedType ∧
          registry.classify (registry.callerInMember sloop.id none) none crane = .sameModule)) = some true := by
    decide +kernel
  obtain ⟨registry, accepted, answers⟩ := exists_of_run runs
  obtain ⟨kinship, thereAndBack⟩ := kinship_of_build accepted
  simp only [Option.any_eq_true, decide_eq_true_eq] at answers
  obtain ⟨sloop, isSloop, vessel, isVessel, crane, isCrane, isOwner, ofSloop, below, neighbour⟩ := answers
  have sloopHeld : sloop ∈ registry.members := List.mem_of_getElem? isSloop
  have vesselHeld : vessel ∈ registry.members := List.mem_of_getElem? isVessel
  have craneHeld : crane ∈ registry.members := List.mem_of_getElem? isCrane
  refine ⟨registry, sloop, vessel, crane, accepted, isSloop, isVessel, isCrane, ?_, ?_, ?_⟩
  · cases ((kinship _ _ _).classify _).mp below with
    | derivedType inherits =>
      obtain ⟨type, isType, inherits⟩ := inherits
      obtain rfl := Option.some.inj (ofSloop.symm.trans isType)
      rw [isOwner] at inherits
      exact inherits
  · exact ((thereAndBack _ sloopHeld _ vesselHeld).derivedType none none none none).mp below
  · exact ((thereAndBack _ sloopHeld _ craneHeld).sameModule none none none none).mp neighbour

end Weaving
