import Mathlib.Logic.Equiv.Defs
import Weaving.Advice.Matcher
import Weaving.Classification

/-!
Catalogs that differ in the numbers of their types. One catalog is another one renamed when everything in
it stands where it stood, but for the types, which stand at the places that their identifiers are renamed
to, and for the identifiers of types in owners and bases (`Catalog.Renamed`). Names then find the same types,
and every question about types has the same answer: base chains, interfaces, assignability, dispatch and
the relations of calls. So advice is planned alike, site by site (`Catalog.Renamed.plans`).
-/

namespace Weaving

variable (rename : Equiv.Perm TypeId)

/-! ## Entries -/

def TypeEntry.renamed (type : TypeEntry) : TypeEntry :=
  { type with id := rename type.id, base := type.base.map rename }

def MemberEntry.renamed (member : MemberEntry) : MemberEntry := { member with owner := rename member.owner }

def AdviceOwner.renamed : AdviceOwner → AdviceOwner
  | .aspect id => .aspect id
  | .type id => .type (rename id)

def PointcutEntry.renamed (pointcut : PointcutEntry) : PointcutEntry :=
  { pointcut with owner := pointcut.owner.renamed rename }

def ObjectRef.renamed (object : ObjectRef) : ObjectRef := { object with type := rename object.type }

def Caller.renamed (caller : Caller) : Caller :=
  { caller with type := caller.type.map rename, this := caller.this.map (·.renamed rename) }

variable {rename}

@[simp] theorem Caller.type_renamed (caller : Caller) : (caller.renamed rename).type = caller.type.map rename := rfl

@[simp] theorem MemberEntry.owner_renamed (member : MemberEntry) :
    (member.renamed rename).owner = rename member.owner := rfl

@[simp] theorem MemberEntry.isStatic_renamed (member : MemberEntry) :
    (member.renamed rename).isStatic = member.isStatic := rfl

theorem Caller.isSameInstance_renamed (caller : Caller) (receiver : Option ObjectRef) :
    (caller.renamed rename).isSameInstance (receiver.map (·.renamed rename)) = caller.isSameInstance receiver := by
  unfold isSameInstance renamed
  cases caller.this <;> cases receiver <;> rfl

variable (rename) in
/-- Types that stand elsewhere, under other identifiers, and are found by the same names. -/
structure RenamedTypes (types others : List TypeEntry) : Prop where
  count : others.length = types.length
  moved : ∀ id : TypeId, others[(rename id).index]? = types[id.index]?.map (·.renamed rename)
  named : ∀ name, findType? others name = (findType? types name).map rename

namespace Catalog

variable (rename) in
/-- A catalog whose types stand elsewhere. -/
structure Renamed (catalog other : Catalog) : Prop where
  modules : other.modules = catalog.modules
  types : RenamedTypes rename catalog.types other.types
  members : other.members = catalog.members.map (·.renamed rename)
  aspects : other.aspects = catalog.aspects
  pointcuts : other.pointcuts = catalog.pointcuts.map (·.renamed rename)
  bodyNames : other.bodyNames = catalog.bodyNames

namespace Renamed

variable {catalog other : Catalog} (renamed : Renamed rename catalog other)

include renamed

/-! ## Questions -/

theorem type? (id : TypeId) : other.type? (rename id) = (catalog.type? id).map (·.renamed rename) :=
  renamed.types.moved id

theorem findType? (name : String) : other.findType? name = (catalog.findType? name).map rename :=
  renamed.types.named name

theorem member? (id : MemberId) : other.member? id = (catalog.member? id).map (·.renamed rename) := by
  rw [Catalog.member?, renamed.members, List.getElem?_map]
  rfl

theorem pointcut? (id : PointcutId) : other.pointcut? id = (catalog.pointcut? id).map (·.renamed rename) := by
  rw [Catalog.pointcut?, renamed.pointcuts, List.getElem?_map]
  rfl

theorem aspect? (id : AspectId) : other.aspect? id = catalog.aspect? id := by
  rw [Catalog.aspect?, renamed.aspects]
  rfl

theorem typeName (id : TypeId) : other.typeName (rename id) = catalog.typeName id := by
  rw [Catalog.typeName, renamed.type?, Option.map_map]
  rfl

theorem memberPath (id : MemberId) : other.memberPath id = catalog.memberPath id := by
  unfold Catalog.memberPath
  rw [renamed.member?]
  cases catalog.member? id with
  | none => rfl
  | some member => exact congrArg (· ++ "." ++ member.name) (renamed.typeName member.owner)

theorem base? (id : TypeId) : other.base? (rename id) = (catalog.base? id).map rename := by
  rw [Catalog.base?, renamed.type?, Option.bind_map, Catalog.base?, Option.map_bind]
  rfl

theorem chainFrom (limit : Nat) (id : TypeId) :
    other.chainFrom limit (rename id) = (catalog.chainFrom limit id).map rename := by
  induction limit generalizing id with
  | zero => rfl
  | succ limit ih =>
    rw [Catalog.chainFrom, Catalog.chainFrom, renamed.base?]
    cases catalog.base? id with
    | none => rfl
    | some base => exact congrArg (rename id :: ·) (ih base)

theorem baseChain (id : TypeId) : other.baseChain (rename id) = (catalog.baseChain id).map rename := by
  rw [Catalog.baseChain, renamed.types.count]
  exact renamed.chainFrom _ id

theorem isSubtype (sub super : TypeId) :
    other.isSubtype (rename sub) (rename super) = catalog.isSubtype sub super := by
  rw [Catalog.isSubtype, renamed.baseChain, Catalog.isSubtype, Bool.eq_iff_iff]
  simp

theorem isProperSubtype (sub super : TypeId) :
    other.isProperSubtype (rename sub) (rename super) = catalog.isProperSubtype sub super := by
  simp [Catalog.isProperSubtype, renamed.isSubtype]

theorem hasCapability (id : TypeId) (capability : String) :
    other.hasCapability (rename id) capability = catalog.hasCapability id capability := by
  rw [Catalog.hasCapability, renamed.baseChain, List.any_map]
  refine congrArg (List.any _) (funext fun type => ?_)
  rw [Function.comp_apply, renamed.type?, Option.any_map]
  rfl

theorem isAssignable (given expected : String) :
    other.isAssignable given expected = catalog.isAssignable given expected := by
  unfold Catalog.isAssignable
  rw [renamed.findType?, renamed.findType?]
  cases catalog.findType? given with
  | none => rfl
  | some sub =>
    cases catalog.findType? expected with
    | none => simp [renamed.hasCapability]
    | some super => simp [renamed.isSubtype]

theorem findMemberIn? (id : TypeId) (name : String) :
    other.findMemberIn? (rename id) name = catalog.findMemberIn? id name := by
  unfold Catalog.findMemberIn?
  rw [renamed.type?]
  cases catalog.type? id with
  | none => rfl
  | some type =>
    refine congrArg (List.find? · type.members) (funext fun member => ?_)
    rw [renamed.member?, Option.any_map]
    rfl

theorem dispatch? (id : TypeId) (name : String) : other.dispatch? (rename id) name = catalog.dispatch? id name := by
  rw [Catalog.dispatch?, renamed.baseChain, List.findSome?_map]
  exact congrArg (List.findSome? · (catalog.baseChain id)) (funext fun type => renamed.findMemberIn? type name)

theorem isInstanceCode (caller : Caller) :
    other.isInstanceCode (caller.renamed rename) = catalog.isInstanceCode caller := by
  unfold Catalog.isInstanceCode Caller.renamed
  cases caller.member with
  | none => rfl
  | some member =>
    simp only [Option.bind_some, renamed.member?, Option.any_map]
    rfl

theorem classifyModules (caller : Caller) (target : TypeId) :
    other.classifyModules (caller.renamed rename) (rename target) = catalog.classifyModules caller target := by
  unfold Catalog.classifyModules
  rw [renamed.type?, Option.map_map]
  rfl

/-- A call has the same relation to its target. -/
theorem classify (caller : Caller) (receiver : Option ObjectRef) (target : MemberEntry) :
    other.classify (caller.renamed rename) (receiver.map (·.renamed rename)) (target.renamed rename) =
      catalog.classify caller receiver target := by
  unfold Catalog.classify
  rw [renamed.isInstanceCode, caller.isSameInstance_renamed]
  cases type : caller.type with
  | none => simp [type, renamed.classifyModules]
  | some type => simp [type, renamed.classifyModules, renamed.isProperSubtype]

/-! ## Advice -/

theorem ownerAccepts (owner : AdviceOwner) (pattern : Pattern) (type : TypeEntry) :
    other.ownerAccepts (owner.renamed rename) pattern (type.renamed rename) =
      catalog.ownerAccepts owner pattern type := by
  cases owner with
  | aspect id => simp [Catalog.ownerAccepts, AdviceOwner.renamed, renamed.aspect?, TypeEntry.renamed]
  | type id => simp [Catalog.ownerAccepts, AdviceOwner.renamed, TypeEntry.renamed]

theorem typeAccepts (pointcut : PointcutEntry) (type : TypeEntry) :
    other.typeAccepts (pointcut.renamed rename) (type.renamed rename) = catalog.typeAccepts pointcut type := by
  unfold Catalog.typeAccepts
  congr 1
  · exact congrArg₂ _ (congrArg₂ _ (renamed.ownerAccepts pointcut.owner pointcut.pattern type) rfl) rfl
  · exact congrArg (List.all pointcut.pattern.interfaces)
      (funext fun capability => renamed.hasCapability type.id capability)

theorem candidates (id : TypeId) :
    (Matcher.ofCatalog other).candidates (rename id) = (Matcher.ofCatalog catalog).candidates id := by
  unfold Matcher.candidates Matcher.ofCatalog
  simp only [List.getElem?_map]
  rw [renamed.types.moved]
  cases catalog.types[id.index]? with
  | none => rfl
  | some type =>
    have accepted : (catalog.pointcuts.filter fun pointcut =>
          other.typeAccepts (pointcut.renamed rename) (type.renamed rename)) =
        catalog.pointcuts.filter fun pointcut => catalog.typeAccepts pointcut type :=
      List.filter_congr fun pointcut _ => renamed.typeAccepts pointcut type
    simp only [Option.map_some, Option.getD_some, renamed.pointcuts, List.filter_map, List.map_map]
    exact congrArg (List.map PointcutEntry.id) accepted

theorem select (id : TypeId) (test : Pattern → Bool) :
    (Matcher.ofCatalog other).select (rename id) test = (Matcher.ofCatalog catalog).select id test := by
  unfold Matcher.select
  rw [renamed.candidates]
  refine List.filter_congr fun pointcut _ => ?_
  change (other.pointcut? pointcut).any _ = (catalog.pointcut? pointcut).any _
  rw [renamed.pointcut?, Option.any_map]
  rfl

theorem order (ids : List PointcutId) :
    (Matcher.ofCatalog other).order ids = (Matcher.ofCatalog catalog).order ids := by
  have ofKind (kind : AdviceKind) :
      (Matcher.ofCatalog other).ofKind kind ids = (Matcher.ofCatalog catalog).ofKind kind ids := by
    refine List.filter_congr fun pointcut _ => ?_
    change (other.pointcut? pointcut).any _ = (catalog.pointcut? pointcut).any _
    rw [renamed.pointcut?, Option.any_map]
    rfl
  rw [Matcher.order, ofKind, ofKind]
  rfl

theorem plansOf (member : MemberEntry) :
    (Matcher.ofCatalog other).plansOf (member.renamed rename) = (Matcher.ofCatalog catalog).plansOf member := by
  have matchMember : (Matcher.ofCatalog other).matchMember (member.renamed rename) =
      (Matcher.ofCatalog catalog).matchMember member := renamed.select member.owner _
  have matchPoint (index : Nat) : (Matcher.ofCatalog other).matchPoint (member.renamed rename) index =
      (Matcher.ofCatalog catalog).matchPoint member index := by
    unfold Matcher.matchPoint
    cases at_index : member.points[index]? with
    | none => simp [MemberEntry.renamed, at_index]
    | some point =>
      simp only [MemberEntry.renamed, at_index]
      exact renamed.select member.owner _
  unfold Matcher.plansOf
  simp only [matchMember, matchPoint, renamed.order]
  rfl

/-- Advice is planned alike. -/
theorem plans : (Matcher.ofCatalog other).plans = (Matcher.ofCatalog catalog).plans := by
  unfold Matcher.plans
  change (other.members.flatMap _).filter _ = (catalog.members.flatMap _).filter _
  rw [renamed.members, List.flatMap_map]
  simp only [renamed.plansOf]

end Renamed

end Catalog

end Weaving
