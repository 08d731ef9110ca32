import Weaving.Proofs.Kinship
import Weaving.Script.Meaning

/-!
Calls by name on one's own object. Code that runs for an object is part of a type of the object's chain, and so is
whatever member the object answers with. Of two types on one chain, one derives from the other; so the class of the
call is told by which of them is the lower one, and it is never that of a neighbour or a stranger, whatever modules
the types are spread over (`Registry.own_call_of_build`).
-/

namespace Weaving

namespace Catalog

variable {catalog : Catalog} {type sub super top : TypeId} {name : String} {id : MemberId}

/-- What a type lists under a name is a member of this type with this name. -/
theorem Closed.exists_of_findMemberIn? (closed : catalog.Closed)
    (found : catalog.findMemberIn? type name = some id) :
    ∃ target ∈ catalog.members, catalog.member? id = some target ∧ target.owner = type ∧ target.name = name := by
  obtain ⟨entry, there, listed⟩ := Option.bind_eq_some_iff.mp found
  have isMember := List.mem_of_find?_eq_some listed
  rw [closed.owned entry (List.mem_of_getElem? there)] at isMember
  obtain ⟨target, among, rfl⟩ := List.mem_map.mp isMember
  obtain ⟨held, owned⟩ := List.mem_filter.mp among
  have known : catalog.member? target.id = some target := closed.members.getElem?_of_mem held
  have named := List.find?_some listed
  simp only [known, Option.any_some, decide_eq_true_eq] at named
  have numbered : entry.id = type := closed.types _ _ there
  exact ⟨target, held, known, numbered ▸ of_decide_eq_true owned, named⟩

/-- An object answers with a member of a type on its chain. -/
theorem Closed.exists_of_dispatch? (closed : catalog.Closed) (answers : catalog.dispatch? type name = some id) :
    ∃ target ∈ catalog.members, catalog.member? id = some target ∧ target.name = name ∧
      catalog.Derives type target.owner := by
  obtain ⟨super, above, found⟩ := List.exists_of_findSome?_eq_some answers
  obtain ⟨target, held, known, owned, named⟩ := closed.exists_of_findMemberIn? found
  have inside := (closed.member target held).owner
  rw [← owned] at above
  exact ⟨target, held, known, named, (catalog.mem_baseChain_iff inside).mp above⟩

/-- Of two types above one, one derives from the other. -/
theorem comparable_of_derives (first : catalog.Derives type sub) (second : catalog.Derives type super) :
    sub = super ∨ Relation.TransGen catalog.HasBase sub super ∨ Relation.TransGen catalog.HasBase super sub := by
  rcases first.total_of_right_unique catalog.only_base second with up | down
  · rcases Relation.reflTransGen_iff_eq_or_transGen.mp up with same | above
    · exact .inl same.symm
    · exact .inr (.inl above)
  · rcases Relation.reflTransGen_iff_eq_or_transGen.mp down with same | above
    · exact .inl same
    · exact .inr (.inr above)

/-- A call of a member on the object for which the calling code runs. Its class is told by the types of the two
members alone, and these are kin. -/
structure OwnCall (catalog : Catalog) (declared : Declarations) (code : MemberEntry) (this : ObjectRef)
    (target : MemberEntry) : Prop where
  same : target.owner = code.owner →
    catalog.classify (catalog.callerInMember code.id (some this)) (some this) target =
      if target.isStatic then .sameTypeDifferentInstance else .sameInstance
  up : declared.Inherits code.owner.index target.owner.index →
    catalog.classify (catalog.callerInMember code.id (some this)) (some this) target = .derivedType
  down : declared.Inherits target.owner.index code.owner.index →
    catalog.classify (catalog.callerInMember code.id (some this)) (some this) target = .baseType
  kin : target.owner = code.owner ∨ declared.Inherits code.owner.index target.owner.index ∨
    declared.Inherits target.owner.index code.owner.index
  notNeighbour :
    catalog.classify (catalog.callerInMember code.id (some this)) (some this) target ≠ .sameModule
  notStranger : catalog.classify (catalog.callerInMember code.id (some this)) (some this) target ≠ .external

/-- Between kin a call on the own object has the class that their types say. -/
theorem ownCall_of_kin {declared : Declarations} {code target : MemberEntry} {this : ObjectRef}
    (kinship : ∀ caller receiver target, catalog.Kinship declared caller receiver target)
    (isCode : catalog.member? code.id = some code) (hasReceiver : code.isStatic = false)
    (kin : target.owner = code.owner ∨ declared.Inherits code.owner.index target.owner.index ∨
      declared.Inherits target.owner.index code.owner.index) :
    catalog.OwnCall declared code this target := by
  have classified := (kinship (catalog.callerInMember code.id (some this)) (some this) target).classify
  have isType := type_callerInMember isCode (some this)
  have isKin : (catalog.callerInMember code.id (some this)).Kin declared target.owner := by
    unfold Caller.Kin
    rw [isType, below_callerInMember isCode, above_callerInMember isCode, Option.some.injEq, eq_comm]
    exact kin
  refine ⟨fun same => ?_, fun above => ?_, fun below => ?_, kin, fun neighbour => ?_, fun stranger => ?_⟩
  · rw [← same] at isType
    cases static : target.isStatic with
    | true =>
      refine (classified _).mpr (.sameType isType ?_)
      intro stays
      cases static.symm.trans stays.target
    | false =>
      refine (classified _).mpr (.sameInstance isType ⟨?_, static, this, this, rfl, rfl, rfl⟩)
      exact ⟨code.id, code, rfl, isCode, hasReceiver⟩
  · exact (classified _).mpr (.derivedType ((below_callerInMember isCode _ _).mpr above))
  · exact (classified _).mpr (.baseType ((above_callerInMember isCode _ _).mpr below))
  · cases (classified _).mp neighbour with
    | sameModule strange _ => exact strange isKin
  · cases (classified _).mp stranger with
    | external strange _ => exact strange isKin

end Catalog

/-- A call by name asks for the member with which the object answers, on the object itself. -/
theorem Script.request_of_dispatch? {context : Context} {this : ObjectRef} {name : String} {id : MemberId}
    (answers : context.registry.dispatch? this.type name = some id) (args : List Value) :
    Script.request context name (some this) true args = .ok ⟨id, some this, args⟩ := by
  simp only [Script.request, Script.dispatch, if_true]
  rw [answers]
  rfl

variable {declared : Declarations} {bodies : List String} {registry : Registry}

/-- **An object is no stranger to itself.** In an accepted registry, what an object answers to code that runs for
it, and that is part of a type from which that of the object derives, is a member of the code's own type, of one
above or of one below it. The class of the call is told by which of them it is, so it is never that of a
neighbour or a stranger. -/
theorem Registry.own_call_of_build (accepted : Registry.build declared bodies = .ok registry)
    {code : MemberEntry} (held : code ∈ registry.members) (hasReceiver : code.isStatic = false)
    {this : ObjectRef} (fits : declared.Derives this.type.index code.owner.index) {name : String}
    {id : MemberId} (answers : registry.dispatch? this.type name = some id) :
    ∃ target ∈ registry.members, registry.member? id = some target ∧ target.name = name ∧
      registry.OwnCall declared code this target ∧
      ∀ context : Context, context.registry = registry → ∀ args,
        Script.request context name (some this) true args = .ok ⟨id, some this, args⟩ := by
  have closed := (closed_of_build accepted).toClosed
  have kinship := kinship_of_accepted accepted
  have represents := represents_of_build accepted
  obtain ⟨target, isTarget, found, named, inherited⟩ := closed.exists_of_dispatch? answers
  have isCode : registry.member? code.id = some code := closed.members.getElem?_of_mem held
  -- The object's type derives from both types, so the two are on one chain.
  have kin : target.owner = code.owner ∨ declared.Inherits code.owner.index target.owner.index ∨
      declared.Inherits target.owner.index code.owner.index := by
    rw [← represents.inherits_iff, ← represents.inherits_iff, eq_comm]
    exact Catalog.comparable_of_derives (represents.derives_iff.mpr fits) inherited
  refine ⟨target, isTarget, found, named, Catalog.ownCall_of_kin kinship isCode hasReceiver kin, ?_⟩
  rintro context rfl args
  exact Script.request_of_dispatch? answers args

/-- Savings are an account that is kept in a module of its own, and they name their own kind. -/
def savingsBank : Declarations where
  modules := [⟨"core"⟩, ⟨"retail"⟩]
  types :=
    [{ name := "Account", module := "core" },
      { name := "Savings", module := "retail", base := some "Account" }]
  members :=
    [{ owner := "Account", name := "Describe", body := some "work" },
      { owner := "Account", name := "Kind", body := some "work" },
      { owner := "Savings", name := "Kind", body := some "work" }]

/-- The code of an account that runs for savings asks for their kind across the modules, as from a base. -/
theorem Registry.own_call_of_savingsBank :
    ∃ registry describe kind, Registry.build savingsBank ["work"] = .ok registry ∧
      registry.member? ⟨0⟩ = some describe ∧ describe.owner = ⟨0⟩ ∧
      registry.member? ⟨2⟩ = some kind ∧ kind.owner = ⟨1⟩ ∧ kind.name = "Kind" ∧
      registry.classify (registry.callerInMember describe.id (some ⟨7, ⟨1⟩⟩)) (some ⟨7, ⟨1⟩⟩) kind = .baseType := by
  have runs : (Registry.build savingsBank ["work"]).toOption.map (fun registry =>
      (registry.member? ⟨0⟩).any fun describe => (registry.member? ⟨2⟩).any fun kind =>
        decide (describe.owner = ⟨0⟩ ∧ describe.isStatic = false ∧ kind.owner = ⟨1⟩ ∧
          registry.base? ⟨1⟩ = some ⟨0⟩ ∧ registry.dispatch? ⟨1⟩ "Kind" = some ⟨2⟩)) = some true := by
    decide +kernel
  obtain ⟨registry, accepted, answers⟩ := exists_of_run runs
  simp only [Option.any_eq_true, decide_eq_true_eq] at answers
  obtain ⟨describe, isDescribe, kind, isKind, isAccount, hasReceiver, isSavings, isBase, asked⟩ := answers
  have up : savingsBank.Extends 1 0 := ((represents_of_build accepted).bases ⟨1⟩ ⟨0⟩).mp isBase
  have fits : savingsBank.Derives (⟨7, ⟨1⟩⟩ : ObjectRef).type.index describe.owner.index := by
    rw [isAccount]
    exact Relation.ReflTransGen.single up
  obtain ⟨target, -, found, named, own, -⟩ :=
    own_call_of_build accepted (List.mem_of_getElem? isDescribe) hasReceiver fits asked
  obtain rfl := Option.some.inj (isKind.symm.trans found)
  refine ⟨registry, describe, kind, accepted, isDescribe, isAccount, isKind, isSavings, named, own.down ?_⟩
  rw [isSavings, isAccount]
  exact Relation.TransGen.single up

end Weaving
