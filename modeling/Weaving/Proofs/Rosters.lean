import Weaving.Proofs.Numbering

/-!
Rosters. Members are declared one after another, and the number of each is put on the list of the type that owns
it, where later declarations are compared with it. After every declaration each type lists just the members that
it owns, in the order of their declarations (`Roster.Kept`). So whatever a type lists is there, the comparison
comes out as if all members were searched, and the loop leaves the problems and the members that it would leave
without any lists (`members_resolveMembers`).
-/

namespace Weaving

/-- What two computations share up to here is left out of the comparison. -/
theorem Checked.bind_congr {α β : Type} {checked : Checked α} {next other : α → Checked β}
    (same : next checked.value = other checked.value) : checked >>= next = checked >>= other := by
  change Checked.mk _ _ = Checked.mk _ _
  rw [same]

namespace Resolution

variable {bodies : List String} {types : List TypeEntry}

/-! ## Members without lists -/

/-- The path of a member that is still being resolved. -/
def draftPath (types : List TypeEntry) (owner : TypeId) (declared : MemberDeclaration) : String :=
  ((types[owner.index]?).map (·.qualifiedName)).getD "" ++ "." ++ declared.name

/-- Whether a member is already there: same owner, name, kind and number of parameters. -/
def isDeclared (members : List MemberEntry) (owner : TypeId) (declared : MemberDeclaration) : Bool :=
  members.any fun member => member.owner = owner && resembles member declared

/-- A declared member behind those that are there already, all of which are searched for its like. -/
def collectMember (bodies : List String) (types : List TypeEntry) (members : List MemberEntry)
    (declared : MemberDeclaration) : Checked (List MemberEntry) := do
  match ← resolveType types declared.owner ("member " ++ declared.qualifiedName) with
  | none => pure members
  | some owner =>
    let path := draftPath types owner declared
    if isDeclared members owner declared then
      Checked.report (.duplicateMember path)
      pure members
    else
      let member ← resolveMember bodies path ⟨members.length⟩ owner declared
      pure (members ++ [member])

def collectMembers (bodies : List String) (types : List TypeEntry) (declared : List MemberDeclaration) :
    Checked (List MemberEntry) :=
  declared.foldlM (collectMember bodies types) []

/-- The numbers of the members that a type owns, in the order of the members. -/
def ownedBy (members : List MemberEntry) (owner : TypeId) : List MemberId :=
  (members.filter (·.owner = owner)).map (·.id)

/-- The types with the numbers of the members that they own. -/
def assignMembers (types : List TypeEntry) (members : List MemberEntry) : List TypeEntry :=
  types.map fun type => { type with members := ownedBy members type.id }

theorem length_assignMembers (types : List TypeEntry) (members : List MemberEntry) :
    (assignMembers types members).length = types.length :=
  List.length_map _

/-- The name that a type is found by has nothing to do with its members. -/
theorem findType?_assignMembers (types : List TypeEntry) (members : List MemberEntry) (name : String) :
    findType? (assignMembers types members) name = findType? types name := by
  unfold findType? assignMembers
  simp only [List.find?_map, List.filter_map, Function.comp_def]
  cases types.find? (·.declaredName = name) with
  | some type => rfl
  | none =>
    generalize types.filter (·.name = name) = alike
    rcases alike with _ | ⟨first, _ | ⟨second, others⟩⟩ <;> rfl

theorem ownedBy_append (members : List MemberEntry) (member : MemberEntry) (owner : TypeId) :
    ownedBy (members ++ [member]) owner =
      if member.owner = owner then ownedBy members owner ++ [member.id] else ownedBy members owner := by
  unfold ownedBy
  split <;> rename_i owns <;> simp [owns]

/-- The members that a type owns are there. -/
theorem member_of_ownedBy {members : List MemberEntry} (numbered : Numbered MemberEntry.id members)
    {owner : TypeId} {id : MemberId} (owned : id ∈ ownedBy members owner) :
    ∃ member, members[id.index]? = some member := by
  obtain ⟨member, among, rfl⟩ := List.mem_map.mp owned
  exact ⟨member, numbered.getElem?_of_mem (List.mem_filter.mp among).1⟩

/-! ## What the loop keeps -/

namespace Roster

/-- Each type lists the members that it owns, and nothing else has become of the types. -/
structure Kept (types : List TypeEntry) (roster : Roster) : Prop where
  members : Weaving.Numbered MemberEntry.id roster.members
  owned : roster.types = assignMembers types roster.members

namespace Kept

variable {roster : Roster} (kept : Kept types roster)

/-- At first there are no members, and no type lists any. -/
theorem start (fresh : ∀ type ∈ types, type.members = []) : Kept types ⟨types, []⟩ where
  members := Numbered.nil
  owned := by
    refine (List.map_id types).symm.trans (List.map_congr_left fun type held => ?_)
    exact congrArg (fun members => { type with members }) (fresh type held)

include kept

/-- The types list the members that they own. -/
theorem members_eq : ∀ type ∈ roster.types, type.members = ownedBy roster.members type.id := by
  rw [kept.owned]
  exact List.forall_mem_map.mpr fun _ _ => rfl

/-- The members that a type lists are there. -/
theorem member_of_listed {type : TypeEntry} (held : type ∈ roster.types) {id : MemberId}
    (listed : id ∈ type.members) : ∃ member, roster.members[id.index]? = some member := by
  rw [kept.members_eq type held] at listed
  exact member_of_ownedBy kept.members listed

theorem findType? (name : String) : Weaving.findType? roster.types name = Weaving.findType? types name := by
  rw [kept.owned, findType?_assignMembers]

theorem ownerName (owner : TypeId) (declared : MemberDeclaration) :
    roster.ownerName owner ++ "." ++ declared.name = draftPath types owner declared := by
  unfold Roster.ownerName draftPath
  rw [kept.owned, assignMembers, List.getElem?_map, Option.map_map]
  rfl

variable (numbered : Weaving.Numbered TypeEntry.id types)
include numbered

/-- A member is listed by its owner, and by no other type. -/
theorem add {member : MemberEntry} (last : member.id = ⟨roster.members.length⟩) :
    Kept types (roster.add member) where
  members := kept.members.append last
  owned := by
    refine List.ext_getElem? fun index => ?_
    unfold Roster.add assignMembers
    rw [kept.owned, List.getElem?_modify, assignMembers, List.getElem?_map, List.getElem?_map]
    cases found : types[index]? with
    | none => rfl
    | some type =>
      have number : type.id = ⟨index⟩ := numbered index type found
      have same : member.owner.index = index ↔ member.owner = type.id := by
        rw [number]
        exact ⟨congrArg Id.mk, congrArg Id.index⟩
      simp only [Option.map_some, Option.map_eq_map, ownedBy_append, same]
      split <;> rfl

theorem addMember (bodies : List String) (declared : MemberDeclaration) :
    Kept types (addMember bodies roster declared).value := by
  unfold Resolution.addMember
  rw [Checked.value_bind]
  cases (resolveType roster.types declared.owner _).value with
  | none => exact kept
  | some owner =>
    dsimp only
    split
    · exact kept
    · exact kept.add numbered rfl

/-- The list of an owner is as good as all members to find the like of a declaration. -/
theorem lists_eq {owner : TypeId} (inside : owner.index < types.length) (declared : MemberDeclaration) :
    roster.lists owner declared = isDeclared roster.members owner declared := by
  have found := List.getElem?_eq_getElem inside
  have number : types[owner.index].id = owner := numbered _ _ found
  unfold Roster.lists isDeclared
  rw [kept.owned, assignMembers, List.getElem?_map, found]
  simp only [Option.map_some, Option.any_some, ownedBy, number, List.any_map, List.any_filter]
  refine Bool.eq_iff_iff.mpr ?_
  simp only [List.any_eq_true]
  refine exists_congr fun member => and_congr_right fun held => ?_
  rw [Function.comp_apply, kept.members.getElem?_of_mem held, Option.any_some]

/-- A declaration is dealt with as if there were no lists. -/
theorem members_addMember (bodies : List String) (declared : MemberDeclaration) :
    Roster.members <$> Resolution.addMember bodies roster declared =
      collectMember bodies types roster.members declared := by
  unfold Resolution.addMember collectMember resolveType
  rw [kept.findType?, map_bind]
  refine Checked.bind_congr ?_
  rw [Checked.value_found]
  cases found : Weaving.findType? types declared.owner with
  | none => rfl
  | some owner =>
    dsimp only
    rw [kept.ownerName, kept.lists_eq numbered (findType?_index_lt numbered found)]
    split
    · rfl
    · simp only [map_bind, map_pure]
      rfl

theorem members_foldlM (bodies : List String) (declared : List MemberDeclaration) :
    Roster.members <$> declared.foldlM (Resolution.addMember bodies) roster =
      declared.foldlM (collectMember bodies types) roster.members := by
  induction declared generalizing roster with
  | nil => exact map_pure _ _
  | cons member declared ih =>
    rw [List.foldlM_cons, List.foldlM_cons, ← kept.members_addMember numbered, map_bind, bind_map_left]
    exact Checked.bind_congr (ih (kept.addMember numbered bodies member))

end Kept

end Roster

/-! ## Whole programs -/

section Programs

variable (numbered : Numbered TypeEntry.id types) (fresh : ∀ type ∈ types, type.members = [])
include numbered fresh

/-- However many declarations have been gone through, each type lists the members that it owns. -/
theorem kept_resolveMembers (bodies : List String) (declared : List MemberDeclaration) :
    (resolveMembers bodies types declared).value.Kept types := by
  unfold resolveMembers
  exact Checked.value_foldlM (fun _ member kept => kept.addMember numbered bodies member) declared (.start fresh)

/-- The lists make no difference to the members, nor to the problems. -/
theorem members_resolveMembers (bodies : List String) (declared : List MemberDeclaration) :
    Roster.members <$> resolveMembers bodies types declared = collectMembers bodies types declared :=
  Roster.Kept.members_foldlM (.start fresh) numbered bodies declared

end Programs

/-- A catalog holds the members as they are collected, and the types that own them. -/
theorem catalog_eq (declared : Declarations) (bodies : List String) :
    catalog declared bodies = (do
      let modules ← resolveModules declared.modules
      let types ← resolveTypes modules declared.types
      let members ← collectMembers bodies types declared.members
      let aspects ← resolveAspects modules declared.aspects
      let pointcuts ← resolvePointcuts bodies types aspects declared.pointcuts
      pure ⟨modules, assignMembers types members, members, aspects, pointcuts, bodies⟩) := by
  unfold catalog
  refine Checked.bind_congr (Checked.bind_congr ?_)
  have numbered := numbered_types (resolveModules declared.modules).value declared.types
  have fresh := members_resolveTypes (resolveModules declared.modules).value declared.types
  rw [← members_resolveMembers numbered fresh, bind_map_left]
  refine Checked.bind_congr ?_
  rw [(kept_resolveMembers numbered fresh bodies declared.members).owned]

end Resolution

end Weaving
