import Weaving.Proofs.Integrity

/-!
Reads by number. A lookup in which every number has to be that of an entry comes to nothing where one is not. In
a closed catalog none of these lookups does: each finds what the lookup finds that passes over missing entries
(`Catalog.Closed.readsInside`), whatever types, names and members are asked for.
-/

namespace Weaving

/-! ## Walks along lists -/

section Walks

variable {α β : Type} {items : List α}

theorem anyM_of_reads {read : α → Option Bool} {test : α → Bool}
    (reads : ∀ item ∈ items, read item = some (test item)) : items.anyM read = some (items.any test) := by
  induction items with
  | nil => rfl
  | cons item items ih =>
    obtain ⟨first, rest⟩ := List.forall_mem_cons.mp reads
    rw [List.anyM_cons, first, ih rest, List.any_cons]
    cases test item <;> rfl

theorem allM_of_reads {read : α → Option Bool} {test : α → Bool}
    (reads : ∀ item ∈ items, read item = some (test item)) : items.allM read = some (items.all test) := by
  induction items with
  | nil => rfl
  | cons item items ih =>
    obtain ⟨first, rest⟩ := List.forall_mem_cons.mp reads
    rw [List.allM_cons, first, ih rest, List.all_cons]
    cases test item <;> rfl

theorem findM?_of_reads {read : α → Option Bool} {test : α → Bool}
    (reads : ∀ item ∈ items, read item = some (test item)) : items.findM? read = some (items.find? test) := by
  induction items with
  | nil => rfl
  | cons item items ih =>
    obtain ⟨first, rest⟩ := List.forall_mem_cons.mp reads
    rw [List.findM?, first, ih rest, List.find?_cons]
    cases test item <;> rfl

theorem findSomeM?_of_reads {read : α → Option (Option β)} {find : α → Option β}
    (reads : ∀ item ∈ items, read item = some (find item)) :
    items.findSomeM? read = some (items.findSome? find) := by
  induction items with
  | nil => rfl
  | cons item items ih =>
    obtain ⟨first, rest⟩ := List.forall_mem_cons.mp reads
    rw [List.findSomeM?_cons, first, ih rest, List.findSome?_cons]
    cases find item <;> rfl

theorem mapM_of_reads {read : α → Option β} {change : α → β}
    (reads : ∀ item ∈ items, read item = some (change item)) : items.mapM read = some (items.map change) := by
  induction items with
  | nil => rfl
  | cons item items ih =>
    obtain ⟨first, rest⟩ := List.forall_mem_cons.mp reads
    rw [List.mapM_cons, first, ih rest]
    rfl

theorem filterAuxM_of_reads {read : α → Option Bool} {test : α → Bool}
    (reads : ∀ item ∈ items, read item = some (test item)) (held : List α) :
    items.filterAuxM read held = some ((items.filter test).reverse ++ held) := by
  induction items generalizing held with
  | nil => rfl
  | cons item items ih =>
    obtain ⟨first, rest⟩ := List.forall_mem_cons.mp reads
    rw [List.filterAuxM, first]
    refine (ih rest _).trans ?_
    cases passes : test item <;> simp [passes]

theorem filterM_of_reads {read : α → Option Bool} {test : α → Bool}
    (reads : ∀ item ∈ items, read item = some (test item)) : items.filterM read = some (items.filter test) := by
  unfold List.filterM
  rw [filterAuxM_of_reads reads]
  simp

end Walks

/-! ## Lookups -/

namespace Catalog

variable (catalog : Catalog)

/-- The first member with a name that a type lists, if every number that is tried is that of a member. -/
def readMemberIn? (type : TypeId) (name : String) : Option (Option MemberId) :=
  match catalog.type? type with
  | none => some none
  | some entry => entry.members.findM? fun id => (catalog.member? id).map (·.name = name)

def readMember? (path : String) : Option (Option MemberId) :=
  match Text.splitLast? '.' path.toList with
  | none => some none
  | some (type, name) =>
    match catalog.findType? (String.ofList type) with
    | none => some none
    | some type => catalog.readMemberIn? type (String.ofList name)

def readDispatch? (type : TypeId) (name : String) : Option (Option MemberId) :=
  (catalog.baseChain type).findSomeM? fun type => catalog.readMemberIn? type name

/-- Whether a type or a base declares an interface, if every type that is tried is there. -/
def readCapability (type : TypeId) (capability : String) : Option Bool :=
  (catalog.baseChain type).anyM fun type =>
    (catalog.type? type).map fun entry => entry.capabilities.contains capability

def readAssignable (given expected : String) : Option Bool :=
  if given = expected || expected = "object" then some true
  else
    match catalog.findType? given, catalog.findType? expected with
    | some sub, some super => some (catalog.isSubtype sub super)
    | some sub, none => catalog.readCapability sub expected
    | none, _ => some false

/-- The path of a member, if the type that owns the member is there. -/
def readMemberPath (id : MemberId) : Option String :=
  match catalog.member? id with
  | some member => (catalog.type? member.owner).map fun type => type.qualifiedName ++ "." ++ member.name
  | none => some ("member" ++ id.label)

/-- There is no path for a member whose owner is not there. -/
example (member : MemberEntry) : readMemberPath ⟨[], [], [member], [], [], []⟩ ⟨0⟩ = none := rfl

/-! ## Plans -/

def readTypeAccepts (pointcut : PointcutEntry) (type : TypeEntry) : Option Bool :=
  if catalog.ownerAccepts pointcut.owner pointcut.pattern type &&
      pointcut.pattern.scope.all (·.accepts type.scope) && pointcut.pattern.typeName.all (·.accepts type.name) then
    pointcut.pattern.interfaces.allM fun capability => catalog.readCapability type.id capability
  else some false

/-- The candidates of every type. -/
def readCandidates : Option (List (List PointcutId)) :=
  catalog.types.mapM fun type =>
    (catalog.pointcuts.filterM fun pointcut => catalog.readTypeAccepts pointcut type).map fun accepted =>
      accepted.map (·.id)

end Catalog

namespace Matcher

variable (matcher : Matcher)

/-- The candidates of a type whose pattern passes a test, if each of them is a pointcut. -/
def readSelect (type : TypeId) (test : Pattern → Bool) : Option (List PointcutId) :=
  (matcher.candidates type).filterM fun id =>
    (matcher.catalog.pointcut? id).map fun pointcut => test pointcut.pattern

def readMatchMember (member : MemberEntry) : Option (List PointcutId) :=
  matcher.readSelect member.owner fun pattern =>
    !pattern.explicit && pattern.acceptsMember member &&
      pattern.params.accepts (member.params.map (·.type))

def readMatchPoint (member : MemberEntry) (index : Nat) : Option (List PointcutId) :=
  match member.points[index]? with
  | none => some []
  | some point =>
    matcher.readSelect member.owner fun pattern =>
      pattern.explicit && pattern.point = some point.name && pattern.acceptsMember member &&
        pattern.params.accepts point.params

def readOfKind (kind : AdviceKind) (ids : List PointcutId) : Option (List PointcutId) :=
  ids.filterM fun id => (matcher.catalog.pointcut? id).map (·.advice = kind)

def readOrder (ids : List PointcutId) : Option Plan := do
  let before ← matcher.readOfKind .before ids
  let after ← matcher.readOfKind .after ids
  return ⟨before.reverse, after⟩

def readPointPlan (member : MemberEntry) (index : Nat) : Option (Site × Plan) := do
  let ids ← matcher.readMatchPoint member index
  let plan ← matcher.readOrder ids
  return (.point member.id index, plan)

def readPlansOf (member : MemberEntry) : Option (List (Site × Plan)) := do
  let ids ← matcher.readMatchMember member
  let plan ← matcher.readOrder ids
  let points ← (List.range member.points.length).mapM (matcher.readPointPlan member)
  return (.entry member.id, ⟨plan.before, []⟩) :: (.exit member.id, ⟨[], plan.after⟩) :: points

end Matcher

/-- The plans of all sites, if every number that is looked up on the way to them is that of an entry. -/
def Catalog.readPlans (catalog : Catalog) : Option (List (Site × Plan)) := do
  let matcher : Matcher := ⟨catalog, ← catalog.readCandidates⟩
  let plans ← catalog.members.mapM matcher.readPlansOf
  return plans.flatten.filter fun (_, plan) => !plan.isEmpty

/-! ## Closed catalogs -/

namespace Catalog.Closed

variable {catalog : Catalog} (closed : catalog.Closed)
include closed

/-- A type lists only members that are there. -/
theorem member_of_listed {type : TypeEntry} (held : type ∈ catalog.types) {id : MemberId}
    (listed : id ∈ type.members) : ∃ member, catalog.member? id = some member := by
  rw [closed.owned type held] at listed
  exact Resolution.member_of_ownedBy closed.members listed

theorem readMemberIn?_eq (type : TypeId) (name : String) :
    catalog.readMemberIn? type name = some (catalog.findMemberIn? type name) := by
  unfold readMemberIn? findMemberIn?
  cases found : catalog.type? type with
  | none => rfl
  | some entry =>
    refine findM?_of_reads fun id listed => ?_
    obtain ⟨member, isMember⟩ := closed.member_of_listed (List.mem_of_getElem? found) listed
    rw [isMember]
    rfl

theorem readMember?_eq (path : String) : catalog.readMember? path = some (catalog.findMember? path) := by
  unfold readMember? findMember?
  cases Text.splitLast? '.' path.toList with
  | none => rfl
  | some parts =>
    obtain ⟨type, name⟩ := parts
    dsimp only [Option.bind_eq_bind, Option.bind_some]
    cases catalog.findType? (String.ofList type) with
    | none => rfl
    | some type => exact closed.readMemberIn?_eq type _

theorem readDispatch?_eq (type : TypeId) (name : String) :
    catalog.readDispatch? type name = some (catalog.dispatch? type name) :=
  findSomeM?_of_reads fun type _ => closed.readMemberIn?_eq type name

theorem base?_index_lt {type base : TypeId} (isBase : catalog.base? type = some base) :
    base.index < catalog.types.length := by
  obtain ⟨entry, found, declares⟩ := Option.bind_eq_some_iff.mp isBase
  exact (closed.type entry (List.mem_of_getElem? found)).base base declares

/-- From a type that is there all its bases are. -/
theorem chainFrom_index_lt (limit : Nat) {type : TypeId} (inside : type.index < catalog.types.length) :
    ∀ above ∈ catalog.chainFrom limit type, above.index < catalog.types.length := by
  induction limit generalizing type with
  | zero => exact List.forall_mem_nil _
  | succ limit ih =>
    rw [chainFrom]
    refine List.forall_mem_cons.mpr ⟨inside, ?_⟩
    cases isBase : catalog.base? type with
    | none => exact List.forall_mem_nil _
    | some base => exact ih (closed.base?_index_lt isBase)

theorem readCapability_eq {type : TypeId} (inside : type.index < catalog.types.length) (capability : String) :
    catalog.readCapability type capability = some (catalog.hasCapability type capability) := by
  refine anyM_of_reads fun above held => ?_
  have isType : catalog.type? above = some _ :=
    List.getElem?_eq_getElem (closed.chainFrom_index_lt _ inside above held)
  rw [isType]
  rfl

/-- Two names are compared, whether or not they are names of types. -/
theorem readAssignable_eq (given expected : String) :
    catalog.readAssignable given expected = some (catalog.isAssignable given expected) := by
  unfold readAssignable isAssignable
  cases given = expected || expected = "object" with
  | true => rfl
  | false =>
    rw [if_neg Bool.false_ne_true, Bool.false_or]
    cases found : catalog.findType? given with
    | none => rfl
    | some sub =>
      cases catalog.findType? expected with
      | some super => rfl
      | none => exact closed.readCapability_eq (findType?_index_lt closed.types found) expected

theorem readMemberPath_eq (id : MemberId) : catalog.readMemberPath id = some (catalog.memberPath id) := by
  unfold readMemberPath memberPath typeName
  cases found : catalog.member? id with
  | none => rfl
  | some member =>
    have inside := (closed.member member (List.mem_of_getElem? found)).owner
    have isType : catalog.type? member.owner = some _ := List.getElem?_eq_getElem inside
    simp only [isType, Option.map_some, Option.getD_some]

theorem readTypeAccepts_eq (pointcut : PointcutEntry) {type : TypeEntry} (held : type ∈ catalog.types) :
    catalog.readTypeAccepts pointcut type = some (catalog.typeAccepts pointcut type) := by
  unfold readTypeAccepts typeAccepts
  split <;> rename_i passes
  · rw [passes, Bool.true_and]
    exact allM_of_reads fun capability _ => closed.readCapability_eq (closed.types.index_lt held) capability
  · rw [Bool.eq_false_of_not_eq_true passes, Bool.false_and]

theorem readCandidates_eq : catalog.readCandidates = some (Matcher.ofCatalog catalog).candidateTable := by
  refine mapM_of_reads fun type held => ?_
  rw [filterM_of_reads fun pointcut _ => closed.readTypeAccepts_eq pointcut held]
  rfl

theorem pointcut_of_candidate (type : TypeId) :
    ∀ id ∈ (Matcher.ofCatalog catalog).candidates type, ∃ pointcut, catalog.pointcut? id = some pointcut := by
  intro id held
  unfold Matcher.candidates Matcher.ofCatalog at held
  rw [List.getElem?_map] at held
  cases found : catalog.types[type.index]? with
  | none => simp [found] at held
  | some entry =>
    simp only [found, Option.map_some, Option.getD_some, List.mem_map] at held
    obtain ⟨pointcut, among, rfl⟩ := held
    exact ⟨pointcut, closed.pointcuts.getElem?_of_mem (List.mem_filter.mp among).1⟩

theorem readSelect_eq (type : TypeId) (test : Pattern → Bool) :
    (Matcher.ofCatalog catalog).readSelect type test = some ((Matcher.ofCatalog catalog).select type test) := by
  refine filterM_of_reads fun id held => ?_
  obtain ⟨pointcut, found⟩ := closed.pointcut_of_candidate type id held
  have isPointcut : (Matcher.ofCatalog catalog).catalog.pointcut? id = some pointcut := found
  rw [isPointcut]
  rfl

theorem readMatchPoint_eq (member : MemberEntry) (index : Nat) :
    (Matcher.ofCatalog catalog).readMatchPoint member index =
      some ((Matcher.ofCatalog catalog).matchPoint member index) := by
  unfold Matcher.readMatchPoint Matcher.matchPoint
  cases member.points[index]? with
  | none => rfl
  | some point => exact closed.readSelect_eq _ _

omit closed in
theorem readOrder_eq {ids : List PointcutId} (there : ∀ id ∈ ids, ∃ pointcut, catalog.pointcut? id = some pointcut) :
    (Matcher.ofCatalog catalog).readOrder ids = some ((Matcher.ofCatalog catalog).order ids) := by
  have each (kind : AdviceKind) : (Matcher.ofCatalog catalog).readOfKind kind ids =
      some ((Matcher.ofCatalog catalog).ofKind kind ids) := by
    refine filterM_of_reads fun id held => ?_
    obtain ⟨pointcut, found⟩ := there id held
    have isPointcut : (Matcher.ofCatalog catalog).catalog.pointcut? id = some pointcut := found
    rw [isPointcut]
    rfl
  unfold Matcher.readOrder
  rw [each, each]
  rfl

theorem pointcut_of_select (type : TypeId) (test : Pattern → Bool) :
    ∀ id ∈ (Matcher.ofCatalog catalog).select type test, ∃ pointcut, catalog.pointcut? id = some pointcut :=
  fun id held => closed.pointcut_of_candidate type id (List.mem_filter.mp held).1

theorem pointcut_of_matchPoint (member : MemberEntry) (index : Nat) :
    ∀ id ∈ (Matcher.ofCatalog catalog).matchPoint member index, ∃ pointcut, catalog.pointcut? id = some pointcut := by
  unfold Matcher.matchPoint
  cases member.points[index]? with
  | none => exact List.forall_mem_nil _
  | some point => exact closed.pointcut_of_select _ _

theorem readPointPlan_eq (member : MemberEntry) (index : Nat) :
    (Matcher.ofCatalog catalog).readPointPlan member index =
      some (.point member.id index,
        (Matcher.ofCatalog catalog).order ((Matcher.ofCatalog catalog).matchPoint member index)) := by
  unfold Matcher.readPointPlan
  rw [closed.readMatchPoint_eq]
  dsimp only [Option.bind_eq_bind, Option.bind_some]
  rw [readOrder_eq (closed.pointcut_of_matchPoint member index)]
  rfl

theorem readPlansOf_eq (member : MemberEntry) :
    (Matcher.ofCatalog catalog).readPlansOf member = some ((Matcher.ofCatalog catalog).plansOf member) := by
  have atMember : (Matcher.ofCatalog catalog).readMatchMember member =
      some ((Matcher.ofCatalog catalog).matchMember member) := closed.readSelect_eq _ _
  have ordered : (Matcher.ofCatalog catalog).readOrder ((Matcher.ofCatalog catalog).matchMember member) =
      some _ := readOrder_eq (closed.pointcut_of_select _ _)
  have points := mapM_of_reads fun index (_ : index ∈ List.range member.points.length) =>
    closed.readPointPlan_eq member index
  unfold Matcher.readPlansOf
  rw [atMember]
  dsimp only [Option.bind_eq_bind, Option.bind_some]
  rw [ordered, points]
  rfl

theorem readPlans_eq : catalog.readPlans = some (Matcher.ofCatalog catalog).plans := by
  have each := mapM_of_reads fun member (_ : member ∈ catalog.members) => closed.readPlansOf_eq member
  unfold readPlans
  rw [closed.readCandidates_eq]
  exact congrArg (Option.bind · _) each

end Catalog.Closed

/-- Whatever a catalog is asked, each number that is looked up for the answer is that of an entry. -/
structure Catalog.ReadsInside (catalog : Catalog) : Prop where
  /-- Members are looked for in any type, and in types that do not exist. -/
  memberIn : ∀ type name, catalog.readMemberIn? type name = some (catalog.findMemberIn? type name)
  member : ∀ path, catalog.readMember? path = some (catalog.findMember? path)
  dispatch : ∀ type name, catalog.readDispatch? type name = some (catalog.dispatch? type name)
  /-- Names lead to types that there are, and so do the bases of these. -/
  type : ∀ name type, catalog.findType? name = some type → type.index < catalog.types.length
  chain : ∀ type, type.index < catalog.types.length →
    ∀ above ∈ catalog.baseChain type, above.index < catalog.types.length
  /-- Of a type that there is, each base declares its interfaces. -/
  capability : ∀ type capability, type.index < catalog.types.length →
    catalog.readCapability type capability = some (catalog.hasCapability type capability)
  assignable : ∀ given expected, catalog.readAssignable given expected = some (catalog.isAssignable given expected)
  /-- The path of a member names the type that owns it, and there is a path for members that do not exist. -/
  path : ∀ member, catalog.readMemberPath member = some (catalog.memberPath member)

/-- Plans are made of the pointcuts that there are. -/
structure Registry.ReadsInside (registry : Registry) : Prop extends registry.toCatalog.ReadsInside where
  plans : registry.readPlans = some registry.plans

theorem Catalog.Closed.readsInside {catalog : Catalog} (closed : catalog.Closed) : catalog.ReadsInside where
  memberIn := closed.readMemberIn?_eq
  member := closed.readMember?_eq
  dispatch := closed.readDispatch?_eq
  type _ _ found := findType?_index_lt closed.types found
  chain _ inside := closed.chainFrom_index_lt _ inside
  capability _ capability inside := closed.readCapability_eq inside capability
  assignable := closed.readAssignable_eq
  path := closed.readMemberPath_eq

/-- **Lookups and plans read what is there.** -/
theorem Registry.readsInside_of_build {declared : Declarations} {bodies : List String} {registry : Registry}
    (accepted : build declared bodies = .ok registry) : registry.ReadsInside := by
  obtain ⟨rfl, clean⟩ := eq_ofCatalog_of_build accepted
  have closed := Resolution.closed_catalog clean
  exact ⟨closed.readsInside, closed.readPlans_eq⟩

end Weaving
