import Weaving.Advice.Site

/-!
Which advice runs where. The filters of a pattern that look at the declaring type alone are tried once
for each type and pointcut; the pointcuts that pass are the candidates of the type, and only their
remaining filters are tried on its members and explicit join points.
-/

namespace Weaving

/-- The advice of a site in the order in which it runs. -/
structure Plan where
  before : List PointcutId
  after : List PointcutId
  deriving DecidableEq, Repr

namespace Plan

def empty : Plan := ⟨[], []⟩

def isEmpty (plan : Plan) : Bool := plan.before.isEmpty && plan.after.isEmpty

def all (plan : Plan) : List PointcutId := plan.before ++ plan.after

end Plan

namespace Catalog

variable (catalog : Catalog)

/-- Whether the owner of a pointcut lets it apply to a type: an aspect by its scope, a type by being
that type unless the pattern names types itself. -/
def ownerAccepts (owner : AdviceOwner) (pattern : Pattern) (type : TypeEntry) : Bool :=
  match owner with
  | .aspect id =>
    match (catalog.aspect? id).bind (·.scope) with
    | none => true
    | some scope => scope.accepts type.scope
  | .type id => pattern.typeName.isSome || id = type.id

/-- The filters of a pointcut that look at the declaring type. -/
def typeAccepts (pointcut : PointcutEntry) (type : TypeEntry) : Bool :=
  catalog.ownerAccepts pointcut.owner pointcut.pattern type &&
    pointcut.pattern.scope.all (·.accepts type.scope) &&
    pointcut.pattern.typeName.all (·.accepts type.name) &&
    pointcut.pattern.interfaces.all fun capability => catalog.hasCapability type.id capability

end Catalog

/-- The filters of a pattern over the kind, visibility and name of a member. -/
def Pattern.acceptsMember (pattern : Pattern) (member : MemberEntry) : Bool :=
  (pattern.kinds.isEmpty || pattern.kinds.contains member.kind) &&
    (pattern.visibilities.isEmpty || pattern.visibilities.contains member.visibility) &&
    pattern.member.accepts member.name

/-- The candidates of every type, found once for a catalog. -/
structure Matcher where
  catalog : Catalog
  candidateTable : List (List PointcutId)

namespace Matcher

def ofCatalog (catalog : Catalog) : Matcher where
  catalog
  candidateTable := catalog.types.map fun type =>
    (catalog.pointcuts.filter fun pointcut => catalog.typeAccepts pointcut type).map (·.id)

variable (matcher : Matcher)

/-- The pointcuts whose type filters accept a type, in declaration order. -/
def candidates (type : TypeId) : List PointcutId := matcher.candidateTable[type.index]?.getD []

/-- The candidates of a type whose pattern passes a test. -/
def select (type : TypeId) (test : Pattern → Bool) : List PointcutId :=
  (matcher.candidates type).filter fun id => (matcher.catalog.pointcut? id).any fun p => test p.pattern

/-- The pointcuts that match the entry and exit of a member. -/
def matchMember (member : MemberEntry) : List PointcutId :=
  matcher.select member.owner fun pattern =>
    !pattern.explicit && pattern.acceptsMember member &&
      pattern.params.accepts (member.params.map (·.type))

/-- The pointcuts that match an explicit join point of a member. -/
def matchPoint (member : MemberEntry) (index : Nat) : List PointcutId :=
  match member.points[index]? with
  | none => []
  | some point =>
    matcher.select member.owner fun pattern =>
      pattern.explicit && pattern.point = some point.name && pattern.acceptsMember member &&
        pattern.params.accepts point.params

/-- The pointcuts among these that hold advice of one kind. -/
def ofKind (kind : AdviceKind) (ids : List PointcutId) : List PointcutId :=
  ids.filter fun id => (matcher.catalog.pointcut? id).any (·.advice = kind)

/-- Advice that runs before a site runs newest first, and advice after it oldest first. -/
def order (ids : List PointcutId) : Plan :=
  ⟨(matcher.ofKind .before ids).reverse, matcher.ofKind .after ids⟩

/-- The plans of the sites of a member. Advice before the member belongs to its entry, advice after it
to its exit, and an explicit join point has both. -/
def plansOf (member : MemberEntry) : List (Site × Plan) :=
  let plan := matcher.order (matcher.matchMember member)
  (.entry member.id, ⟨plan.before, []⟩) :: (.exit member.id, ⟨[], plan.after⟩) ::
    (List.range member.points.length).map fun index =>
      (.point member.id index, matcher.order (matcher.matchPoint member index))

/-- The plans of all sites that any advice matches. -/
def plans : List (Site × Plan) :=
  (matcher.catalog.members.flatMap matcher.plansOf).filter fun (_, plan) => !plan.isEmpty

end Matcher

/-- A catalog with the advice of each of its sites. -/
structure Registry extends Catalog where
  plans : List (Site × Plan)

namespace Registry

def ofCatalog (catalog : Catalog) : Registry := { catalog with plans := (Matcher.ofCatalog catalog).plans }

/-- The advice of a site, none if nothing matches it. -/
def plan (registry : Registry) (site : Site) : Plan := (registry.plans.lookup site).getD .empty

end Registry

end Weaving
