import Weaving.Advice.Matcher
import Weaving.Proofs.Ancestry

/-!
Matching. A pointcut matches a site if its owner, every filter of its pattern over the declaring type and
every filter over the member accept it (`Catalog.Matches`). This is said of one pointcut and one site, with
no candidates and no chains of types; the filters that the matcher tries come to the same
(`typeAccepts_iff`, `acceptsMember_iff`).
-/

namespace Weaving

namespace Catalog

variable (catalog : Catalog)

/-! ## The declaring type -/

/-- The owner of a pointcut lets it apply to a type: an aspect unless the type lies outside its scope, a
type if it is the declaring type itself, or if the pattern names types. -/
def OwnerAccepts (pointcut : PointcutEntry) (type : TypeEntry) : Prop :=
  match pointcut.owner with
  | .aspect id => ∀ aspect, catalog.aspect? id = some aspect →
      ∀ scope, aspect.scope = some scope → scope.accepts type.scope = true
  | .type id => pointcut.pattern.typeName = none → id = type.id

/-- An interface is declared by a type or by one that it derives from. -/
def Offers (type : TypeId) (capability : String) : Prop :=
  ∃ super entry, catalog.Derives type super ∧ catalog.type? super = some entry ∧
    capability ∈ entry.capabilities

/-- A pointcut applies to the members of a type. -/
structure AppliesTo (pointcut : PointcutEntry) (type : TypeEntry) : Prop where
  owner : catalog.OwnerAccepts pointcut type
  scope : ∀ filter, pointcut.pattern.scope = some filter → filter.accepts type.scope = true
  name : ∀ segment, pointcut.pattern.typeName = some segment → segment.accepts type.name = true
  interfaces : ∀ capability ∈ pointcut.pattern.interfaces, catalog.Offers type.id capability

theorem ownerAccepts_iff (pointcut : PointcutEntry) (type : TypeEntry) :
    catalog.ownerAccepts pointcut.owner pointcut.pattern type = true ↔
      catalog.OwnerAccepts pointcut type := by
  unfold ownerAccepts OwnerAccepts
  cases pointcut.owner with
  | aspect id =>
    dsimp only
    cases catalog.aspect? id with
    | none => simp
    | some aspect => cases scope : aspect.scope <;> simp [scope]
  | type id => cases pointcut.pattern.typeName <;> simp

theorem typeAccepts_iff (pointcut : PointcutEntry) (type : TypeEntry) :
    catalog.typeAccepts pointcut type = true ↔ catalog.AppliesTo pointcut type := by
  have offers (capability : String) :
      catalog.hasCapability type.id capability = true ↔ catalog.Offers type.id capability :=
    catalog.hasCapability_iff
  simp only [typeAccepts, Bool.and_eq_true, Option.all_eq_true, List.all_eq_true, offers,
    ownerAccepts_iff]
  constructor
  · rintro ⟨⟨⟨owner, scope⟩, name⟩, interfaces⟩
    exact ⟨owner, scope, name, interfaces⟩
  · intro applies
    exact ⟨⟨⟨applies.owner, applies.scope⟩, applies.name⟩, applies.interfaces⟩

/-! ## The member -/

end Catalog

/-- A pattern suits a member, or an explicit join point in it, whose parameters have these types. -/
structure Pattern.Suits (pattern : Pattern) (member : MemberEntry) (params : List String) : Prop where
  kind : pattern.kinds = [] ∨ member.kind ∈ pattern.kinds
  visibility : pattern.visibilities = [] ∨ member.visibility ∈ pattern.visibilities
  name : pattern.member.accepts member.name = true
  params : pattern.params.accepts params = true

theorem Pattern.acceptsMember_iff (pattern : Pattern) (member : MemberEntry) (params : List String) :
    (pattern.acceptsMember member && pattern.params.accepts params) = true ↔
      pattern.Suits member params := by
  simp only [acceptsMember, Bool.and_eq_true, Bool.or_eq_true, List.isEmpty_iff, List.contains_iff_mem]
  constructor
  · rintro ⟨⟨⟨kind, visibility⟩, name⟩, params⟩
    exact ⟨kind, visibility, name, params⟩
  · intro suits
    exact ⟨⟨⟨suits.kind, suits.visibility⟩, suits.name⟩, suits.params⟩

/-! ## The site -/

namespace Catalog

variable (catalog : Catalog)

/-- A pointcut is for the members of the declaring type of this one, and for this one among them. -/
structure Selects (pointcut : PointcutEntry) (member : MemberEntry) (params : List String) : Prop where
  type : ∃ type, catalog.type? member.owner = some type ∧ catalog.AppliesTo pointcut type
  member : pointcut.pattern.Suits member params

/-- A pointcut matches a site. -/
def Matches (pointcut : PointcutEntry) : Site → Prop
  | .entry id | .exit id =>
    pointcut.pattern.explicit = false ∧ ∃ member, catalog.member? id = some member ∧
      catalog.Selects pointcut member (member.params.map (·.type))
  | .point id index =>
    pointcut.pattern.explicit = true ∧ ∃ member point, catalog.member? id = some member ∧
      member.points[index]? = some point ∧ pointcut.pattern.point = some point.name ∧
      catalog.Selects pointcut member point.params

end Catalog

end Weaving
