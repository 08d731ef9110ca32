import Mathlib.Logic.Relation
import Weaving.Pattern.Parser
import Weaving.Resolution.Types

/-!
Well-formed declarations. What makes a program acceptable is said of its declarations alone: names are
distinct and refer to something, bases do not loop, every relation is served by one body, and advice has
somewhere to run and fits there (`Declarations.WellFormed`). Types go by their positions among the
declarations. Nothing is said here of the order in which anything is checked, or of what is done about
declarations that are not well-formed.
-/

namespace Weaving

/-! ## Parts of declarations -/

/-- A parameter without a default is hidden from no relation, and a computed default has a body. -/
structure ParamDeclaration.Sound (param : ParamDeclaration) (bodies : List String) : Prop where
  visible : param.default = none → ∀ relation, (param.relations.getD .all).contains relation = true
  computed : ∀ body, param.default = some (.computed body) → body ∈ bodies

/-- Two variants serve no relation in common. -/
def VariantDeclaration.Disjoint (first second : VariantDeclaration) : Prop :=
  ∀ relation, ¬ (first.relations.contains relation = true ∧ second.relations.contains relation = true)

/-- Every relation is served once: by a variant, or else by the member's own body. -/
structure MemberDeclaration.Served (member : MemberDeclaration) (bodies : List String) : Prop where
  disjoint : member.variants.Pairwise VariantDeclaration.Disjoint
  bound : ∀ variant ∈ member.variants, variant.body ∈ bodies
  covered : (∀ relation, ∃ variant ∈ member.variants, variant.relations.contains relation = true) ∨
    ∃ body, member.body = some body ∧ body ∈ bodies
  present : member.body ≠ none ∨ member.variants ≠ []

/-- A member is sound by itself, whatever its owner is. -/
structure MemberDeclaration.Sound (member : MemberDeclaration) (bodies : List String) : Prop where
  params : ∀ param ∈ member.params, param.Sound bodies
  served : member.Served bodies
  points : (member.points.map (·.name)).Nodup

namespace Declarations

variable (declared : Declarations)

/-! ## References -/

/-- A name refers to the type at a position: the one with this qualified name or, if there is none, the
only one with this simple name. -/
def Refers (name : String) (position : Nat) : Prop :=
  (∃ type, declared.types[position]? = some type ∧ type.qualifiedName = name) ∨
  (∀ type ∈ declared.types, type.qualifiedName ≠ name) ∧
    (∃ type, declared.types[position]? = some type ∧ type.name = name) ∧
    ∀ other type, declared.types[other]? = some type → type.name = name → other = position

variable {declared} in
theorem Refers.exists_type {name : String} {position : Nat} (refers : declared.Refers name position) :
    ∃ type, declared.types[position]? = some type := by
  obtain ⟨type, found, -⟩ | ⟨-, ⟨type, found, -⟩, -⟩ := refers <;> exact ⟨type, found⟩

/-- A type names another as its base. -/
def Extends (sub super : Nat) : Prop :=
  ∃ type base, declared.types[sub]? = some type ∧ type.base = some base ∧ declared.Refers base super

/-- A type is another one or comes to it along the bases. -/
def Derives : Nat → Nat → Prop := Relation.ReflTransGen declared.Extends

/-- An interface is declared by a type or by one that it derives from. -/
def Offers (type : Nat) (capability : String) : Prop :=
  ∃ super entry, declared.Derives type super ∧ declared.types[super]? = some entry ∧
    capability ∈ entry.capabilities

/-- A value of one named type may stand where another is expected. -/
def Assignable (given expected : String) : Prop :=
  given = expected ∨ expected = "object" ∨ ∃ sub, declared.Refers given sub ∧
    ((∃ super, declared.Refers expected super ∧ declared.Derives sub super) ∨
      (∀ super, ¬ declared.Refers expected super) ∧ declared.Offers sub expected)

/-! ## Matching -/

/-- The owner of a pointcut lets it apply to a type: an aspect unless the type lies outside its scope, a
type if it is the declaring type itself, or if the pattern names types. -/
def OwnerAccepts (pattern : Pattern) (position : Nat) (type : TypeDeclaration) : OwnerDeclaration → Prop
  | .aspect name => ∀ aspect ∈ declared.aspects, aspect.name = name → ∀ source, aspect.scope = some source →
      ∀ scope, Pattern.Namespace.parse source = .ok scope →
        scope.accepts (Resolution.scopeSegments type.scope) = true
  | .type name => pattern.typeName = none → declared.Refers name position

/-- A pattern with an owner applies to the members of the type at a position. -/
structure AppliesTo (owner : OwnerDeclaration) (pattern : Pattern) (position : Nat)
    (type : TypeDeclaration) : Prop where
  owner : declared.OwnerAccepts pattern position type owner
  scope : ∀ filter, pattern.scope = some filter →
    filter.accepts (Resolution.scopeSegments type.scope) = true
  name : ∀ segment, pattern.typeName = some segment → segment.accepts type.name = true
  interfaces : ∀ capability ∈ pattern.interfaces, declared.Offers position capability

/-- A pattern with an owner selects a member, or a join point in it, whose parameters have these types. -/
structure Selects (owner : OwnerDeclaration) (pattern : Pattern) (member : MemberDeclaration)
    (params : List String) : Prop where
  type : ∃ position type, declared.Refers member.owner position ∧
    declared.types[position]? = some type ∧ declared.AppliesTo owner pattern position type
  kind : pattern.kinds = [] ∨ member.kind ∈ pattern.kinds
  visibility : pattern.visibilities = [] ∨ member.visibility ∈ pattern.visibilities
  name : pattern.member.accepts member.name = true
  params : pattern.params.accepts params = true

/-- A pattern with an owner matches a member as a whole. -/
def MatchesMember (owner : OwnerDeclaration) (pattern : Pattern) (member : MemberDeclaration) : Prop :=
  pattern.explicit = false ∧ declared.Selects owner pattern member (member.params.map (·.type))

/-- A pattern with an owner matches an explicit join point of a member. -/
def MatchesPoint (owner : OwnerDeclaration) (pattern : Pattern) (member : MemberDeclaration) : Prop :=
  pattern.explicit = true ∧ ∃ point ∈ member.points, pattern.point = some point.name ∧
    declared.Selects owner pattern member point.params

/-! ## Well-formedness -/

/-- Two members that cannot be told apart: of one type, with the same name, kind and number of parameters.
-/
def Clash (first second : MemberDeclaration) : Prop :=
  (∃ owner, declared.Refers first.owner owner ∧ declared.Refers second.owner owner) ∧
    first.name = second.name ∧ first.kind = second.kind ∧ first.params.length = second.params.length

/-- What is declared under some name or other is there. -/
def OwnerKnown : OwnerDeclaration → Prop
  | .aspect name => ∃ aspect ∈ declared.aspects, aspect.name = name
  | .type name => ∃ position, declared.Refers name position

/-- Everything that can be said of declarations before their advice is matched. -/
structure Resolves (bodies : List String) : Prop where
  modules : (declared.modules.map (·.name)).Nodup
  types : (declared.types.map (·.qualifiedName)).Nodup
  aspects : (declared.aspects.map (·.name)).Nodup
  typeModules : ∀ type ∈ declared.types, ∃ module ∈ declared.modules, module.name = type.module
  aspectModules : ∀ aspect ∈ declared.aspects, ∃ module ∈ declared.modules, module.name = aspect.module
  bases : ∀ type ∈ declared.types, ∀ base, type.base = some base → ∃ position, declared.Refers base position
  loops : ∀ position, ¬ Relation.TransGen declared.Extends position position
  owners : ∀ member ∈ declared.members, ∃ position, declared.Refers member.owner position
  members : declared.members.Pairwise fun first second => ¬ declared.Clash first second
  sound : ∀ member ∈ declared.members, member.Sound bodies
  scopes : ∀ aspect ∈ declared.aspects, ∀ source, aspect.scope = some source →
    ∃ scope, Pattern.Namespace.parse source = .ok scope
  patterns : ∀ pointcut ∈ declared.pointcuts, ∃ pattern, Pattern.parse pointcut.pattern = .ok pattern
  adviceOwners : ∀ pointcut ∈ declared.pointcuts, declared.OwnerKnown pointcut.owner
  adviceBodies : ∀ pointcut ∈ declared.pointcuts, pointcut.body ∈ bodies

/-- Declarations that make up a program, if the bodies with these names are bound. -/
structure WellFormed (bodies : List String) : Prop extends declared.Resolves bodies where
  /-- A pointcut for explicit join points matches one. -/
  reached : ∀ pointcut ∈ declared.pointcuts, ∀ pattern, Pattern.parse pointcut.pattern = .ok pattern →
    pattern.explicit = true → ∃ member ∈ declared.members, declared.MatchesPoint pointcut.owner pattern member
  /-- What advice returns may stand for the result of every member that it matches. -/
  returns : ∀ pointcut ∈ declared.pointcuts, ∀ pattern, Pattern.parse pointcut.pattern = .ok pattern →
    ∀ given, pointcut.returns = some given → ∀ member ∈ declared.members,
      declared.MatchesMember pointcut.owner pattern member ∨
        declared.MatchesPoint pointcut.owner pattern member → declared.Assignable given member.returns

end Declarations

end Weaving
