import Weaving.Proofs.Kinship
import Weaving.Proofs.Prefixes

/-!
Scopes. A namespace limits pointcuts in two ways: as the scope of their aspect, which holds for all of them, and
in front of the pattern of one. Either way the same types pass (`Registry.candidates_iff_of_build`).
-/

namespace Weaving

/-! ## Aspects with a scope -/

/-- At a position of the pointcuts stands one with this text, of an aspect with this scope. -/
def Declarations.PointcutAt (declared : Declarations) (position : Nat) (scope : Option String) (text : String) :
    Prop :=
  ∃ aspect ∈ declared.aspects, aspect.scope = scope ∧ ∃ pointcut, declared.pointcuts[position]? = some pointcut ∧
    pointcut.owner = .aspect aspect.name ∧ pointcut.pattern = text

section Scoped

variable {declared : Declarations} {bodies : List String} (resolves : declared.Resolves bodies)
  {aspect : AspectDeclaration} (among : aspect ∈ declared.aspects) {pattern : Pattern} {position : Nat}
  {type : TypeDeclaration}

include resolves among

/-- An aspect is the only one with its name, so that its scope alone decides for its pointcuts. -/
theorem Declarations.Resolves.ownerAccepts_iff :
    declared.OwnerAccepts pattern position type (.aspect aspect.name) ↔
      ∀ source, aspect.scope = some source → ∀ scope, Pattern.Namespace.parse source = .ok scope →
        scope.accepts (Resolution.scopeSegments type.scope) = true := by
  constructor
  · exact fun accepts => accepts aspect among rfl
  · intro accepts other isOther named
    obtain rfl : other = aspect := List.inj_on_of_nodup_map resolves.aspects isOther among named
    exact accepts

/-- The scope of an aspect is a filter like that of its patterns. -/
theorem Declarations.Resolves.appliesTo_iff {source : String} {filter : Pattern.Namespace}
    (read : Pattern.Namespace.parse source = .ok filter) (isScope : aspect.scope = some source)
    {other : AspectDeclaration} (isOther : other ∈ declared.aspects) (unscoped : other.scope = none)
    (noScope : pattern.scope = none) :
    declared.AppliesTo (.aspect aspect.name) pattern position type ↔
      declared.AppliesTo (.aspect other.name) { pattern with scope := some filter } position type := by
  have own : declared.OwnerAccepts pattern position type (.aspect aspect.name) ↔ _ :=
    resolves.ownerAccepts_iff among
  constructor
  · intro applies
    refine ⟨?_, ?_, applies.name, applies.interfaces⟩
    · refine (resolves.ownerAccepts_iff isOther).mpr fun source isScope => ?_
      cases unscoped.symm.trans isScope
    · rintro _ ⟨⟩
      exact own.mp applies.owner source isScope filter read
  · intro applies
    refine ⟨own.mpr fun source' isScope' scope read' => ?_, fun scope isFilter => ?_, applies.name,
      applies.interfaces⟩
    · cases isScope.symm.trans isScope'
      cases read.symm.trans read'
      exact applies.scope filter rfl
    · cases noScope.symm.trans isFilter

end Scoped

/-- The candidates of a type are the pointcuts that apply to its declaration. -/
theorem Represents.mem_candidates_iff {declared : Declarations} {bodies : List String} {catalog : Catalog}
    (represents : Represents declared catalog) (resolves : declared.Resolves bodies) (numbered : catalog.Numbered)
    {position : Nat} {pointcut : PointcutDeclaration} (there : declared.pointcuts[position]? = some pointcut)
    {pattern : Pattern} (read : Pattern.parse pointcut.pattern = .ok pattern) {type : TypeId} :
    ⟨position⟩ ∈ (Matcher.ofCatalog catalog).candidates type ↔
      ∃ declaration, declared.types[type.index]? = some declaration ∧
        declared.AppliesTo pointcut.owner pattern type.index declaration := by
  obtain ⟨entry, held, shown⟩ := represents.pointcuts.shown position pointcut there
  obtain rfl := Except.ok.inj (shown.pattern.symm.trans read)
  rw [Matcher.mem_candidates_iff numbered]
  constructor
  · rintro ⟨other, typeEntry, isOther, isType, applies⟩
    obtain rfl := Option.some.inj (held.symm.trans isOther)
    obtain ⟨declaration, isDeclared, typeShown⟩ := represents.types.source _ typeEntry isType
    exact ⟨declaration, isDeclared, (represents.appliesTo_iff resolves shown typeShown).mp applies⟩
  · rintro ⟨declaration, isDeclared, applies⟩
    obtain ⟨typeEntry, isType, typeShown⟩ := represents.types.shown _ declaration isDeclared
    exact ⟨entry, typeEntry, held, isType, (represents.appliesTo_iff resolves shown typeShown).mpr applies⟩

/-- It is all one whether a namespace is the scope of an aspect or stands in front of its pattern. -/
theorem Registry.candidates_iff_of_build {declared : Declarations} {bodies : List String} {registry : Registry}
    (accepted : Registry.build declared bodies = .ok registry) {source : String} {filter : Pattern.Namespace}
    (read : Pattern.Namespace.parse source = .ok filter) {words : List String}
    (keywords : ∀ word ∈ words, word ∈ Pattern.modifierWords) {body : String} {first second : Nat}
    (inScope : declared.PointcutAt first (some source) (Pattern.led words body))
    (under : declared.PointcutAt second none (Pattern.led words (source ++ " :: " ++ body))) (type : TypeId) :
    ⟨first⟩ ∈ (Matcher.ofCatalog registry.toCatalog).candidates type ↔
      ⟨second⟩ ∈ (Matcher.ofCatalog registry.toCatalog).candidates type := by
  have represents := represents_of_build accepted
  have numbered := numbered_of_build accepted
  obtain ⟨rfl, clean⟩ := eq_ofCatalog_of_build accepted
  have resolves := Resolution.catalog_clean_iff.mp clean
  obtain ⟨aspect, among, isScope, pointcut, there, owner, text⟩ := inScope
  obtain ⟨other, isOther, unscoped, qualified, there', owner', text'⟩ := under
  obtain ⟨pattern, plain⟩ := resolves.patterns pointcut (List.mem_of_getElem? there)
  obtain ⟨prefixed, behind⟩ := resolves.patterns qualified (List.mem_of_getElem? there')
  obtain ⟨noScope, rfl⟩ := Pattern.scope_of_under read keywords (text ▸ plain) (text' ▸ behind)
  rw [represents.mem_candidates_iff resolves numbered there plain,
    represents.mem_candidates_iff resolves numbered there' behind, owner, owner']
  simp only [resolves.appliesTo_iff among read isScope isOther unscoped noScope]

theorem Pattern.Namespace.accepts_iff (filter : Namespace) (name : List String) :
    filter.accepts name = true ↔ if filter.directOnly then name = filter.segments else filter.segments <+: name := by
  cases direct : filter.directOnly with
  | true => simp [accepts, direct]
  | false => simp [accepts, direct]

/-- **A namespace means one thing wherever it stands.** What is read as a namespace is read back from its text, and
also in front of a pattern, where it is no modifier whatever its words are; it accepts the one namespace or all that
start with it; a pattern may stand behind it; and a pointcut of an aspect whose scope it is applies to the types
that one of an aspect without a scope applies to, with the namespace in front of the pattern. -/
theorem Pattern.Namespace.means_of_parse {source : String} {filter : Namespace} (read : parse source = .ok filter) :
    parse filter.text = .ok filter ∧
      Pattern.parse (filter.text ++ " :: *") = .ok
        { visibilities := [], kinds := [], explicit := false, scope := some filter, typeName := none,
          member := .any, point := none, params := .any, interfaces := [] } ∧
      (∀ name, filter.accepts name = true ↔
        if filter.directOnly then name = filter.segments else filter.segments <+: name) ∧
      (∀ body pattern, Pattern.parse body = .ok pattern → pattern.visibilities = [] → pattern.kinds = [] →
        pattern.explicit = false → pattern.scope = none →
        Pattern.parse (source ++ " :: " ++ body) = .ok { pattern with scope := some filter }) ∧
      ∀ declared bodies registry, Registry.build declared bodies = .ok registry →
        ∀ words body first second, (∀ word ∈ words, word ∈ modifierWords) →
          declared.PointcutAt first (some source) (led words body) →
          declared.PointcutAt second none (led words (source ++ " :: " ++ body)) →
          ∀ type, ⟨first⟩ ∈ (Matcher.ofCatalog registry.toCatalog).candidates type ↔
            ⟨second⟩ ∈ (Matcher.ofCatalog registry.toCatalog).candidates type := by
  have everything : Pattern.parse "*" = .ok
      { visibilities := [], kinds := [], explicit := false, scope := none, typeName := none, member := .any,
        point := none, params := .any, interfaces := [] } := by
    decide +kernel
  have text : filter.text ++ " :: *" = filter.text ++ " :: " ++ "*" := by
    rw [String.append_assoc]
    rfl
  refine ⟨parse_text read, ?_, filter.accepts_iff, ?_, ?_⟩
  · rw [text]
    exact parse_under (parse_text read) everything rfl rfl rfl rfl
  · intro body pattern plain visibilities kinds implicit unscoped
    exact parse_under read plain visibilities kinds implicit unscoped
  · intro declared bodies registry accepted words body first second keywords inScope under type
    exact Registry.candidates_iff_of_build accepted read keywords inScope under type

/-- One aspect is limited to a namespace whose words are keywords, and one has it in front of its pattern. -/
def counting : Declarations where
  modules := [⟨"office"⟩]
  types :=
    [{ name := "Ledger", scope := "get.set", module := "office" },
      { name := "Tax", scope := "get.set.point", module := "office" }]
  members :=
    [{ owner := "Ledger", name := "Post", body := some "work" },
      { owner := "Tax", name := "Apply", body := some "work" }]
  aspects :=
    [{ name := "Inside", module := "office", scope := some "get . set.*" },
      { name := "Around", module := "office" }]
  pointcuts :=
    [{ advice := .before, pattern := "public *", body := "work", owner := .aspect "Inside" },
      { advice := .after, pattern := "public get . set.* :: *", body := "work", owner := .aspect "Around" }]

/-- Both apply to the ledger and to nothing below its namespace. -/
theorem Pattern.Namespace.means_of_counting :
    parse "get . set.*" = .ok ⟨["get", "set"], true⟩ ∧ parse "get.set.*" = .ok ⟨["get", "set"], true⟩ ∧
      ∃ registry, Registry.build counting ["work"] = .ok registry ∧
        ⟨1⟩ ∈ (Matcher.ofCatalog registry.toCatalog).candidates ⟨0⟩ ∧
        ⟨1⟩ ∉ (Matcher.ofCatalog registry.toCatalog).candidates ⟨1⟩ := by
  have read : parse "get . set.*" = .ok ⟨["get", "set"], true⟩ := by decide +kernel
  obtain ⟨again, -, -, -, same⟩ := means_of_parse read
  have runs : (Registry.build counting ["work"]).toOption.map (fun registry =>
      decide (⟨0⟩ ∈ (Matcher.ofCatalog registry.toCatalog).candidates ⟨0⟩ ∧
        ⟨0⟩ ∉ (Matcher.ofCatalog registry.toCatalog).candidates ⟨1⟩)) = some true := by
    decide +kernel
  obtain ⟨registry, accepted, answers⟩ := Registry.exists_of_run runs
  have twins := same counting ["work"] registry accepted ["public"] "*" 0 1 (by decide)
    ⟨_, .head _, rfl, _, rfl, rfl, rfl⟩ ⟨_, .tail _ (.head _), rfl, _, rfl, rfl, rfl⟩
  rw [decide_eq_true_iff, twins, twins] at answers
  exact ⟨read, again, registry, accepted, answers⟩

end Weaving
