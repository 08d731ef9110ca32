import Weaving.Proofs.References
import Weaving.Proofs.Soundness

/-!
Entries of declarations. The catalog of a program is resolved without a problem just if its declarations
resolve (`catalog_clean_iff`), and then each entry says in terms of numbers what its declaration says in
terms of names (`Represents`).
-/

namespace Weaving

/-! ## What entries say -/

variable (declared : Declarations)

structure MemberShown (index : Nat) (member : MemberDeclaration) (entry : MemberEntry) : Prop where
  id : entry.id = ⟨index⟩
  owner : declared.Refers member.owner entry.owner.index
  kind : entry.kind = member.kind
  name : entry.name = member.name
  visibility : entry.visibility = member.visibility
  returns : entry.returns = member.returns
  params : entry.params.map (·.type) = member.params.map (·.type)
  points : entry.points = member.points.map fun point => ⟨point.name, point.params⟩
  variants : entry.variants.Pairwise Resolution.Apart

structure AspectShown (index : Nat) (aspect : AspectDeclaration) (entry : AspectEntry) : Prop where
  id : entry.id = ⟨index⟩
  name : entry.name = aspect.name
  scope : ∀ scope, entry.scope = some scope ↔
    ∃ source, aspect.scope = some source ∧ Pattern.Namespace.parse source = .ok scope

/-- What an entry says about the owner of a pointcut. -/
def OwnerShown : OwnerDeclaration → AdviceOwner → Prop
  | .aspect name, .aspect id => ∃ aspect, declared.aspects[id.index]? = some aspect ∧ aspect.name = name
  | .type name, .type id => declared.Refers name id.index
  | _, _ => False

structure PointcutShown (index : Nat) (pointcut : PointcutDeclaration) (entry : PointcutEntry) : Prop where
  id : entry.id = ⟨index⟩
  pattern : Pattern.parse pointcut.pattern = .ok entry.pattern
  returns : entry.returns = pointcut.returns
  owner : OwnerShown declared pointcut.owner entry.owner

/-- A catalog says of a program what its declarations say. -/
structure Represents (catalog : Catalog) : Prop where
  types : Mirrors TypeShown declared.types catalog.types
  bases : ∀ sub super : TypeId, catalog.base? sub = some super ↔ declared.Extends sub.index super.index
  members : Mirrors (MemberShown declared) declared.members catalog.members
  aspects : Mirrors AspectShown declared.aspects catalog.aspects
  pointcuts : Mirrors (PointcutShown declared) declared.pointcuts catalog.pointcuts

variable {declared}

namespace Resolution

variable {bodies : List String} {modules : List ModuleEntry} {types : List TypeEntry}
  {aspects : List AspectEntry}

/-! ## Members -/

theorem points_value {path : String} {points : List PointDeclaration}
    (clean : (points.foldlM (addPoint path) []).problems = []) :
    (points.foldlM (addPoint path) []).value = points.map fun point => ⟨point.name, point.params⟩ := by
  rw [(adds_point path).value_eq clean]
  conv_rhs => rw [← List.zipIdx_map_fst 0 points, List.map_map]
  rfl

/-- A sound declaration whose owner is known is shown by its entry. -/
theorem memberEntry_shown {member : MemberDeclaration} {index : Nat}
    (found : declared.Found types)
    (owned : (findType? types member.owner).isSome = true) (sound : member.Sound bodies) :
    MemberShown declared index member (memberEntry bodies types (member, index)) := by
  obtain ⟨owner, isOwner⟩ := Option.isSome_iff_exists.mp owned
  have entryOwner : (memberEntry bodies types (member, index)).owner = owner := by simp [isOwner]
  refine ⟨rfl, (found _ _).mp (isOwner.trans (congrArg some entryOwner.symm)), rfl, rfl, rfl, rfl, ?_, ?_, ?_⟩
  · obtain ⟨path, params⟩ := exists_params_memberEntry bodies types (member, index)
    rw [params, List.map_map]
    rfl
  · exact points_value (addPoints_clean_iff.mpr sound.points)
  · exact resolveVariants_disjoint (resolveVariants_clean_iff.mpr sound.served)

/-- Two members clash in the catalog just if they do among the declarations. -/
theorem clashesWith_iff {first second : MemberDeclaration} {index : Nat}
    (found : declared.Found types)
    (owned : (findType? types first.owner).isSome = true) :
    ClashesWith types (memberEntry bodies types (first, index)) second ↔ declared.Clash first second := by
  obtain ⟨owner, isOwner⟩ := Option.isSome_iff_exists.mp owned
  have entryOwner : (memberEntry bodies types (first, index)).owner = owner := by simp [isOwner]
  have entryParams : (memberEntry bodies types (first, index)).params.length = first.params.length := by
    obtain ⟨path, params⟩ := exists_params_memberEntry bodies types (first, index)
    rw [params, List.length_map]
  unfold ClashesWith Declarations.Clash
  rw [entryOwner, entryParams]
  refine and_congr_left fun _ => ⟨fun same => ?_, ?_⟩
  · exact ⟨owner.index, (found _ _).mp isOwner, (found _ _).mp same⟩
  · rintro ⟨position, ofFirst, ofSecond⟩
    obtain rfl := Option.some.inj (isOwner.symm.trans ((found _ ⟨position⟩).mpr ofFirst))
    exact (found _ _).mpr ofSecond

theorem collectMembers_clean_iff
    (found : declared.Found types) :
    (collectMembers bodies types declared.members).problems = [] ↔
      (∀ member ∈ declared.members, ∃ position, declared.Refers member.owner position) ∧
      (∀ member ∈ declared.members, member.Sound bodies) ∧
      declared.members.Pairwise fun first second => ¬ declared.Clash first second := by
  unfold collectMembers
  rw [(adds_member bodies types).clean_iff declared.Clash fun _ _ _ sound => clashesWith_iff found sound.1]
  simp only [found.isSome_iff, ← and_assoc, ← forall_and]

theorem collectMembers_mirror
    (found : declared.Found types)
    (clean : (collectMembers bodies types declared.members).problems = []) :
    Mirrors (MemberShown declared) declared.members (collectMembers bodies types declared.members).value := by
  have sound := ((adds_member bodies types).clean_iff declared.Clash
    (fun _ _ _ sound => clashesWith_iff found sound.1) _).mp clean
  unfold collectMembers at clean ⊢
  rw [(adds_member bodies types).value_eq clean]
  refine Mirrors.of_zipIdx fun index member held => ?_
  obtain ⟨owned, isSound⟩ := sound.1 member (List.mem_of_getElem? held)
  exact memberEntry_shown found owned isSound

/-! ## Aspects -/

theorem resolvePattern_clean_iff {α : Type} {source : String} {read : Except PatternError α} :
    (resolvePattern source read).problems = [] ↔ ∃ result, read = .ok result := by
  cases read <;> simp [resolvePattern]

theorem resolvePattern_value {α : Type} {source : String} {read : Except PatternError α} {result : α} :
    (resolvePattern source read).value = some result ↔ read = .ok result := by
  cases read <;> simp [resolvePattern]

theorem resolveScope_clean_iff {scope : Option String} :
    (resolveScope scope).problems = [] ↔
      ∀ source, scope = some source → ∃ scope, Pattern.Namespace.parse source = .ok scope := by
  cases scope <;> simp [resolveScope, resolvePattern_clean_iff]

/-- The entry of the aspect at a position. -/
def aspectEntry (modules : List ModuleEntry) (declared : AspectDeclaration × Nat) : AspectEntry :=
  ⟨⟨declared.2⟩, declared.1.name, (findModule? modules declared.1.module).getD ⟨modules.length⟩,
    (resolveScope declared.1.scope).value⟩

theorem adds_aspect (modules : List ModuleEntry) : Checked.Adds (addAspect modules) (aspectEntry modules)
    (fun declared => (findModule? modules declared.module).isSome = true ∧
      ∀ source, declared.scope = some source → ∃ scope, Pattern.Namespace.parse source = .ok scope)
    fun held declared => held.name = declared.name where
  clean held item := by
    unfold addAspect resolveModule
    rw [← resolveScope_clean_iff]
    split <;> simp_all [and_assoc]
  value held item clean := by
    unfold addAspect at clean ⊢
    split
    · simp_all
    · rfl

theorem resolveAspects_clean_iff :
    (resolveAspects modules declared.aspects).problems = [] ↔
      (∀ aspect ∈ declared.aspects, (findModule? modules aspect.module).isSome = true) ∧
      (∀ aspect ∈ declared.aspects, ∀ source, aspect.scope = some source →
        ∃ scope, Pattern.Namespace.parse source = .ok scope) ∧
      (declared.aspects.map (·.name)).Nodup := by
  unfold resolveAspects
  rw [(adds_aspect modules).clean_iff (fun first second => first.name = second.name) fun _ _ _ _ => Iff.rfl,
    nodup_map_iff]
  simp only [← and_assoc, ← forall_and]

theorem resolveAspects_mirror (clean : (resolveAspects modules declared.aspects).problems = []) :
    Mirrors AspectShown declared.aspects (resolveAspects modules declared.aspects).value := by
  unfold resolveAspects at clean ⊢
  rw [(adds_aspect modules).value_eq clean]
  refine Mirrors.of_zipIdx fun index aspect _ => ⟨rfl, rfl, fun scope => ?_⟩
  unfold aspectEntry
  dsimp only
  cases aspect.scope <;> simp [resolveScope, resolvePattern_value]

/-! ## Pointcuts -/

/-- An aspect is found under the position of a declaration with its name. -/
theorem ownerShown_of_resolveOwner (found : declared.Found types)
    (mirrors : Mirrors AspectShown declared.aspects aspects) {pattern : String} {owner : OwnerDeclaration}
    {entry : AdviceOwner} (resolved : (resolveOwner types aspects pattern owner).value = some entry) :
    OwnerShown declared owner entry := by
  cases owner with
  | aspect name =>
    simp only [resolveOwner, Checked.value_found, Option.map_eq_some_iff] at resolved
    obtain ⟨aspect, isFirst, rfl⟩ := resolved
    obtain ⟨index, source, there, -, shown⟩ := mirrors.of_mem_entries (List.mem_of_find?_eq_some isFirst)
    have named : aspect.name = name := by simpa using List.find?_some isFirst
    rw [OwnerShown, shown.id]
    exact ⟨source, there, shown.name.symm.trans named⟩
  | type name =>
    simp only [resolveOwner, resolveType, Checked.value_bind, Checked.value_pure, Checked.value_found,
      Option.map_eq_some_iff] at resolved
    obtain ⟨type, isType, rfl⟩ := resolved
    exact (found name type).mp isType

theorem resolveOwner_clean_iff (found : declared.Found types)
    (mirrors : Mirrors AspectShown declared.aspects aspects) {pattern : String} {owner : OwnerDeclaration} :
    (resolveOwner types aspects pattern owner).problems = [] ↔ declared.OwnerKnown owner := by
  cases owner with
  | aspect name =>
    simp only [resolveOwner, Checked.problems_found_eq_nil_iff, Option.isSome_map, List.find?_isSome,
      decide_eq_true_eq, Declarations.OwnerKnown]
    constructor
    · rintro ⟨aspect, held, named⟩
      obtain ⟨index, source, there, -, shown⟩ := mirrors.of_mem_entries held
      exact ⟨source, List.mem_of_getElem? there, shown.name.symm.trans named⟩
    · rintro ⟨source, held, named⟩
      obtain ⟨index, aspect, -, there, shown⟩ := mirrors.of_mem held
      exact ⟨aspect, List.mem_of_getElem? there, shown.name.trans named⟩
  | type name =>
    simp [resolveOwner, resolveType, Declarations.OwnerKnown, found.isSome_iff]

theorem resolvePointcut_clean_iff (found : declared.Found types)
    (mirrors : Mirrors AspectShown declared.aspects aspects) {pointcut : PointcutDeclaration}
    {position : Nat} :
    (resolvePointcut bodies types aspects pointcut position).problems = [] ↔
      declared.OwnerKnown pointcut.owner ∧ (∃ pattern, Pattern.parse pointcut.pattern = .ok pattern) ∧
        pointcut.body ∈ bodies := by
  unfold resolvePointcut
  simp only [Checked.problems_bind, Checked.problems_pure, List.append_nil, List.append_eq_nil_iff,
    resolveOwner_clean_iff found mirrors, resolvePattern_clean_iff, resolveBody_clean_iff]

/-- A pointcut without problems is shown by an entry. -/
theorem resolvePointcut_shown (found : declared.Found types)
    (mirrors : Mirrors AspectShown declared.aspects aspects) {pointcut : PointcutDeclaration} {position : Nat}
    (clean : (resolvePointcut bodies types aspects pointcut position).problems = []) :
    ∃ entry, (resolvePointcut bodies types aspects pointcut position).value = some entry ∧
      PointcutShown declared position pointcut entry := by
  unfold resolvePointcut at clean ⊢
  simp only [Checked.problems_bind, Checked.problems_pure, List.append_nil, List.append_eq_nil_iff] at clean
  obtain ⟨ownerClean, patternClean, bodyClean⟩ := clean
  obtain ⟨owner, isOwner⟩ := complete_owner _ _ _ _ ownerClean
  obtain ⟨pattern, isPattern⟩ := complete_pattern _ _ patternClean
  obtain ⟨body, isBody⟩ : ∃ body, (resolveBody bodies pointcut.body _).value = some body :=
    Checked.complete_found _ _ bodyClean
  simp only [Checked.value_bind, Checked.value_pure, isOwner, isPattern, isBody]
  exact ⟨_, rfl, rfl, resolvePattern_value.mp isPattern, rfl,
    ownerShown_of_resolveOwner found mirrors isOwner⟩

theorem resolvePointcuts_clean_iff (found : declared.Found types)
    (mirrors : Mirrors AspectShown declared.aspects aspects) :
    (resolvePointcuts bodies types aspects declared.pointcuts).problems = [] ↔
      ∀ pointcut ∈ declared.pointcuts, declared.OwnerKnown pointcut.owner ∧
        (∃ pattern, Pattern.parse pointcut.pattern = .ok pattern) ∧ pointcut.body ∈ bodies := by
  unfold resolvePointcuts
  simp only [Checked.problems_bind, Checked.problems_pure, Checked.problems_mapM, List.append_nil,
    List.flatMap_eq_nil_iff, resolvePointcut_clean_iff found mirrors]
  constructor
  · intro each pointcut held
    obtain ⟨index, there⟩ := List.mem_iff_getElem?.mp held
    exact each (pointcut, index) (List.mem_zipIdx_iff_getElem?.mpr there)
  · intro each held among
    exact each held.1 (List.mem_of_getElem? (List.mem_zipIdx_iff_getElem?.mp among))

theorem resolvePointcuts_mirror (found : declared.Found types)
    (mirrors : Mirrors AspectShown declared.aspects aspects)
    (clean : (resolvePointcuts bodies types aspects declared.pointcuts).problems = []) :
    Mirrors (PointcutShown declared) declared.pointcuts
      (resolvePointcuts bodies types aspects declared.pointcuts).value := by
  unfold resolvePointcuts at clean ⊢
  simp only [Checked.problems_bind, Checked.problems_pure, Checked.problems_mapM, List.append_nil,
    List.flatMap_eq_nil_iff] at clean
  simp only [Checked.value_bind, Checked.value_pure, Checked.value_mapM, List.filterMap_map]
  exact Mirrors.of_filterMap fun index pointcut there =>
    resolvePointcut_shown found mirrors (clean (pointcut, index) (List.mem_zipIdx_iff_getElem?.mpr there))

/-! ## Catalogs -/

theorem assignMembers_mirror {members : List MemberEntry} {drafts : List TypeEntry}
    (based : Mirrors (BaseShown drafts) declared.types types) :
    Mirrors (BaseShown drafts) declared.types (assignMembers types members) :=
  based.map fun _ _ _ _ shown =>
    ⟨⟨shown.id, shown.name, shown.declaredName, shown.scope, shown.capabilities⟩, shown.base⟩

/-- Types that are resolved without a problem mirror their declarations, bases included. -/
theorem resolveTypes_found (clean : (resolveTypes modules declared.types).problems = []) :
    Mirrors (BaseShown (draftEntries modules declared.types)) declared.types
        (resolveTypes modules declared.types).value ∧
      declared.Found (draftEntries modules declared.types) ∧
      declared.Found (resolveTypes modules declared.types).value := by
  have distinct := (resolveTypes_clean_iff.mp clean).2.1
  unfold resolveTypes at clean
  simp only [Checked.problems_bind, List.append_eq_nil_iff] at clean
  have based := resolveTypes_mirror clean.1
  exact ⟨based, found_of_mirrors draftEntries_mirror distinct,
    found_of_mirrors (based.mono fun _ _ _ shown => shown.toTypeShown) distinct⟩

/-- What it takes for a catalog to be resolved without a problem. -/
theorem catalog_clean_iff : (catalog declared bodies).problems = [] ↔ declared.Resolves bodies := by
  rw [catalog_eq]
  simp only [Checked.problems_bind, Checked.problems_pure, List.append_nil, List.append_eq_nil_iff]
  constructor
  · rintro ⟨modulesClean, typesClean, membersClean, aspectsClean, pointcutsClean⟩
    obtain ⟨typeModules, types, bases, loops⟩ := resolveTypes_clean_iff.mp typesClean
    obtain ⟨-, -, found⟩ := resolveTypes_found typesClean
    obtain ⟨owners, sound, members⟩ := (collectMembers_clean_iff found).mp membersClean
    obtain ⟨aspectModules, scopes, aspects⟩ := resolveAspects_clean_iff.mp aspectsClean
    have pointcuts :=
      (resolvePointcuts_clean_iff found (resolveAspects_mirror aspectsClean)).mp pointcutsClean
    exact {
      modules := (resolveModules_clean_iff _).mp modulesClean
      types, aspects, bases, loops, owners, members, sound, scopes
      typeModules := fun type held => (findModule?_isSome_iff modulesClean).mp (typeModules type held)
      aspectModules := fun aspect held => (findModule?_isSome_iff modulesClean).mp (aspectModules aspect held)
      patterns := fun pointcut held => (pointcuts pointcut held).2.1
      adviceOwners := fun pointcut held => (pointcuts pointcut held).1
      adviceBodies := fun pointcut held => (pointcuts pointcut held).2.2 }
  · intro resolves
    have modulesClean := (resolveModules_clean_iff _).mpr resolves.modules
    have typesClean := resolveTypes_clean_iff.mpr ⟨fun type held =>
      (findModule?_isSome_iff modulesClean).mpr (resolves.typeModules type held), resolves.types,
      resolves.bases, resolves.loops⟩
    obtain ⟨-, -, found⟩ := resolveTypes_found typesClean
    have aspectsClean := resolveAspects_clean_iff.mpr ⟨fun aspect held =>
      (findModule?_isSome_iff modulesClean).mpr (resolves.aspectModules aspect held), resolves.scopes,
      resolves.aspects⟩
    refine ⟨modulesClean, typesClean, ?_, aspectsClean, ?_⟩
    · exact (collectMembers_clean_iff found).mpr ⟨resolves.owners, resolves.sound, resolves.members⟩
    · exact (resolvePointcuts_clean_iff found (resolveAspects_mirror aspectsClean)).mpr fun pointcut held =>
        ⟨resolves.adviceOwners pointcut held, resolves.patterns pointcut held,
          resolves.adviceBodies pointcut held⟩

/-- A catalog without problems says what the declarations say. -/
theorem represents_catalog (clean : (catalog declared bodies).problems = []) :
    Represents declared (catalog declared bodies).value := by
  rw [catalog_eq] at clean ⊢
  simp only [Checked.problems_bind, Checked.problems_pure, List.append_nil, List.append_eq_nil_iff] at clean
  obtain ⟨-, typesClean, membersClean, aspectsClean, pointcutsClean⟩ := clean
  obtain ⟨based, drafts, found⟩ := resolveTypes_found typesClean
  have aspects := resolveAspects_mirror aspectsClean
  exact {
    types := (assignMembers_mirror based).mono fun _ _ _ shown => shown.toTypeShown
    bases := fun _ _ => base?_eq_some_iff drafts (assignMembers_mirror based)
    members := collectMembers_mirror found membersClean
    aspects
    pointcuts := resolvePointcuts_mirror found aspects pointcutsClean }

end Resolution

end Weaving
