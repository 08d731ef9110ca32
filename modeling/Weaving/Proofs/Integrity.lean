import Weaving.Proofs.Entries
import Weaving.Proofs.Planning

/-!
Integrity of registries. While names are resolved, a number is only ever taken from a table that has an
entry for it; what stands in for a module that is not there leaves a problem behind. So an accepted registry
is closed: whatever an entry refers to by number is there, and each type lists just the members that it owns
(`Registry.closed_of_build`).
-/

namespace Weaving

/-! ## What entries refer to -/

structure TypeEntry.Inside (modules types : Nat) (type : TypeEntry) : Prop where
  module : type.module.index < modules
  base : ∀ base, type.base = some base → base.index < types

structure MemberEntry.Inside (types bodies : Nat) (member : MemberEntry) : Prop where
  owner : member.owner.index < types
  variants : ∀ variant ∈ member.variants, variant.body.index < bodies
  defaults : ∀ param ∈ member.params, ∀ body, param.default = some (.computed body) → body.index < bodies

/-- What an owner of advice refers to is there. -/
def AdviceOwner.Inside (types aspects : Nat) : AdviceOwner → Prop
  | .aspect id => id.index < aspects
  | .type id => id.index < types

structure PointcutEntry.Inside (types aspects bodies : Nat) (pointcut : PointcutEntry) : Prop where
  body : pointcut.body.index < bodies
  owner : pointcut.owner.Inside types aspects

/-- Everything in a catalog stands under its number, and refers to what is there. -/
structure Catalog.Closed (catalog : Catalog) : Prop extends catalog.Numbered where
  modules : Weaving.Numbered ModuleEntry.id catalog.modules
  aspects : Weaving.Numbered AspectEntry.id catalog.aspects
  type : ∀ type ∈ catalog.types, type.Inside catalog.modules.length catalog.types.length
  /-- A type lists the members that it owns, in the order of their declarations. -/
  owned : ∀ type ∈ catalog.types,
    type.members = (catalog.members.filter (·.owner = type.id)).map (·.id)
  member : ∀ member ∈ catalog.members, member.Inside catalog.types.length catalog.bodyNames.length
  aspect : ∀ aspect ∈ catalog.aspects, aspect.module.index < catalog.modules.length
  pointcut : ∀ pointcut ∈ catalog.pointcuts,
    pointcut.Inside catalog.types.length catalog.aspects.length catalog.bodyNames.length

/-- The plans of a closed registry hold no pointcuts but its own. -/
structure Registry.Closed (registry : Registry) : Prop extends registry.toCatalog.Closed where
  plan : ∀ site, ∀ id ∈ (registry.plan site).all, id.index < registry.pointcuts.length

/-! ## Numbers that are handed out -/

theorem findModule?_index_lt {modules : List ModuleEntry} (numbered : Numbered ModuleEntry.id modules)
    {name : String} {id : ModuleId} (found : findModule? modules name = some id) :
    id.index < modules.length := by
  obtain ⟨module, isFirst, rfl⟩ := Option.map_eq_some_iff.mp found
  exact numbered.index_lt (List.mem_of_find?_eq_some isFirst)

theorem findBody?_index_lt {bodies : List String} {name : String} {id : BodyId}
    (found : Resolution.findBody? bodies name = some id) : id.index < bodies.length := by
  obtain ⟨index, isFirst, rfl⟩ := Option.map_eq_some_iff.mp found
  exact (List.findIdx?_eq_some_iff_getElem.mp isFirst).1

namespace Resolution

variable {declared : Declarations} {bodies : List String} {path user : String}
  {modules : List ModuleEntry} {types : List TypeEntry} {aspects : List AspectEntry}

/-! ## Modules and types -/

theorem numbered_modules (declared : List ModuleDeclaration) :
    Numbered ModuleEntry.id (resolveModules declared).value := by
  refine Checked.value_foldlM (fun modules module numbered => ?_) declared Numbered.nil
  unfold addModule
  split
  · exact numbered
  · exact numbered.append rfl

theorem module_resolveBase (held : Draft) : (resolveBase types held).value.module = held.1.module := by
  obtain ⟨entry, base⟩ := held
  cases base <;> rfl

theorem resolveBase_index_lt (numbered : Numbered TypeEntry.id types) {held : Draft}
    (fresh : held.1.base = none) {base : TypeId} (isBase : (resolveBase types held).value.base = some base) :
    base.index < types.length := by
  obtain ⟨entry, name⟩ := held
  cases name with
  | none => exact absurd (fresh.symm.trans isBase) (by simp)
  | some name => exact findType?_index_lt numbered isBase

/-- Bases are types that are there, whatever else is wrong with the declarations. -/
theorem resolveTypes_base_index_lt (modules : List ModuleEntry) (declared : List TypeDeclaration) :
    ∀ type ∈ (resolveTypes modules declared).value, ∀ base, type.base = some base →
      base.index < (resolveTypes modules declared).value.length := by
  have fresh := fresh_drafts modules declared
  rw [resolveTypes_value_eq, List.length_map]
  refine List.forall_mem_map.mpr fun draft among base isBase => ?_
  have inside := resolveBase_index_lt (fresh.numbered.map fun _ _ => rfl) (fresh.base draft among) isBase
  rwa [List.length_map] at inside

/-- Types refer to modules that are there. -/
theorem resolveTypes_module_index_lt (numbered : Numbered ModuleEntry.id modules)
    (clean : (resolveTypes modules declared.types).problems = []) :
    ∀ type ∈ (resolveTypes modules declared.types).value, type.module.index < modules.length := by
  have known := (resolveTypes_clean_iff.mp clean).1
  unfold resolveTypes at clean
  simp only [Checked.problems_bind, List.append_eq_nil_iff] at clean
  rw [resolveTypes_value_eq, (adds_type modules).value_eq clean.1]
  intro type held
  obtain ⟨draft, among, rfl⟩ := List.mem_map.mp held
  obtain ⟨index, declaration, found, -, rfl⟩ := drafts_mirror.of_mem_entries among
  obtain ⟨module, isModule⟩ := Option.isSome_iff_exists.mp (known declaration (List.mem_of_getElem? found))
  rw [module_resolveBase]
  simpa [Resolution.draft, isModule] using findModule?_index_lt numbered isModule

/-! ## Members -/

theorem resolveBody_index_lt {name : String} {id : BodyId}
    (found : (resolveBody bodies name user).value = some id) : id.index < bodies.length :=
  findBody?_index_lt found

theorem resolveParam_inside (param : ParamDeclaration) {body : BodyId}
    (computed : (resolveParam bodies path param).value.default = some (.computed body)) :
    body.index < bodies.length := by
  change (resolveDefault bodies path param.name param.default).value = _ at computed
  match declared : param.default with
  | none => simp [declared, resolveDefault] at computed
  | some (.const value) => simp [declared, resolveDefault] at computed
  | some (.computed name) =>
    simp only [declared, resolveDefault, Checked.value_bind, Checked.value_pure, Option.map_eq_some_iff,
      Default.computed.injEq, exists_eq_right] at computed
    exact resolveBody_index_lt computed

/-- The bodies of some variants are there. -/
def Bound (bodies : List String) (variants : List Variant) : Prop :=
  ∀ variant ∈ variants, variant.body.index < bodies.length

theorem Bound.addVariant {state : List Variant × RelationSet} (bound : Bound bodies state.1)
    (path : String) (variant : VariantDeclaration) :
    Bound bodies (Resolution.addVariant bodies path state variant).value.1 := by
  intro held among
  have value : (Resolution.addVariant bodies path state variant).value.1 = state.1 ++
      ((resolveBody bodies variant.body ("variant of " ++ path)).value.map
        fun body => ⟨variant.relations, body⟩).toList := by
    unfold Resolution.addVariant
    dsimp only
    split <;> rfl
  rw [value] at among
  rcases List.mem_append.mp among with among | added
  · exact bound held among
  · obtain ⟨body, isBody, rfl⟩ := Option.map_eq_some_iff.mp (Option.mem_toList.mp added)
    exact resolveBody_index_lt isBody

theorem remainingVariant_inside {member : MemberDeclaration} {rest : RelationSet} {variant : Variant}
    (found : (remainingVariant bodies path member rest).value = some variant) :
    variant.body.index < bodies.length := by
  unfold remainingVariant at found
  split at found
  · split at found
    · cases found
    · simp only [Checked.value_bind, Checked.value_pure, Option.map_eq_some_iff] at found
      obtain ⟨body, isBody, rfl⟩ := found
      exact resolveBody_index_lt isBody
  · split at found <;> cases found

/-- However many variants have been added, their bodies are there. -/
theorem Bound.addVariants {state : List Variant × RelationSet} (bound : Bound bodies state.1) (path : String)
    (declared : List VariantDeclaration) :
    Bound bodies (declared.foldlM (Resolution.addVariant bodies path) state).value.1 := by
  induction declared generalizing state with
  | nil => exact bound
  | cons variant declared ih => exact ih (bound.addVariant path variant)

theorem bound_resolveVariants (path : String) (member : MemberDeclaration) :
    Bound bodies (resolveVariants bodies path member).value := by
  have none : Bound bodies (([], .empty) : List Variant × RelationSet).1 := List.forall_mem_nil _
  have served := Bound.addVariants none path member.variants
  intro variant held
  unfold resolveVariants at held
  simp only [Checked.value_bind, Checked.value_pure] at held
  rcases List.mem_append.mp held with held | rest
  · exact served variant held
  · exact remainingVariant_inside (Option.mem_toList.mp rest)

/-- The entry of a declaration refers to its owner and to bodies that are there. -/
theorem inside_resolveMember {count : Nat} {owner : TypeId} (isType : owner.index < count) (path : String)
    (id : MemberId) (declared : MemberDeclaration) :
    (resolveMember bodies path id owner declared).value.Inside count bodies.length where
  owner := isType
  variants := bound_resolveVariants path declared
  defaults param held body computed := by
    have among : param ∈ (declared.params.mapM (resolveParam bodies path)).value := held
    rw [Checked.value_mapM] at among
    obtain ⟨source, -, rfl⟩ := List.mem_map.mp among
    exact resolveParam_inside source computed

/-- The members of a roster refer to types of it, and to bodies that are there. -/
def Roster.Inside (bodies : List String) (roster : Roster) : Prop :=
  ∀ member ∈ roster.members, member.Inside roster.types.length bodies.length

theorem Roster.Inside.add {roster : Roster} (inside : roster.Inside bodies) {member : MemberEntry}
    (refers : member.Inside roster.types.length bodies.length) : (roster.add member).Inside bodies := by
  have count : (roster.add member).types.length = roster.types.length := List.length_modify ..
  unfold Roster.Inside
  rw [count]
  exact List.forall_mem_append.mpr ⟨inside, List.forall_mem_singleton.mpr refers⟩

theorem Roster.Inside.addMember {roster : Roster} (inside : roster.Inside bodies)
    (numbered : Weaving.Numbered TypeEntry.id roster.types) (declared : MemberDeclaration) :
    (addMember bodies roster declared).value.Inside bodies := by
  unfold Resolution.addMember
  rw [Checked.value_bind]
  cases found : (resolveType roster.types declared.owner _).value with
  | none => exact inside
  | some owner =>
    dsimp only
    split
    · exact inside
    · exact inside.add (inside_resolveMember (findType?_index_lt numbered found) _ _ _)

/-- Members refer to types and bodies that are there, whatever else is wrong with their declarations. -/
theorem inside_resolveMembers (numbered : Numbered TypeEntry.id types) (declared : List MemberDeclaration) :
    (resolveMembers bodies types declared).value.Inside bodies := by
  have each (roster : Roster) (member : MemberDeclaration) (kept : roster.Numbered ∧ roster.Inside bodies) :
      (addMember bodies roster member).value.Numbered ∧ (addMember bodies roster member).value.Inside bodies :=
    ⟨kept.1.addMember bodies member, kept.2.addMember kept.1.types member⟩
  have start : Roster.Numbered ⟨types, []⟩ ∧ Roster.Inside bodies ⟨types, []⟩ :=
    ⟨⟨numbered, Numbered.nil⟩, List.forall_mem_nil _⟩
  unfold resolveMembers
  exact (Checked.value_foldlM each declared start).2

/-! ## Aspects and pointcuts -/

theorem numbered_aspects (modules : List ModuleEntry) (declared : List AspectDeclaration) :
    Numbered AspectEntry.id (resolveAspects modules declared).value := by
  refine Checked.value_foldlM (fun aspects aspect numbered => ?_) declared Numbered.nil
  unfold addAspect
  split
  · exact numbered
  · exact numbered.append rfl

theorem resolveAspects_inside (numbered : Numbered ModuleEntry.id modules)
    (clean : (resolveAspects modules declared.aspects).problems = []) :
    ∀ aspect ∈ (resolveAspects modules declared.aspects).value, aspect.module.index < modules.length := by
  have known := (resolveAspects_clean_iff.mp clean).1
  unfold resolveAspects at clean ⊢
  rw [(adds_aspect modules).value_eq clean]
  intro aspect held
  obtain ⟨⟨declaration, index⟩, among, rfl⟩ := List.mem_map.mp held
  have isDeclared := List.mem_of_getElem? (List.mem_zipIdx_iff_getElem?.mp among)
  obtain ⟨module, isModule⟩ := Option.isSome_iff_exists.mp (known declaration isDeclared)
  simpa [aspectEntry, isModule] using findModule?_index_lt numbered isModule

theorem resolveOwner_inside (numberedTypes : Numbered TypeEntry.id types)
    (numberedAspects : Numbered AspectEntry.id aspects) {pattern : String} {owner : OwnerDeclaration}
    {entry : AdviceOwner} (resolved : (resolveOwner types aspects pattern owner).value = some entry) :
    entry.Inside types.length aspects.length := by
  cases owner with
  | aspect name =>
    simp only [resolveOwner, Checked.value_found, Option.map_eq_some_iff] at resolved
    obtain ⟨aspect, isFirst, rfl⟩ := resolved
    exact numberedAspects.index_lt (List.mem_of_find?_eq_some isFirst)
  | type name =>
    simp only [resolveOwner, resolveType, Checked.value_bind, Checked.value_pure, Checked.value_found,
      Option.map_eq_some_iff] at resolved
    obtain ⟨type, isType, rfl⟩ := resolved
    exact findType?_index_lt numberedTypes isType

/-- Pointcuts refer to owners and bodies that are there, whatever else is wrong with their declarations. -/
theorem resolvePointcuts_inside (numberedTypes : Numbered TypeEntry.id types)
    (numberedAspects : Numbered AspectEntry.id aspects) (declared : List PointcutDeclaration) :
    ∀ pointcut ∈ (resolvePointcuts bodies types aspects declared).value,
      pointcut.Inside types.length aspects.length bodies.length := by
  intro pointcut held
  unfold resolvePointcuts at held
  simp only [Checked.value_bind, Checked.value_pure, Checked.value_mapM, List.filterMap_map,
    List.mem_filterMap] at held
  obtain ⟨⟨declaration, position⟩, -, resolved⟩ := held
  change (resolvePointcut bodies types aspects declaration position).value = some pointcut at resolved
  unfold resolvePointcut at resolved
  simp only [Checked.value_bind, Checked.value_pure] at resolved
  obtain ⟨pattern, -, resolved⟩ := Option.bind_eq_some_iff.mp resolved
  obtain ⟨body, isBody, resolved⟩ := Option.bind_eq_some_iff.mp resolved
  obtain ⟨owner, isOwner, resolved⟩ := Option.bind_eq_some_iff.mp resolved
  cases resolved
  exact ⟨resolveBody_index_lt isBody, resolveOwner_inside numberedTypes numberedAspects isOwner⟩

/-! ## Catalogs -/

theorem assignMembers_inside {members : List MemberEntry} {count : Nat}
    (inside : ∀ type ∈ types, type.Inside count types.length) :
    ∀ type ∈ assignMembers types members, type.Inside count (assignMembers types members).length := by
  rw [length_assignMembers]
  exact List.forall_mem_map.mpr fun type held => ⟨(inside type held).module, (inside type held).base⟩

theorem closed_catalog (clean : (catalog declared bodies).problems = []) :
    (catalog declared bodies).value.Closed := by
  have numbered := numbered_catalog clean
  have modules := numbered_modules declared.modules
  have types := numbered_types (resolveModules declared.modules).value declared.types
  have fresh := members_resolveTypes (resolveModules declared.modules).value declared.types
  have kept := kept_resolveMembers types fresh bodies declared.members
  have count : (resolveMembers bodies _ declared.members).value.types.length = _ :=
    (congrArg List.length kept.owned).trans (length_assignMembers _ _)
  unfold catalog at clean numbered ⊢
  simp only [Checked.problems_bind, Checked.problems_pure, List.append_nil, List.append_eq_nil_iff] at clean
  obtain ⟨-, typesClean, -, aspectsClean, -⟩ := clean
  simp only [Checked.value_bind, Checked.value_pure] at numbered ⊢
  refine ⟨numbered, modules, numbered_aspects _ _, ?_, kept.members_eq, ?_, ?_, ?_⟩
  · rw [kept.owned]
    exact assignMembers_inside fun type held => ⟨resolveTypes_module_index_lt modules typesClean type held,
      resolveTypes_base_index_lt _ declared.types type held⟩
  · exact inside_resolveMembers types declared.members
  · exact resolveAspects_inside modules aspectsClean
  · rw [count]
    exact resolvePointcuts_inside types (numbered_aspects _ _) declared.pointcuts

end Resolution

variable {declared : Declarations} {bodies : List String} {registry : Registry}

/-- **An accepted registry is closed.** -/
theorem Registry.closed_of_build (accepted : Registry.build declared bodies = .ok registry) :
    registry.Closed := by
  have plans (site : Site) (id : PointcutId) (held : id ∈ (registry.plan site).all) :
      id.index < registry.pointcuts.length := by
    have known := pointcut?_isSome_of_mem_plan accepted held
    obtain ⟨pointcut, found⟩ := Option.isSome_iff_exists.mp known
    exact (List.getElem?_eq_some_iff.mp found).1
  obtain ⟨rfl, clean⟩ := eq_ofCatalog_of_build accepted
  exact ⟨Resolution.closed_catalog clean, plans⟩

end Weaving
