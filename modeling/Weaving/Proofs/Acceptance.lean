import Weaving.Proofs.Entries
import Weaving.Proofs.Planning

/-!
Acceptance. A registry is built just if the declarations are well-formed (`Registry.build_ok_iff`).
Matching comes to the same among the entries of a catalog and among the declarations that it represents; so
the checks that are made of planned advice are those that well-formedness asks for.
-/

namespace Weaving

variable {declared : Declarations} {bodies : List String} {catalog : Catalog}

namespace Represents

variable (represents : Represents declared catalog) (resolves : declared.Resolves bodies)

include represents

/-! ## Types -/

theorem derives_iff {sub super : TypeId} :
    catalog.Derives sub super ↔ declared.Derives sub.index super.index := by
  constructor
  · exact Relation.ReflTransGen.lift Id.index (fun a b => (represents.bases a b).mp) _ _
  · exact Relation.ReflTransGen.lift Id.mk (fun a b => (represents.bases ⟨a⟩ ⟨b⟩).mpr) _ _

theorem offers_iff {type : TypeId} {capability : String} :
    catalog.Offers type capability ↔ declared.Offers type.index capability := by
  constructor
  · rintro ⟨super, entry, derives, found, offered⟩
    obtain ⟨type, there, shown⟩ := represents.types.source super.index entry found
    exact ⟨super.index, type, represents.derives_iff.mp derives, there, shown.capabilities ▸ offered⟩
  · rintro ⟨super, type, derives, there, offered⟩
    obtain ⟨entry, found, shown⟩ := represents.types.shown super type there
    exact ⟨⟨super⟩, entry, represents.derives_iff.mpr derives, found, shown.capabilities.symm ▸ offered⟩

include resolves

theorem found : declared.Found catalog.types := found_of_mirrors represents.types resolves.types

/-- What stands at a position under a name is referred to by the name alone. -/
theorem refers_unique {name : String} {first second : Nat} (one : declared.Refers name first)
    (other : declared.Refers name second) : first = second := by
  have found := represents.found resolves
  have same := ((found name ⟨first⟩).mpr one).symm.trans ((found name ⟨second⟩).mpr other)
  exact congrArg Id.index (Option.some.inj same)

theorem isAssignable_iff {given expected : String} :
    catalog.isAssignable given expected = true ↔ declared.Assignable given expected := by
  have found := represents.found resolves
  unfold Catalog.isAssignable Catalog.findType? Declarations.Assignable
  simp only [Bool.or_eq_true, decide_eq_true_eq, or_assoc]
  refine or_congr_right (or_congr_right ?_)
  cases isSub : findType? catalog.types given with
  | none =>
    have unknown : ∀ sub, ¬ declared.Refers given sub := fun sub refers => by
      rw [(found given ⟨sub⟩).mpr refers] at isSub
      cases isSub
    simp [unknown]
  | some sub =>
    have refers := (found given sub).mp isSub
    have sub_iff (holds : Nat → Prop) :
        (∃ other, declared.Refers given other ∧ holds other) ↔ holds sub.index := by
      constructor
      · rintro ⟨other, alike, held⟩
        exact represents.refers_unique resolves refers alike ▸ held
      · exact fun held => ⟨sub.index, refers, held⟩
    rw [sub_iff]
    cases isSuper : findType? catalog.types expected with
    | none =>
      have unknown : ∀ super, ¬ declared.Refers expected super := fun super refers => by
        rw [(found expected ⟨super⟩).mpr refers] at isSuper
        cases isSuper
      simp only [unknown, false_and, exists_false, not_false_eq_true, implies_true, true_and, false_or]
      exact catalog.hasCapability_iff.trans represents.offers_iff
    | some super =>
      have names := (found expected super).mp isSuper
      obtain ⟨type, there⟩ := names.exists_type
      obtain ⟨entry, held, -⟩ := represents.types.shown super.index type there
      have derives : catalog.isSubtype sub super = true ↔ declared.Derives sub.index super.index := by
        rw [Catalog.isSubtype, List.contains_iff_mem,
          catalog.mem_baseChain_iff (List.getElem?_eq_some_iff.mp held).1, represents.derives_iff]
      rw [derives]
      constructor
      · exact fun derives => Or.inl ⟨super.index, names, derives⟩
      · rintro (⟨other, alike, derives⟩ | ⟨unknown, -⟩)
        · exact represents.refers_unique resolves alike names ▸ derives
        · exact absurd names (unknown super.index)

/-! ## Matching -/

variable {index : Nat} {pointcut : PointcutDeclaration} {entry : PointcutEntry}
  (shown : PointcutShown declared index pointcut entry)

include shown

theorem ownerAccepts_iff {position : Nat} {type : TypeDeclaration} {typeEntry : TypeEntry}
    (typeShown : TypeShown position type typeEntry) :
    catalog.OwnerAccepts entry typeEntry ↔
      declared.OwnerAccepts entry.pattern position type pointcut.owner := by
  have owner := shown.owner
  unfold Catalog.OwnerAccepts Declarations.OwnerAccepts
  cases isOwner : pointcut.owner with
  | aspect name =>
    cases isEntry : entry.owner with
    | aspect id =>
      rw [isOwner, isEntry] at owner
      obtain ⟨aspect, there, named⟩ := owner
      obtain ⟨aspectEntry, held, aspectShown⟩ := represents.aspects.shown id.index aspect there
      have only (other : AspectDeclaration) (among : other ∈ declared.aspects) (alike : other.name = name) :
          other = aspect :=
        List.inj_on_of_nodup_map resolves.aspects among (List.mem_of_getElem? there) (alike.trans named.symm)
      dsimp only
      rw [← typeShown.scope]
      constructor
      · intro accepts other among alike source isSource scope parses
        obtain rfl := only other among alike
        exact accepts aspectEntry held scope ((aspectShown.scope scope).mpr ⟨source, isSource, parses⟩)
      · intro accepts other isOther scope isScope
        obtain rfl := Option.some.inj (held.symm.trans isOther)
        obtain ⟨source, isSource, parses⟩ := (aspectShown.scope scope).mp isScope
        exact accepts aspect (List.mem_of_getElem? there) named source isSource scope parses
    | type id =>
      rw [isOwner, isEntry] at owner
      exact owner.elim
  | type name =>
    cases isEntry : entry.owner with
    | aspect id =>
      rw [isOwner, isEntry] at owner
      exact owner.elim
    | type id =>
      rw [isOwner, isEntry] at owner
      change (_ → id = typeEntry.id) ↔ (_ → declared.Refers name position)
      refine imp_congr_right fun _ => ?_
      rw [typeShown.id]
      constructor
      · rintro rfl
        exact owner
      · exact fun refers => congrArg Id.mk (represents.refers_unique resolves owner refers)

theorem appliesTo_iff {position : Nat} {type : TypeDeclaration} {typeEntry : TypeEntry}
    (typeShown : TypeShown position type typeEntry) :
    catalog.AppliesTo entry typeEntry ↔ declared.AppliesTo pointcut.owner entry.pattern position type := by
  have owner := represents.ownerAccepts_iff resolves shown typeShown
  have offers (capability : String) :
      catalog.Offers typeEntry.id capability ↔ declared.Offers position capability := by
    rw [represents.offers_iff, typeShown.id]
  constructor
  · intro applies
    exact ⟨owner.mp applies.owner, typeShown.scope ▸ applies.scope, typeShown.name ▸ applies.name,
      fun capability held => (offers capability).mp (applies.interfaces capability held)⟩
  · intro applies
    exact ⟨owner.mpr applies.owner, typeShown.scope ▸ applies.scope, typeShown.name ▸ applies.name,
      fun capability held => (offers capability).mpr (applies.interfaces capability held)⟩

theorem selects_iff {position : Nat} {member : MemberDeclaration} {memberEntry : MemberEntry}
    (memberShown : MemberShown declared position member memberEntry) {params : List String} :
    catalog.Selects entry memberEntry params ↔
      declared.Selects pointcut.owner entry.pattern member params := by
  constructor
  · rintro ⟨⟨typeEntry, held, applies⟩, suits⟩
    obtain ⟨type, there, typeShown⟩ := represents.types.source _ typeEntry held
    have applies := (represents.appliesTo_iff resolves shown typeShown).mp applies
    exact ⟨⟨_, type, memberShown.owner, there, applies⟩,
      memberShown.kind ▸ suits.kind, memberShown.visibility ▸ suits.visibility,
      memberShown.name ▸ suits.name, suits.params⟩
  · rintro ⟨⟨index, type, refers, there, applies⟩, kind, visibility, name, params⟩
    obtain rfl := represents.refers_unique resolves memberShown.owner refers
    obtain ⟨typeEntry, held, typeShown⟩ := represents.types.shown _ type there
    exact ⟨⟨typeEntry, held, (represents.appliesTo_iff resolves shown typeShown).mpr applies⟩,
      memberShown.kind ▸ kind, memberShown.visibility ▸ visibility, memberShown.name ▸ name, params⟩

theorem matchesMember_iff {position : Nat} {member : MemberDeclaration} {memberEntry : MemberEntry}
    (held : catalog.members[position]? = some memberEntry)
    (memberShown : MemberShown declared position member memberEntry) :
    catalog.Matches entry (.entry ⟨position⟩) ↔
      declared.MatchesMember pointcut.owner entry.pattern member := by
  unfold Catalog.Matches Declarations.MatchesMember
  refine and_congr_right fun _ => ?_
  rw [← memberShown.params, ← represents.selects_iff resolves shown memberShown]
  constructor
  · rintro ⟨other, isOther, selects⟩
    obtain rfl := Option.some.inj (held.symm.trans isOther)
    exact selects
  · exact fun selects => ⟨memberEntry, held, selects⟩

theorem matchesPoint_iff {position : Nat} {member : MemberDeclaration} {memberEntry : MemberEntry}
    (held : catalog.members[position]? = some memberEntry)
    (memberShown : MemberShown declared position member memberEntry) :
    (∃ index, catalog.Matches entry (.point ⟨position⟩ index)) ↔
      declared.MatchesPoint pointcut.owner entry.pattern member := by
  unfold Catalog.Matches Declarations.MatchesPoint
  simp only [← represents.selects_iff resolves shown memberShown]
  constructor
  · rintro ⟨index, explicit, other, point, isOther, isPoint, named, selects⟩
    obtain rfl := Option.some.inj (held.symm.trans isOther)
    rw [memberShown.points, List.getElem?_map, Option.map_eq_some_iff] at isPoint
    obtain ⟨source, isSource, rfl⟩ := isPoint
    exact ⟨explicit, source, List.mem_of_getElem? isSource, named, selects⟩
  · rintro ⟨explicit, source, among, named, selects⟩
    obtain ⟨index, isSource⟩ := List.mem_iff_getElem?.mp among
    refine ⟨index, explicit, memberEntry, ⟨source.name, source.params⟩, held, ?_, named, selects⟩
    rw [memberShown.points, List.getElem?_map, isSource]
    rfl

end Represents

/-! ## Planned advice -/

namespace Resolution

theorem checkReturn_clean_iff {registry : Registry} {member : MemberEntry} {id : PointcutId} :
    (checkReturn registry member id).problems = [] ↔
      ∀ pointcut, registry.pointcut? id = some pointcut → ∀ given, pointcut.returns = some given →
        registry.isAssignable given member.returns = true := by
  unfold checkReturn
  cases registry.pointcut? id with
  | none => simp
  | some pointcut => cases isReturn : pointcut.returns <;> simp [isReturn]

variable (numbered : catalog.Numbered)

include numbered

/-- What is planned at a site are the pointcuts that match there, on the side that their advice is for. -/
theorem mem_plan_iff {site : Site} {id : PointcutId} :
    id ∈ ((Registry.ofCatalog catalog).plan site).all ↔
      ∃ pointcut, catalog.pointcut? id = some pointcut ∧ site.Admits pointcut.advice ∧
        catalog.Matches pointcut site := by
  have scanned := Registry.scanned numbered site
  rw [Plan.all, List.mem_append, scanned.before, scanned.after]
  constructor
  · rintro (⟨admits, pointcut, known, isKind, applies⟩ | ⟨admits, pointcut, known, isKind, applies⟩) <;>
      exact ⟨pointcut, known, isKind ▸ admits, applies⟩
  · rintro ⟨pointcut, known, admits, applies⟩
    cases isKind : pointcut.advice with
    | before => exact Or.inl ⟨isKind ▸ admits, pointcut, known, isKind, applies⟩
    | after => exact Or.inr ⟨isKind ▸ admits, pointcut, known, isKind, applies⟩

theorem mem_plan_id_iff {site : Site} {pointcut : PointcutEntry} (held : pointcut ∈ catalog.pointcuts) :
    pointcut.id ∈ ((Registry.ofCatalog catalog).plan site).all ↔
      site.Admits pointcut.advice ∧ catalog.Matches pointcut site := by
  have known : catalog.pointcut? pointcut.id = some pointcut := numbered.pointcuts.getElem?_of_mem held
  simp [mem_plan_iff numbered, known]

/-- A pointcut is planned at an explicit join point of a member just if it matches one. -/
theorem planned_point_iff {member : MemberEntry} (among : member ∈ catalog.members) {pointcut : PointcutEntry}
    (held : pointcut ∈ catalog.pointcuts) :
    (∃ index < member.points.length,
      pointcut.id ∈ ((Registry.ofCatalog catalog).plan (.point member.id index)).all) ↔
      ∃ index, catalog.Matches pointcut (.point member.id index) := by
  have known : catalog.member? member.id = some member := numbered.members.getElem?_of_mem among
  have admits (index : Nat) : (Site.point member.id index).Admits pointcut.advice := by
    cases pointcut.advice <;> trivial
  simp only [mem_plan_id_iff numbered held, admits, true_and]
  constructor
  · exact fun ⟨index, _, applies⟩ => ⟨index, applies⟩
  · rintro ⟨index, applies⟩
    have ⟨_, other, point, isOther, isPoint, _⟩ := applies
    obtain rfl := Option.some.inj (known.symm.trans isOther)
    exact ⟨index, (List.getElem?_eq_some_iff.mp isPoint).1, applies⟩

/-- A pointcut is planned somewhere in a member just if it matches the member or one of its join points. -/
theorem planned_iff {member : MemberEntry} (among : member ∈ catalog.members) {pointcut : PointcutEntry}
    (held : pointcut ∈ catalog.pointcuts) :
    (∃ site ∈ Site.ofMember member, pointcut.id ∈ ((Registry.ofCatalog catalog).plan site).all) ↔
      catalog.Matches pointcut (.entry member.id) ∨
        ∃ index, catalog.Matches pointcut (.point member.id index) := by
  -- the advice of the member itself is planned on one side of it or on the other
  have whole : (pointcut.id ∈ ((Registry.ofCatalog catalog).plan (.entry member.id)).all ∨
      pointcut.id ∈ ((Registry.ofCatalog catalog).plan (.exit member.id)).all) ↔
      catalog.Matches pointcut (.entry member.id) := by
    have sides : catalog.Matches pointcut (.exit member.id) ↔ catalog.Matches pointcut (.entry member.id) :=
      Iff.rfl
    rw [mem_plan_id_iff numbered held, mem_plan_id_iff numbered held, sides]
    cases pointcut.advice <;> simp [Site.Admits]
  rw [← planned_point_iff numbered among held, ← whole]
  simp [Site.ofMember, or_assoc]

theorem checkReturns_clean_iff :
    (checkReturns (Registry.ofCatalog catalog)).problems = [] ↔
      ∀ member ∈ catalog.members, ∀ pointcut ∈ catalog.pointcuts,
        (catalog.Matches pointcut (.entry member.id) ∨
          ∃ index, catalog.Matches pointcut (.point member.id index)) →
        ∀ given, pointcut.returns = some given → catalog.isAssignable given member.returns = true := by
  unfold checkReturns
  simp only [List.forM_eq_forM, Checked.problems_forM, List.flatMap_eq_nil_iff, checkReturn_clean_iff]
  refine forall₂_congr fun member among => ⟨fun fits pointcut held applies => ?_, fun fits => ?_⟩
  · obtain ⟨site, ofMember, planned⟩ := (planned_iff numbered among held).mpr applies
    exact fits site ofMember _ planned pointcut (numbered.pointcuts.getElem?_of_mem held)
  · intro site ofMember id planned pointcut known
    have held : pointcut ∈ catalog.pointcuts := List.mem_of_getElem? known
    obtain rfl : pointcut.id = id := numbered.pointcuts _ _ known
    exact fits pointcut held ((planned_iff numbered among held).mp ⟨site, ofMember, planned⟩)

theorem checkReached_clean_iff :
    (checkReached (Registry.ofCatalog catalog)).problems = [] ↔
      ∀ pointcut ∈ catalog.pointcuts, pointcut.pattern.explicit = true →
        ∃ member ∈ catalog.members, ∃ index, catalog.Matches pointcut (.point member.id index) := by
  unfold checkReached
  simp only [List.forM_eq_forM, Checked.problems_forM, List.flatMap_eq_nil_iff,
    Checked.problems_require_eq_nil_iff]
  refine forall₂_congr fun pointcut held => ?_
  have reached : isReached (Registry.ofCatalog catalog) pointcut.id = true ↔
      ∃ member ∈ catalog.members, ∃ index, catalog.Matches pointcut (.point member.id index) := by
    unfold isReached
    simp only [List.any_eq_true, List.mem_range, List.contains_iff_mem]
    exact exists_congr fun member => and_congr_right fun among => planned_point_iff numbered among held
  rw [← reached]
  cases pointcut.pattern.explicit <;> simp

end Resolution

/-! ## Well-formed programs -/

namespace Represents

variable (represents : Represents declared catalog) (resolves : declared.Resolves bodies)

include represents resolves

/-- Explicit join points are found among the entries just if they are among the declarations. -/
theorem reached_iff :
    (∀ pointcut ∈ catalog.pointcuts, pointcut.pattern.explicit = true →
      ∃ member ∈ catalog.members, ∃ index, catalog.Matches pointcut (.point member.id index)) ↔
    ∀ pointcut ∈ declared.pointcuts, ∀ pattern, Pattern.parse pointcut.pattern = .ok pattern →
      pattern.explicit = true →
        ∃ member ∈ declared.members, declared.MatchesPoint pointcut.owner pattern member := by
  constructor
  · intro reached pointcut among pattern parses explicit
    obtain ⟨index, entry, -, there, shown⟩ := represents.pointcuts.of_mem among
    obtain rfl := Except.ok.inj (shown.pattern.symm.trans parses)
    obtain ⟨memberEntry, held, applies⟩ := reached entry (List.mem_of_getElem? there) explicit
    obtain ⟨position, member, isMember, isEntry, memberShown⟩ := represents.members.of_mem_entries held
    rw [memberShown.id, represents.matchesPoint_iff resolves shown isEntry memberShown] at applies
    exact ⟨member, List.mem_of_getElem? isMember, applies⟩
  · intro reached entry held explicit
    obtain ⟨index, pointcut, there, -, shown⟩ := represents.pointcuts.of_mem_entries held
    obtain ⟨member, among, applies⟩ :=
      reached pointcut (List.mem_of_getElem? there) entry.pattern shown.pattern explicit
    obtain ⟨position, memberEntry, -, isEntry, memberShown⟩ := represents.members.of_mem among
    refine ⟨memberEntry, List.mem_of_getElem? isEntry, ?_⟩
    rw [memberShown.id]
    exact (represents.matchesPoint_iff resolves shown isEntry memberShown).mpr applies

/-- What advice returns fits among the entries just if it does among the declarations. -/
theorem returns_iff :
    (∀ member ∈ catalog.members, ∀ pointcut ∈ catalog.pointcuts,
      (catalog.Matches pointcut (.entry member.id) ∨
        ∃ index, catalog.Matches pointcut (.point member.id index)) →
      ∀ given, pointcut.returns = some given → catalog.isAssignable given member.returns = true) ↔
    ∀ pointcut ∈ declared.pointcuts, ∀ pattern, Pattern.parse pointcut.pattern = .ok pattern →
      ∀ given, pointcut.returns = some given → ∀ member ∈ declared.members,
        declared.MatchesMember pointcut.owner pattern member ∨
          declared.MatchesPoint pointcut.owner pattern member → declared.Assignable given member.returns := by
  have matches_iff {index position : Nat} {pointcut : PointcutDeclaration} {entry : PointcutEntry}
      {member : MemberDeclaration} {memberEntry : MemberEntry}
      (shown : PointcutShown declared index pointcut entry)
      (isEntry : catalog.members[position]? = some memberEntry)
      (memberShown : MemberShown declared position member memberEntry) :
      (catalog.Matches entry (.entry memberEntry.id) ∨
        ∃ index, catalog.Matches entry (.point memberEntry.id index)) ↔
      declared.MatchesMember pointcut.owner entry.pattern member ∨
        declared.MatchesPoint pointcut.owner entry.pattern member := by
    rw [memberShown.id, represents.matchesMember_iff resolves shown isEntry memberShown,
      represents.matchesPoint_iff resolves shown isEntry memberShown]
  constructor
  · intro fits pointcut among pattern parses given isReturn member isMember applies
    obtain ⟨index, entry, -, there, shown⟩ := represents.pointcuts.of_mem among
    obtain ⟨position, memberEntry, -, isEntry, memberShown⟩ := represents.members.of_mem isMember
    obtain rfl := Except.ok.inj (shown.pattern.symm.trans parses)
    rw [← matches_iff shown isEntry memberShown] at applies
    rw [← represents.isAssignable_iff resolves, ← memberShown.returns]
    exact fits memberEntry (List.mem_of_getElem? isEntry) entry (List.mem_of_getElem? there) applies given
      (shown.returns.trans isReturn)
  · intro fits memberEntry heldMember entry held applies given isReturn
    obtain ⟨index, pointcut, there, -, shown⟩ := represents.pointcuts.of_mem_entries held
    obtain ⟨position, member, isMember, isEntry, memberShown⟩ := represents.members.of_mem_entries heldMember
    rw [matches_iff shown isEntry memberShown] at applies
    rw [represents.isAssignable_iff resolves, memberShown.returns]
    exact fits pointcut (List.mem_of_getElem? there) entry.pattern shown.pattern given
      (shown.returns.symm.trans isReturn) member (List.mem_of_getElem? isMember) applies

end Represents

/-- Planned advice passes its checks just if what well-formedness asks of advice holds. -/
theorem Resolution.checkAdvice_clean_iff (clean : (Resolution.catalog declared bodies).problems = []) :
    (checkAdvice (Registry.ofCatalog (Resolution.catalog declared bodies).value)).problems = [] ↔
      declared.WellFormed bodies := by
  have represents := represents_catalog clean
  have numbered := numbered_catalog clean
  have resolves := catalog_clean_iff.mp clean
  unfold checkAdvice
  rw [Checked.problems_bind, List.append_eq_nil_iff, checkReturns_clean_iff numbered,
    checkReached_clean_iff numbered, represents.returns_iff resolves, represents.reached_iff resolves]
  exact ⟨fun ⟨returns, reached⟩ => ⟨resolves, reached, returns⟩,
    fun wellFormed => ⟨wellFormed.returns, wellFormed.reached⟩⟩

/-- The advice of an accepted registry has passed its checks. -/
theorem Registry.checked_of_build {registry : Registry} (accepted : build declared bodies = .ok registry) :
    (Resolution.checkAdvice registry).problems = [] := by
  unfold build at accepted
  dsimp only at accepted
  split at accepted
  · split at accepted
    · rename_i checked
      cases accepted
      exact List.isEmpty_iff.mp checked
    · cases accepted
  · cases accepted

/-- A type that planned advice declares fits what the member of its site returns. -/
theorem Registry.returns_of_build {registry : Registry} (accepted : build declared bodies = .ok registry)
    {site : Site} {id : PointcutId} (planned : id ∈ (registry.plan site).all) {pointcut : PointcutEntry}
    (known : registry.pointcut? id = some pointcut) {given : String} (declares : pointcut.returns = some given) :
    ∃ member, registry.member? site.member = some member ∧
      registry.isAssignable given member.returns = true := by
  have numbered := numbered_of_build accepted
  have checked := checked_of_build accepted
  obtain ⟨member, among, ofMember⟩ : ∃ member ∈ registry.members, site ∈ Site.ofMember member := by
    by_contra stray
    obtain ⟨rfl, -⟩ := eq_ofCatalog_of_build accepted
    have none : (ofCatalog (Resolution.catalog declared bodies).value).plan site = .empty :=
      plan_eq_empty fun member among ofMember => stray ⟨member, among, ofMember⟩
    rw [none] at planned
    cases planned
  have isMember : registry.member? site.member = some member := by
    rw [Site.member_eq_of_mem ofMember]
    exact numbered.members.getElem?_of_mem among
  have returns : (Resolution.checkReturns registry).problems = [] := by
    rw [Resolution.checkAdvice, Checked.problems_bind, List.append_eq_nil_iff] at checked
    exact checked.1
  simp only [Resolution.checkReturns, List.forM_eq_forM, Checked.problems_forM, List.flatMap_eq_nil_iff,
    Resolution.checkReturn_clean_iff] at returns
  exact ⟨member, isMember, returns member among site ofMember id planned pointcut known given declares⟩

/-- **Exactly the well-formed programs are accepted.** Whatever the declarations are, and in whatever order
they stand, a registry is built from them just if they are well-formed over the bodies that are bound. -/
theorem Registry.build_ok_iff :
    (∃ registry, Registry.build declared bodies = .ok registry) ↔ declared.WellFormed bodies := by
  unfold Registry.build
  dsimp only
  by_cases clean : (Resolution.catalog declared bodies).problems = []
  · rw [if_pos (List.isEmpty_iff.mpr clean), ← Resolution.checkAdvice_clean_iff clean]
    constructor
    · rintro ⟨registry, accepted⟩
      by_contra troubled
      rw [if_neg (mt List.isEmpty_iff.mp troubled)] at accepted
      cases accepted
    · exact fun checked => ⟨_, if_pos (List.isEmpty_iff.mpr checked)⟩
  · rw [if_neg (mt List.isEmpty_iff.mp clean)]
    constructor
    · rintro ⟨registry, accepted⟩
      cases accepted
    · exact fun wellFormed => absurd (Resolution.catalog_clean_iff.mpr wellFormed.toResolves) clean

end Weaving
