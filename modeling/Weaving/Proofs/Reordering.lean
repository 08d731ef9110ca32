import Mathlib.Logic.Equiv.Basic
import Weaving.Proofs.Acceptance
import Weaving.Proofs.Naming
import Weaving.Proofs.Renaming

/-!
The order of type declarations does not show. Bases may be declared after the types that name them, so a
type is known by its names alone, and its number is where it happens to stand. If types are declared in
another order, names refer to the same declarations at their new places (`Reordered.refers_iff`), the types
are resolved without a problem or not as before, and everything that is resolved after them is what it was,
under the new numbers (`Resolution.catalog_reordered`). The registry is accepted as before and answers as
before (`Registry.build_reordered`).
-/

namespace Weaving

/-! ## Places -/

/-- The second list has the items of the first, each at the place of its new identifier. -/
structure Reordered {α : Type} (rename : Equiv.Perm TypeId) (items others : List α) : Prop where
  same : items.Perm others
  moved : ∀ id : TypeId, others[(rename id).index]? = items[id.index]?

namespace Reordered

variable {α : Type} {rename : Equiv.Perm TypeId} {items others : List α}

theorem symm (reordered : Reordered rename items others) : Reordered rename.symm others items where
  same := reordered.same.symm
  moved id := by simpa using (reordered.moved (rename.symm id)).symm

/-- Places that are one further on, with the first place as it is. -/
def shift (places : Equiv.Perm Nat) : Equiv.Perm Nat where
  toFun
    | 0 => 0
    | index + 1 => places index + 1
  invFun
    | 0 => 0
    | index + 1 => places.symm index + 1
  left_inv index := by cases index <;> simp
  right_inv index := by cases index <;> simp

/-- Whatever a list is reordered to, its items have moved to new places. -/
theorem exists_places (same : items.Perm others) :
    ∃ places : Equiv.Perm Nat, ∀ index, others[places index]? = items[index]? := by
  induction same with
  | nil => exact ⟨.refl Nat, fun _ => rfl⟩
  | cons item _ ih =>
    obtain ⟨places, moved⟩ := ih
    refine ⟨shift places, fun index => ?_⟩
    cases index with
    | zero => rfl
    | succ index => exact moved index
  | swap first second rest =>
    refine ⟨Equiv.swap 0 1, fun index => ?_⟩
    match index with
    | 0 => simp
    | 1 => simp
    | index + 2 => simp [Equiv.swap_apply_of_ne_of_ne]
  | trans _ _ first second =>
    obtain ⟨early, moved⟩ := first
    obtain ⟨late, movedOn⟩ := second
    exact ⟨early.trans late, fun index => (movedOn (early index)).trans (moved index)⟩

theorem of_perm (same : items.Perm others) : ∃ rename, Reordered rename items others := by
  obtain ⟨places, moved⟩ := exists_places same
  let rename : Equiv.Perm TypeId :=
    ⟨fun id => ⟨places id.index⟩, fun id => ⟨places.symm id.index⟩, fun id => by simp, fun id => by simp⟩
  exact ⟨rename, same, fun id => moved id.index⟩

end Reordered

/-! ## Names and bases -/

section Types

open Resolution

variable {rename : Equiv.Perm TypeId} {declared reordered : Declarations}
  (places : Reordered rename declared.types reordered.types)

include places

theorem Reordered.refers {name : String} (id : TypeId) (refers : declared.Refers name id.index) :
    reordered.Refers name (rename id).index := by
  unfold Declarations.Refers at refers ⊢
  rw [places.moved]
  refine refers.imp_right fun ⟨unqualified, there, only⟩ =>
    ⟨fun type held => unqualified type (places.same.mem_iff.mpr held), there, fun position type found named => ?_⟩
  have back : declared.types[(rename.symm ⟨position⟩).index]? = some type :=
    (places.symm.moved ⟨position⟩).trans found
  have home : rename.symm ⟨position⟩ = id := congrArg Id.mk (only _ type back named)
  rw [← home, Equiv.apply_symm_apply]

/-- A name refers to the same declaration, at its new place. -/
theorem Reordered.refers_iff {name : String} {id : TypeId} :
    reordered.Refers name (rename id).index ↔ declared.Refers name id.index :=
  ⟨fun refers => by simpa using places.symm.refers _ refers, places.refers id⟩

theorem Reordered.bases (sub super : TypeId) (holds : declared.Extends sub.index super.index) :
    reordered.Extends (rename sub).index (rename super).index := by
  obtain ⟨type, base, there, named, refers⟩ := holds
  exact ⟨type, base, (places.moved sub).trans there, named, places.refers super refers⟩

/-- Bases that do not loop do not loop in another order. -/
theorem Reordered.loops (straight : ∀ position, ¬ Relation.TransGen declared.Extends position position)
    (position : Nat) : ¬ Relation.TransGen reordered.Extends position position := fun loop =>
  straight _ (loop.lift (fun place => (rename.symm ⟨place⟩).index) fun sub super holds =>
    places.symm.bases ⟨sub⟩ ⟨super⟩ holds)

theorem Reordered.findType? {types others : List TypeEntry} (found : declared.Found types)
    (foundToo : reordered.Found others) (name : String) :
    Weaving.findType? others name = (Weaving.findType? types name).map rename := by
  refine Option.ext fun id => ?_
  have back : id = rename (rename.symm id) := (rename.apply_symm_apply id).symm
  rw [foundToo, back, places.refers_iff, ← found, ← back, Option.map_eq_some_iff]
  constructor
  · exact fun finds => ⟨_, finds, rename.apply_symm_apply id⟩
  · rintro ⟨other, finds, rfl⟩
    rwa [Equiv.symm_apply_apply]

end Types

/-! ## Steps that do alike -/

namespace Checked

variable {α σ τ : Type} {change : σ → τ}

/-- Steps that do the same up to some change collect the same up to that change. -/
theorem foldlM_map {step : σ → α → Checked σ} {other : τ → α → Checked τ}
    (alike : ∀ held item, other (change held) item = change <$> step held item) (items : List α) (held : σ) :
    items.foldlM other (change held) = change <$> items.foldlM step held := by
  induction items generalizing held with
  | nil => simp
  | cons item items ih =>
    rw [List.foldlM_cons, List.foldlM_cons, alike, bind_map_left, map_bind]
    exact congrArg (step held item >>= ·) (funext ih)

theorem mapM_map {check : α → Checked σ} {other : α → Checked τ}
    (alike : ∀ item, other item = change <$> check item) (items : List α) :
    items.mapM other = List.map change <$> items.mapM check := by
  induction items with
  | nil => simp
  | cons item items ih => simp [List.mapM_cons, alike, ih]

/-- What is found and then changed is found as before. -/
theorem found_map (change : σ → τ) (result : Option σ) (problem : Problem) :
    found (result.map change) problem = Option.map change <$> found result problem := by
  cases result <;> rfl

end Checked

namespace Resolution

open Checked (report require found found_map)

/-! ## Types -/

section Types

variable {rename : Equiv.Perm TypeId} {declared reordered : Declarations} {modules : List ModuleEntry}
  (places : Reordered rename declared.types reordered.types)

include places in
/-- Types are resolved without a problem in any order. -/
theorem resolveTypes_clean (clean : (resolveTypes modules declared.types).problems = []) :
    (resolveTypes modules reordered.types).problems = [] := by
  obtain ⟨known, distinct, bases, straight⟩ := resolveTypes_clean_iff.mp clean
  refine resolveTypes_clean_iff.mpr ⟨fun type held => known type (places.same.mem_iff.mpr held),
    (places.same.map _).nodup_iff.mp distinct, fun type held base named => ?_, places.loops straight⟩
  obtain ⟨position, refers⟩ := bases type (places.same.mem_iff.mpr held) base named
  exact ⟨_, places.refers ⟨position⟩ refers⟩

/-- The types of declarations without a problem, each with its base looked up. -/
theorem resolveTypes_value {declared : List TypeDeclaration}
    (clean : (resolveTypes modules declared).problems = []) :
    (resolveTypes modules declared).value = declared.zipIdx.map fun type =>
      (resolveBase (draftEntries modules declared) (draft modules type)).value := by
  unfold resolveTypes at clean
  simp only [Checked.problems_bind, List.append_eq_nil_iff] at clean
  rw [resolveTypes_value_eq, (adds_type modules).value_eq clean.1]
  exact List.map_map

/-- A base is looked up under its new number. -/
theorem resolveBase_renamed {types others : List TypeEntry}
    (named : ∀ name, findType? others name = (findType? types name).map rename) (type : TypeDeclaration)
    (id : TypeId) :
    (resolveBase others (draft modules (type, (rename id).index))).value =
      (resolveBase types (draft modules (type, id.index))).value.renamed rename := by
  unfold draft
  cases base : type.base with
  | none => simp [resolveBase, TypeEntry.renamed]
  | some base => simp [resolveBase, resolveType, named, TypeEntry.renamed]

include places in
theorem resolveTypes_renamed (clean : (resolveTypes modules declared.types).problems = []) :
    RenamedTypes rename (resolveTypes modules declared.types).value (resolveTypes modules reordered.types).value := by
  have cleanToo := resolveTypes_clean places clean
  obtain ⟨based, drafts, found⟩ := resolveTypes_found clean
  obtain ⟨basedToo, draftsToo, foundToo⟩ := resolveTypes_found cleanToo
  constructor
  case named => exact places.findType? found foundToo
  case moved =>
    intro id
    rw [resolveTypes_value clean, resolveTypes_value cleanToo]
    simp only [List.getElem?_map, List.getElem?_zipIdx, places.moved, Option.map_map, Nat.zero_add]
    exact congrArg (Option.map · _) (funext fun type =>
      resolveBase_renamed (places.findType? drafts draftsToo) type id)
  case count =>
    rw [resolveTypes_value clean, resolveTypes_value cleanToo]
    simp [places.same.length_eq]

end Types

/-! ## Members -/

section Members

variable {rename : Equiv.Perm TypeId} {types others : List TypeEntry} (renamed : RenamedTypes rename types others)

include renamed in
theorem resolveType_renamed (name user : String) :
    resolveType others name user = Option.map rename <$> resolveType types name user := by
  rw [resolveType, renamed.named, found_map]
  rfl

include renamed in
theorem draftPath_renamed (owner : TypeId) (declared : MemberDeclaration) :
    draftPath others (rename owner) declared = draftPath types owner declared := by
  unfold draftPath
  rw [renamed.moved, Option.map_map]
  rfl

theorem isDeclared_renamed (rename : Equiv.Perm TypeId) (members : List MemberEntry) (owner : TypeId)
    (declared : MemberDeclaration) :
    isDeclared (members.map (·.renamed rename)) (rename owner) declared = isDeclared members owner declared := by
  unfold isDeclared
  rw [List.any_map]
  simp only [Function.comp_def, MemberEntry.renamed, EmbeddingLike.apply_eq_iff_eq]
  rfl

/-- The owner of a member is all that its entry has to do with types. -/
theorem resolveMember_renamed (rename : Equiv.Perm TypeId) (bodies : List String) (path : String) (id : MemberId)
    (owner : TypeId) (declared : MemberDeclaration) :
    resolveMember bodies path id (rename owner) declared =
      (·.renamed rename) <$> resolveMember bodies path id owner declared := by
  unfold resolveMember
  simp only [map_bind, map_pure]
  rfl

include renamed in
theorem collectMember_renamed (bodies : List String) (members : List MemberEntry) (declared : MemberDeclaration) :
    collectMember bodies others (members.map (·.renamed rename)) declared =
      List.map (·.renamed rename) <$> collectMember bodies types members declared := by
  unfold collectMember
  rw [resolveType_renamed renamed, bind_map_left, map_bind]
  refine congrArg (resolveType types declared.owner _ >>= ·) (funext fun owner => ?_)
  cases owner with
  | none => rfl
  | some owner =>
    simp only [Option.map_some, draftPath_renamed renamed, isDeclared_renamed, resolveMember_renamed]
    split
    · rfl
    · simp only [map_bind, map_pure, bind_map_left, List.map_append, List.map_cons, List.map_nil, List.length_map]

include renamed in
theorem collectMembers_renamed (bodies : List String) (declared : List MemberDeclaration) :
    collectMembers bodies others declared =
      List.map (·.renamed rename) <$> collectMembers bodies types declared :=
  Checked.foldlM_map (collectMember_renamed renamed bodies) declared []

/-- Owners have the same members under their new numbers. -/
theorem ownedBy_renamed (rename : Equiv.Perm TypeId) (members : List MemberEntry) (owner : TypeId) :
    ownedBy (members.map (·.renamed rename)) (rename owner) = ownedBy members owner := by
  simp [ownedBy, MemberEntry.renamed, List.filter_map, Function.comp_def]

include renamed in
theorem assignMembers_renamed (members : List MemberEntry) :
    RenamedTypes rename (assignMembers types members) (assignMembers others (members.map (·.renamed rename))) where
  count := by simp [assignMembers, renamed.count]
  named name := by rw [findType?_assignMembers, findType?_assignMembers, renamed.named]
  moved id := by
    unfold assignMembers
    rw [List.getElem?_map, renamed.moved, List.getElem?_map, Option.map_map, Option.map_map]
    refine congrArg (Option.map · types[id.index]?) (funext fun type => ?_)
    simp only [Function.comp_apply, TypeEntry.renamed, ownedBy_renamed]

end Members

/-! ## Pointcuts -/

section Pointcuts

variable {rename : Equiv.Perm TypeId} {types others : List TypeEntry} (renamed : RenamedTypes rename types others)

include renamed in
theorem resolveOwner_renamed (aspects : List AspectEntry) (pattern : String) (owner : OwnerDeclaration) :
    resolveOwner others aspects pattern owner =
      Option.map (·.renamed rename) <$> resolveOwner types aspects pattern owner := by
  cases owner with
  | aspect name =>
    simp only [resolveOwner]
    rw [← found_map, Option.map_map]
    rfl
  | type name =>
    simp only [resolveOwner]
    rw [resolveType_renamed renamed, bind_map_left, map_bind]
    simp only [map_pure, Option.map_map]
    rfl

include renamed in
theorem resolvePointcut_renamed (bodies : List String) (aspects : List AspectEntry) (declared : PointcutDeclaration)
    (position : Nat) :
    resolvePointcut bodies others aspects declared position =
      Option.map (·.renamed rename) <$> resolvePointcut bodies types aspects declared position := by
  unfold resolvePointcut
  rw [resolveOwner_renamed renamed, bind_map_left, map_bind]
  refine congrArg (resolveOwner types aspects _ _ >>= ·) (funext fun owner => ?_)
  simp only [map_bind, map_pure]
  refine congrArg _ (funext fun pattern => congrArg _ (funext fun body => ?_))
  cases pattern <;> cases body <;> cases owner <;> rfl

include renamed in
theorem resolvePointcuts_renamed (bodies : List String) (aspects : List AspectEntry)
    (declared : List PointcutDeclaration) :
    resolvePointcuts bodies others aspects declared =
      List.map (·.renamed rename) <$> resolvePointcuts bodies types aspects declared := by
  have each := Checked.mapM_map (fun pointcut : PointcutDeclaration × Nat =>
    resolvePointcut_renamed renamed bodies aspects pointcut.1 pointcut.2) declared.zipIdx
  unfold resolvePointcuts
  refine (congrArg (· >>= fun pointcuts => pure (pointcuts.filterMap id)) each).trans ?_
  simp only [bind_map_left, map_bind, map_pure, List.filterMap_map, List.map_filterMap]
  rfl

end Pointcuts

/-! ## Catalogs -/

variable {rename : Equiv.Perm TypeId} {declared : Declarations} {types : List TypeDeclaration}

/-- If the types resolve, then the rest of the program is resolved with the same problems, and to the same
entries under the new numbers. -/
theorem catalog_reordered (bodies : List String) (places : Reordered rename declared.types types)
    (clean : (resolveTypes (resolveModules declared.modules).value declared.types).problems = []) :
    (catalog { declared with types } bodies).problems = (catalog declared bodies).problems ∧
      Catalog.Renamed rename (catalog declared bodies).value (catalog { declared with types } bodies).value := by
  let reordered : Declarations := { declared with types }
  have placesToo : Reordered rename declared.types reordered.types := places
  have cleanToo := resolveTypes_clean placesToo clean
  have renamed := resolveTypes_renamed placesToo clean
  change (resolveTypes _ types).problems = [] at cleanToo
  change RenamedTypes rename _ (resolveTypes _ types).value at renamed
  rw [catalog_eq, catalog_eq]
  simp only [Checked.problems_bind, Checked.value_bind, Checked.problems_pure, Checked.value_pure, clean, cleanToo,
    collectMembers_renamed renamed, resolvePointcuts_renamed renamed, Checked.value_map, Checked.problems_map]
  exact ⟨trivial, rfl, assignMembers_renamed renamed _, rfl, rfl, rfl, rfl⟩

section Checks

variable {catalog other : Catalog} (renamed : Catalog.Renamed rename catalog other)

include renamed

theorem plan_renamed (site : Site) :
    (Registry.ofCatalog other).plan site = (Registry.ofCatalog catalog).plan site := by
  rw [Registry.plan, Registry.ofCatalog, renamed.plans]
  rfl

theorem checkReturn_renamed (member : MemberEntry) (id : PointcutId) :
    checkReturn (.ofCatalog other) (member.renamed rename) id = checkReturn (.ofCatalog catalog) member id := by
  have pointcut : (Registry.ofCatalog other).pointcut? id = (catalog.pointcut? id).map (·.renamed rename) :=
    renamed.pointcut? id
  have path : (Registry.ofCatalog other).memberPath member.id = (Registry.ofCatalog catalog).memberPath member.id :=
    renamed.memberPath member.id
  have assignable (given expected : String) : (Registry.ofCatalog other).isAssignable given expected =
      (Registry.ofCatalog catalog).isAssignable given expected := renamed.isAssignable given expected
  have before : (Registry.ofCatalog catalog).pointcut? id = catalog.pointcut? id := rfl
  unfold checkReturn
  rw [pointcut, before]
  cases catalog.pointcut? id with
  | none => rfl
  | some pointcut =>
    simp only [Option.map_some, PointcutEntry.renamed, MemberEntry.renamed, assignable, path]

/-- Planned advice meets the same problems. -/
theorem checkAdvice_renamed :
    (checkAdvice (.ofCatalog other)).problems = (checkAdvice (.ofCatalog catalog)).problems := by
  have members : (Registry.ofCatalog other).members = catalog.members.map (·.renamed rename) := renamed.members
  have pointcuts : (Registry.ofCatalog other).pointcuts = catalog.pointcuts.map (·.renamed rename) :=
    renamed.pointcuts
  have reached (id : PointcutId) : isReached (.ofCatalog other) id = isReached (.ofCatalog catalog) id := by
    unfold isReached
    simp only [members, plan_renamed renamed, List.any_map]
    rfl
  unfold checkAdvice checkReturns checkReached
  simp only [Checked.problems_bind, List.forM_eq_forM, Checked.problems_forM, members, pointcuts, reached,
    plan_renamed renamed, checkReturn_renamed renamed, List.flatMap_map]
  rfl

end Checks

end Resolution

/-! ## Registries -/

namespace Registry

/-- One registry is the other with its types under other numbers: it has the same entries and the same plans,
and it gives the same answers. -/
structure Alike (rename : Equiv.Perm TypeId) (registry other : Registry) : Prop
    extends Catalog.Renamed rename registry.toCatalog other.toCatalog where
  plan : ∀ site, other.plan site = registry.plan site
  findType : ∀ name, other.findType? name = (registry.findType? name).map rename
  baseChain : ∀ type, other.baseChain (rename type) = (registry.baseChain type).map rename
  isSubtype : ∀ sub super, other.isSubtype (rename sub) (rename super) = registry.isSubtype sub super
  hasCapability : ∀ type capability,
    other.hasCapability (rename type) capability = registry.hasCapability type capability
  isAssignable : ∀ given expected, other.isAssignable given expected = registry.isAssignable given expected
  dispatch : ∀ type name, other.dispatch? (rename type) name = registry.dispatch? type name
  classify : ∀ caller receiver target,
    other.classify (caller.renamed rename) (receiver.map (·.renamed rename)) (target.renamed rename) =
      registry.classify caller receiver target

variable {rename : Equiv.Perm TypeId} {declared : Declarations} {types : List TypeDeclaration} {bodies : List String}

/-- What is accepted is accepted with its types in another order. -/
theorem accepted_reordered (places : Reordered rename declared.types types) {registry : Registry}
    (accepted : build declared bodies = .ok registry) :
    ∃ other, build { declared with types } bodies = .ok other ∧ Alike rename registry other := by
  have checked := checked_of_build accepted
  obtain ⟨rfl, clean⟩ := eq_ofCatalog_of_build accepted
  have typesClean : (Resolution.resolveTypes (Resolution.resolveModules declared.modules).value
      declared.types).problems = [] := by
    unfold Resolution.catalog at clean
    simp only [Checked.problems_bind, List.append_eq_nil_iff] at clean
    exact clean.2.1
  obtain ⟨problems, renamed⟩ := Resolution.catalog_reordered bodies places typesClean
  refine ⟨.ofCatalog (Resolution.catalog { declared with types } bodies).value, ?_, renamed,
    Resolution.plan_renamed renamed, renamed.findType?, renamed.baseChain, renamed.isSubtype, renamed.hasCapability,
    renamed.isAssignable, renamed.dispatch?, renamed.classify⟩
  unfold build
  simp only [problems, clean, Resolution.checkAdvice_renamed renamed, checked]
  rfl

/-- **The order of type declarations does not show.** With the types in any other order a program is accepted or
rejected as before; if it is accepted, then its registry has the same entries, plans and answers, up to the
numbers of the types. -/
theorem build_reordered (same : declared.types.Perm types) :
    ∃ rename : Equiv.Perm TypeId, (∀ id, types[(rename id).index]? = declared.types[id.index]?) ∧
      ((∃ registry, build declared bodies = .ok registry) ↔
        ∃ other, build { declared with types } bodies = .ok other) ∧
      ∀ registry other, build declared bodies = .ok registry → build { declared with types } bodies = .ok other →
        Alike rename registry other := by
  obtain ⟨rename, places⟩ := Reordered.of_perm same
  refine ⟨rename, places.moved, ⟨fun ⟨registry, accepted⟩ => ?_, fun ⟨other, accepted⟩ => ?_⟩,
    fun registry other accepted acceptedToo => ?_⟩
  · obtain ⟨other, acceptedToo, -⟩ := accepted_reordered places accepted
    exact ⟨other, acceptedToo⟩
  · obtain ⟨registry, acceptedToo, -⟩ := accepted_reordered places.symm accepted
    exact ⟨registry, acceptedToo⟩
  · obtain ⟨found, isFound, alike⟩ := accepted_reordered places accepted
    obtain rfl := Except.ok.inj (isFound.symm.trans acceptedToo)
    exact alike

/-- A dog that may bark, declared before what it derives from. -/
def kennel : Declarations where
  modules := [⟨"yard"⟩]
  types :=
    [{ name := "Dog", module := "yard", base := some "Animal" },
      { name := "Animal", module := "yard", capabilities := ["IFed"] }]
  members := [{ owner := "Dog", name := "Bark", body := some "bark" }]
  aspects := [{ name := "Watch", module := "yard" }]
  pointcuts := [{ advice := .before, pattern := "Bark implements IFed", body := "look", owner := .aspect "Watch" }]

theorem build_reordered_kennel :
    ∃ rename registry other, build kennel ["bark", "look"] = .ok registry ∧
      build { kennel with types := kennel.types.reverse } ["bark", "look"] = .ok other ∧
      rename ⟨0⟩ = ⟨1⟩ ∧ registry.baseChain ⟨0⟩ = [⟨0⟩, ⟨1⟩] ∧ registry.plan (.entry ⟨0⟩) = ⟨[⟨0⟩], []⟩ ∧
      Alike rename registry other := by
  have runs : (build kennel ["bark", "look"]).toOption.map (fun registry =>
      (registry.baseChain ⟨0⟩, registry.plan (.entry ⟨0⟩))) = some ([⟨0⟩, ⟨1⟩], ⟨[⟨0⟩], []⟩) := by
    decide +kernel
  obtain ⟨registry, accepted, answers⟩ := exists_of_run runs
  obtain ⟨chain, plan⟩ := Prod.mk.inj answers
  obtain ⟨rename, moved, both, alike⟩ := build_reordered (List.reverse_perm kennel.types).symm
  obtain ⟨other, acceptedToo⟩ := both.mp ⟨registry, accepted⟩
  have dog : kennel.types.reverse[(rename ⟨0⟩).index]? = kennel.types[0]? := moved ⟨0⟩
  have turned : (rename ⟨0⟩).index = 1 := by
    match (rename ⟨0⟩).index, dog with
    | 0, dog => exact absurd dog (by decide)
    | 1, _ => rfl
  exact ⟨rename, registry, other, accepted, acceptedToo, congrArg Id.mk turned, chain, plan,
    alike registry other accepted acceptedToo⟩

end Registry

end Weaving
