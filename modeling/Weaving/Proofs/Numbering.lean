import Weaving.Resolution

/-!
Numbers of declarations. In a registry that was accepted every type, member and pointcut is found under the
number that it carries (`Catalog.Numbered`), because each list only grows at its end and nothing of an
accepted program was left out.
-/

namespace Weaving

variable {α β σ : Type}

/-! ## Work that collects problems -/

namespace Checked

@[simp]
theorem value_map (change : α → β) (checked : Checked α) :
    (change <$> checked).value = change checked.value := rfl

@[simp]
theorem problems_map (change : α → β) (checked : Checked α) :
    (change <$> checked).problems = checked.problems := by
  change checked.problems ++ [] = checked.problems
  exact List.append_nil _

@[simp]
theorem value_found (result : Option α) (problem : Problem) : (found result problem).value = result := rfl

@[simp]
theorem value_mapM (check : α → Checked β) (items : List α) :
    (items.mapM check).value = items.map fun item => (check item).value := by
  induction items with
  | nil => rfl
  | cons item items ih => simp [List.mapM_cons, ih]

@[simp]
theorem problems_mapM (check : α → Checked β) (items : List α) :
    (items.mapM check).problems = items.flatMap fun item => (check item).problems := by
  induction items with
  | nil => rfl
  | cons item items ih => simp [List.mapM_cons, ih]

/-- What every step keeps holds of what is left in the end. -/
theorem value_foldlM {keeps : σ → Prop} {step : σ → α → Checked σ}
    (each : ∀ state item, keeps state → keeps (step state item).value) (items : List α) {state : σ}
    (start : keeps state) : keeps (items.foldlM step state).value := by
  induction items generalizing state with
  | nil => exact start
  | cons item items ih => exact ih (each state item start)

/-- Whatever is not there has left a problem behind. -/
def Complete (checked : Checked (Option α)) : Prop :=
  checked.problems = [] → ∃ result, checked.value = some result

theorem complete_found (result : Option α) (problem : Problem) : (found result problem).Complete := by
  intro sound
  cases result with
  | some result => exact ⟨result, rfl⟩
  | none => simp [found] at sound

end Checked

/-! ## Lists of numbered things -/

/-- Each thing carries its position in the list. -/
def Numbered {entity : Entity} (id : α → Id entity) (items : List α) : Prop :=
  ∀ (index : Nat) (item : α), items[index]? = some item → id item = ⟨index⟩

namespace Numbered

variable {entity : Entity} {id : α → Id entity} {items : List α}

theorem nil : Numbered id [] := by
  intro index item found
  simp at found

theorem append {item : α} (numbered : Numbered id items) (last : id item = ⟨items.length⟩) :
    Numbered id (items ++ [item]) := by
  intro index other found
  rcases Nat.lt_or_ge index items.length with inside | outside
  · rw [List.getElem?_append_left inside] at found
    exact numbered index other found
  · rw [List.getElem?_append_right outside] at found
    obtain ⟨atEnd, rfl⟩ := List.getElem?_eq_some_iff.mp found
    simp only [List.length_singleton] at atEnd
    have : index = items.length := by omega
    simpa [this] using last

theorem map {change : β → α} {number : β → Id entity} {others : List β}
    (numbered : Numbered number others) (same : ∀ item ∈ others, id (change item) = number item) :
    Numbered id (others.map change) := by
  intro index item found
  rw [List.getElem?_map, Option.map_eq_some_iff] at found
  obtain ⟨other, found, rfl⟩ := found
  rw [same other (List.mem_of_getElem? found), numbered index other found]

theorem modify {change : α → α} {index : Nat} (numbered : Numbered id items)
    (same : ∀ item, id (change item) = id item) : Numbered id (items.modify index change) := by
  intro place item found
  rw [List.getElem?_modify, Option.map_eq_map, Option.map_eq_some_iff] at found
  obtain ⟨held, found, rfl⟩ := found
  split
  · exact (same held).trans (numbered place held found)
  · exact numbered place held found

/-- Things that are all there are numbered by their places among what they come from. -/
theorem of_filterMap {change : β × Nat → Option α} {others : List β}
    (all : ∀ other ∈ others.zipIdx, ∃ item, change other = some item ∧ id item = ⟨other.2⟩) :
    Numbered id (others.zipIdx.filterMap change) := by
  suffices shifted : ∀ start, (∀ other ∈ others.zipIdx start, ∃ item, change other = some item ∧
      id item = ⟨other.2⟩) → ∀ (index : Nat) (item : α),
      ((others.zipIdx start).filterMap change)[index]? = some item → id item = ⟨start + index⟩ by
    intro index item found
    simpa using shifted 0 all index item found
  clear all
  induction others with
  | nil =>
    intro start _ index item found
    simp at found
  | cons other others ih =>
    intro start all index item found
    obtain ⟨first, there, number⟩ := all (other, start) List.mem_cons_self
    rw [List.zipIdx_cons, List.filterMap_cons_some there] at found
    cases index with
    | zero =>
      obtain rfl : first = item := by simpa using found
      exact number
    | succ index =>
      rw [ih (start + 1) (fun other held => all other (List.mem_cons_of_mem _ held)) index item
        (by simpa using found)]
      congr 1
      omega

/-- A thing is found under its number. -/
theorem getElem?_of_mem (numbered : Numbered id items) {item : α} (held : item ∈ items) :
    items[(id item).index]? = some item := by
  obtain ⟨index, inside, rfl⟩ := List.mem_iff_getElem.mp held
  have found := List.getElem?_eq_getElem inside
  rw [numbered index _ found]
  exact found

theorem index_lt (numbered : Numbered id items) {item : α} (held : item ∈ items) :
    (id item).index < items.length :=
  (List.getElem?_eq_some_iff.mp (numbered.getElem?_of_mem held)).1

/-- The numbers go up. -/
theorem pairwise_lt (numbered : Numbered id items) :
    (items.map id).Pairwise fun first second => first.index < second.index := by
  rw [List.pairwise_iff_getElem]
  intro i j hi hj before
  simp only [List.getElem_map]
  rw [List.length_map] at hi hj
  rw [numbered i _ (List.getElem?_eq_getElem hi), numbered j _ (List.getElem?_eq_getElem hj)]
  exact before

end Numbered

theorem findType?_index_lt {types : List TypeEntry} (numbered : Numbered TypeEntry.id types)
    {name : String} {id : TypeId} (found : findType? types name = some id) : id.index < types.length := by
  unfold findType? at found
  split at found
  · rename_i type qualified
    cases found
    exact numbered.index_lt (List.mem_of_find?_eq_some qualified)
  · split at found
    · rename_i type alone
      cases found
      exact numbered.index_lt (List.mem_filter.mp (alone ▸ List.mem_singleton_self type)).1
    · cases found

/-! ## Accepted registries -/

/-- Types, members and pointcuts are found under their numbers. -/
structure Catalog.Numbered (catalog : Catalog) : Prop where
  types : Weaving.Numbered TypeEntry.id catalog.types
  members : Weaving.Numbered MemberEntry.id catalog.members
  pointcuts : Weaving.Numbered PointcutEntry.id catalog.pointcuts

namespace Resolution

/-- Drafts are numbered by their types, which have neither bases nor members yet. -/
structure Fresh (drafts : List Draft) : Prop where
  numbered : Numbered (fun draft : Draft => draft.1.id) drafts
  base : ∀ draft ∈ drafts, draft.1.base = none
  members : ∀ draft ∈ drafts, draft.1.members = []

theorem Fresh.addType {drafts : List Draft} (fresh : Fresh drafts) (modules : List ModuleEntry)
    (declared : TypeDeclaration) : Fresh (addType modules drafts declared).value := by
  unfold Resolution.addType
  dsimp only
  split
  · exact fresh
  · refine ⟨fresh.numbered.append rfl, ?_, ?_⟩
    · exact List.forall_mem_append.mpr ⟨fresh.base, List.forall_mem_singleton.mpr rfl⟩
    · exact List.forall_mem_append.mpr ⟨fresh.members, List.forall_mem_singleton.mpr rfl⟩

theorem fresh_drafts (modules : List ModuleEntry) (declared : List TypeDeclaration) :
    Fresh (declared.foldlM (addType modules) []).value :=
  Checked.value_foldlM (fun _ type fresh => fresh.addType modules type) declared
    ⟨Numbered.nil, List.forall_mem_nil _, List.forall_mem_nil _⟩

/-- The types that are resolved come from the drafts, each with its base. -/
theorem resolveTypes_value_eq (modules : List ModuleEntry) (declared : List TypeDeclaration) :
    (resolveTypes modules declared).value =
      (declared.foldlM (addType modules) []).value.map fun draft =>
        (resolveBase ((declared.foldlM (addType modules) []).value.map (·.1)) draft).value :=
  Checked.value_mapM _ _

theorem numbered_types (modules : List ModuleEntry) (declared : List TypeDeclaration) :
    Numbered TypeEntry.id (resolveTypes modules declared).value := by
  rw [resolveTypes_value_eq]
  refine (fresh_drafts modules declared).numbered.map fun (entry, base) _ => ?_
  cases base <;> rfl

/-- No type has members before there are any. -/
theorem members_resolveTypes (modules : List ModuleEntry) (declared : List TypeDeclaration) :
    ∀ type ∈ (resolveTypes modules declared).value, type.members = [] := by
  rw [resolveTypes_value_eq]
  refine List.forall_mem_map.mpr fun (entry, base) held => ?_
  have fresh : entry.members = [] := (fresh_drafts modules declared).members _ held
  cases base <;> exact fresh

/-- The types and the members of a roster are found under their numbers. -/
structure Roster.Numbered (roster : Roster) : Prop where
  types : Weaving.Numbered TypeEntry.id roster.types
  members : Weaving.Numbered MemberEntry.id roster.members

theorem Roster.Numbered.add {roster : Roster} (numbered : roster.Numbered) {member : MemberEntry}
    (last : member.id = ⟨roster.members.length⟩) : (roster.add member).Numbered where
  types := numbered.types.modify fun _ => rfl
  members := numbered.members.append last

theorem Roster.Numbered.addMember {roster : Roster} (numbered : roster.Numbered) (bodies : List String)
    (declared : MemberDeclaration) : (addMember bodies roster declared).value.Numbered := by
  unfold Resolution.addMember
  rw [Checked.value_bind]
  cases (resolveType roster.types declared.owner _).value with
  | none => exact numbered
  | some owner =>
    dsimp only
    split
    · exact numbered
    · exact numbered.add rfl

theorem numbered_resolveMembers (bodies : List String) {types : List TypeEntry}
    (numbered : Numbered TypeEntry.id types) (declared : List MemberDeclaration) :
    (resolveMembers bodies types declared).value.Numbered :=
  Checked.value_foldlM (fun _ member numbered => numbered.addMember bodies member) declared
    ⟨numbered, Numbered.nil⟩

theorem complete_pattern (source : String) (read : Except PatternError α) :
    (resolvePattern source read).Complete := by
  intro sound
  cases read with
  | ok result => exact ⟨result, rfl⟩
  | error error => cases sound

theorem complete_owner (types : List TypeEntry) (aspects : List AspectEntry) (pattern : String)
    (owner : OwnerDeclaration) : (resolveOwner types aspects pattern owner).Complete := by
  cases owner with
  | aspect name => exact Checked.complete_found _ _
  | type name =>
    intro sound
    obtain ⟨type, found⟩ := Checked.complete_found (findType? types name) _
      (List.append_eq_nil_iff.mp sound).1
    exact ⟨.type type, congrArg (Option.map AdviceOwner.type) found⟩

/-- A pointcut that is accepted is numbered by its place among the declarations. -/
theorem id_of_resolvePointcut {bodies : List String} {types : List TypeEntry}
    {aspects : List AspectEntry} {declared : PointcutDeclaration} {position : Nat}
    (sound : (resolvePointcut bodies types aspects declared position).problems = []) :
    ∃ entry, (resolvePointcut bodies types aspects declared position).value = some entry ∧
      entry.id = ⟨position⟩ := by
  unfold resolvePointcut at sound ⊢
  simp only [Checked.problems_bind, Checked.problems_pure, List.append_eq_nil_iff, and_true] at sound
  obtain ⟨ownerSound, patternSound, bodySound⟩ := sound
  obtain ⟨owner, ownerFound⟩ := complete_owner _ _ _ _ ownerSound
  obtain ⟨pattern, patternFound⟩ := complete_pattern _ _ patternSound
  obtain ⟨body, bodyFound⟩ : ∃ body, (resolveBody bodies declared.body _).value = some body :=
    Checked.complete_found _ _ bodySound
  simp only [Checked.value_bind, Checked.value_pure, ownerFound, patternFound, bodyFound]
  exact ⟨_, rfl, rfl⟩

theorem numbered_pointcuts (bodies : List String) (types : List TypeEntry) (aspects : List AspectEntry)
    (declared : List PointcutDeclaration)
    (sound : (resolvePointcuts bodies types aspects declared).problems = []) :
    Numbered PointcutEntry.id (resolvePointcuts bodies types aspects declared).value := by
  unfold resolvePointcuts at sound ⊢
  simp only [Checked.problems_bind, Checked.problems_pure, Checked.problems_mapM, List.append_nil,
    List.flatMap_eq_nil_iff] at sound
  simp only [Checked.value_bind, Checked.value_pure, Checked.value_mapM, List.filterMap_map]
  exact Numbered.of_filterMap fun item held => id_of_resolvePointcut (sound item held)

theorem numbered_catalog {declared : Declarations} {bodies : List String}
    (sound : (catalog declared bodies).problems = []) : (catalog declared bodies).value.Numbered := by
  unfold catalog at sound ⊢
  simp only [Checked.problems_bind, Checked.problems_pure, List.append_eq_nil_iff, and_true] at sound
  have roster := numbered_resolveMembers bodies
    (numbered_types (resolveModules declared.modules).value declared.types) declared.members
  exact ⟨roster.types, roster.members, numbered_pointcuts _ _ _ _ sound.2.2.2.2⟩

end Resolution

/-- An accepted registry is a catalog without problems, with its plans. -/
theorem Registry.eq_ofCatalog_of_build {declared : Declarations} {bodies : List String}
    {registry : Registry} (accepted : Registry.build declared bodies = .ok registry) :
    registry = Registry.ofCatalog (Resolution.catalog declared bodies).value ∧
      (Resolution.catalog declared bodies).problems = [] := by
  unfold Registry.build at accepted
  dsimp only at accepted
  split at accepted
  · rename_i sound
    split at accepted
    · cases accepted
      exact ⟨rfl, List.isEmpty_iff.mp sound⟩
    · cases accepted
  · cases accepted

theorem Registry.numbered_of_build {declared : Declarations} {bodies : List String}
    {registry : Registry} (accepted : Registry.build declared bodies = .ok registry) :
    registry.toCatalog.Numbered := by
  obtain ⟨rfl, sound⟩ := eq_ofCatalog_of_build accepted
  exact Resolution.numbered_catalog sound

end Weaving
