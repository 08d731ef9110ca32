import Mathlib.Data.List.Sort
import Weaving.Proofs.Matching
import Weaving.Proofs.Numbering

/-!
Plans. The plan of a site is found by candidates of types, by filters of members and by a table that has no
row for sites without advice. In an accepted registry the numbers of declarations make all of that come to
what a scan of the pointcuts for the site would give (`Registry.scanned_of_build`).
-/

namespace Weaving

/-- Where advice of a kind runs: before a member at its entry, after it at its exit, and on both sides of
an explicit join point. -/
def Site.Admits : AdviceKind → Site → Prop
  | .before, .exit _ => False
  | .after, .entry _ => False
  | _, _ => True

/-- A plan without advice is the empty one. -/
theorem Plan.eq_empty_of_isEmpty {plan : Plan} (none : plan.isEmpty = true) : plan = .empty := by
  obtain ⟨before, after⟩ := plan
  simp only [isEmpty, Bool.and_eq_true, List.isEmpty_iff] at none
  obtain ⟨rfl, rfl⟩ := none
  rfl

namespace Catalog

variable (catalog : Catalog)

/-- A pointcut has advice of a kind for a site. -/
def Advises (kind : AdviceKind) (site : Site) (id : PointcutId) : Prop :=
  site.Admits kind ∧ ∃ pointcut, catalog.pointcut? id = some pointcut ∧ pointcut.advice = kind ∧
    catalog.Matches pointcut site

variable {catalog} in
theorem Matches.member_known {pointcut : PointcutEntry} {site : Site}
    (applies : catalog.Matches pointcut site) : ∃ member, catalog.member? site.member = some member := by
  cases site with
  | entry target =>
    obtain ⟨_, member, known, _⟩ := applies
    exact ⟨member, known⟩
  | exit target =>
    obtain ⟨_, member, known, _⟩ := applies
    exact ⟨member, known⟩
  | point target index =>
    obtain ⟨_, member, _, known, _⟩ := applies
    exact ⟨member, known⟩

/-- A plan is what a scan of all pointcuts for a site gives. The order leaves no room for repeats, so that
there is only one such plan. -/
structure Scanned (site : Site) (plan : Plan) : Prop where
  before : ∀ id, id ∈ plan.before ↔ catalog.Advises .before site id
  after : ∀ id, id ∈ plan.after ↔ catalog.Advises .after site id
  newestFirst : plan.before.Pairwise fun first second => second.index < first.index
  oldestFirst : plan.after.Pairwise fun first second => first.index < second.index

end Catalog

/-- There is one plan that a scan gives. -/
theorem Catalog.Scanned.unique {catalog : Catalog} {site : Site} {plan other : Plan}
    (scanned : catalog.Scanned site plan) (again : catalog.Scanned site other) : plan = other := by
  have : Std.Irrefl fun first second : PointcutId => first.index < second.index :=
    ⟨fun _ => Nat.lt_irrefl _⟩
  have : Std.Irrefl fun first second : PointcutId => second.index < first.index :=
    ⟨fun _ => Nat.lt_irrefl _⟩
  obtain ⟨before, after⟩ := plan
  obtain ⟨otherBefore, otherAfter⟩ := other
  congr 1
  · exact scanned.newestFirst.eq_of_mem_iff again.newestFirst fun id =>
      (scanned.before id).trans (again.before id).symm
  · exact scanned.oldestFirst.eq_of_mem_iff again.oldestFirst fun id =>
      (scanned.after id).trans (again.after id).symm

/-! ## Candidates -/

namespace Matcher

variable {catalog : Catalog} (numbered : catalog.Numbered)

/-- Pointcuts in declaration order. -/
abbrev Ascending (ids : List PointcutId) : Prop :=
  ids.Pairwise fun first second => first.index < second.index

theorem candidates_eq (type : TypeId) :
    (ofCatalog catalog).candidates type =
      ((catalog.type? type).map fun entry =>
        (catalog.pointcuts.filter fun pointcut => catalog.typeAccepts pointcut entry).map (·.id)).getD [] := by
  rw [candidates, ofCatalog, List.getElem?_map]
  rfl

include numbered

theorem mem_candidates_iff {type : TypeId} {id : PointcutId} :
    id ∈ (ofCatalog catalog).candidates type ↔
      ∃ pointcut entry, catalog.pointcut? id = some pointcut ∧ catalog.type? type = some entry ∧
        catalog.AppliesTo pointcut entry := by
  rw [candidates_eq]
  cases catalog.type? type with
  | none => simp
  | some entry =>
    simp only [Option.map_some, Option.getD_some, List.mem_map, List.mem_filter,
      catalog.typeAccepts_iff]
    constructor
    · rintro ⟨pointcut, ⟨held, applies⟩, rfl⟩
      exact ⟨pointcut, entry, numbered.pointcuts.getElem?_of_mem held, rfl, applies⟩
    · rintro ⟨pointcut, other, found, same, applies⟩
      cases same
      refine ⟨pointcut, ⟨List.mem_of_getElem? found, applies⟩, ?_⟩
      exact numbered.pointcuts id.index pointcut found

theorem candidates_ascending (type : TypeId) : Ascending ((ofCatalog catalog).candidates type) := by
  rw [candidates_eq]
  cases catalog.type? type with
  | none => exact List.Pairwise.nil
  | some entry => exact numbered.pointcuts.pairwise_lt.sublist (List.filter_sublist.map _)

theorem mem_select_iff {type : TypeId} {test : Pattern → Bool} {id : PointcutId} :
    id ∈ (ofCatalog catalog).select type test ↔
      ∃ pointcut entry, catalog.pointcut? id = some pointcut ∧ catalog.type? type = some entry ∧
        catalog.AppliesTo pointcut entry ∧ test pointcut.pattern = true := by
  rw [select, List.mem_filter, mem_candidates_iff numbered]
  constructor
  · rintro ⟨⟨pointcut, entry, found, held, applies⟩, passes⟩
    refine ⟨pointcut, entry, found, held, applies, ?_⟩
    simpa [ofCatalog, found] using passes
  · rintro ⟨pointcut, entry, found, held, applies, passes⟩
    exact ⟨⟨pointcut, entry, found, held, applies⟩, by simpa [ofCatalog, found] using passes⟩

omit numbered

theorem mem_ofKind_iff {kind : AdviceKind} {ids : List PointcutId} {id : PointcutId} :
    id ∈ (ofCatalog catalog).ofKind kind ids ↔
      id ∈ ids ∧ ∃ pointcut, catalog.pointcut? id = some pointcut ∧ pointcut.advice = kind := by
  simp [ofKind, ofCatalog, Option.any_eq_true]

/-! ## The sites of a member -/

/-- The pointcuts that are found for a site of a member. -/
def matched (matcher : Matcher) (member : MemberEntry) : Site → List PointcutId
  | .entry _ | .exit _ => matcher.matchMember member
  | .point _ index => matcher.matchPoint member index

/-- The plan that is found for a site of a member. -/
def planAt (matcher : Matcher) (member : MemberEntry) (site : Site) : Plan :=
  let plan := matcher.order (matcher.matched member site)
  match site with
  | .entry _ => ⟨plan.before, []⟩
  | .exit _ => ⟨[], plan.after⟩
  | .point _ _ => plan

theorem plansOf_eq (matcher : Matcher) (member : MemberEntry) :
    matcher.plansOf member =
      (Site.ofMember member).map fun site => (site, matcher.planAt member site) := by
  simp [plansOf, Site.ofMember, planAt, matched, Function.comp_def]

include numbered

theorem mem_matchMember_iff {member : MemberEntry} {id : PointcutId} :
    id ∈ (ofCatalog catalog).matchMember member ↔
      ∃ pointcut, catalog.pointcut? id = some pointcut ∧ pointcut.pattern.explicit = false ∧
        catalog.Selects pointcut member (member.params.map (·.type)) := by
  simp only [matchMember, mem_select_iff numbered, Bool.and_assoc, Bool.and_eq_true (!_),
    Pattern.acceptsMember_iff, Bool.not_eq_true']
  constructor
  · rintro ⟨pointcut, type, known, held, applies, implicit, suits⟩
    exact ⟨pointcut, known, implicit, ⟨type, held, applies⟩, suits⟩
  · rintro ⟨pointcut, known, implicit, ⟨type, held, applies⟩, suits⟩
    exact ⟨pointcut, type, known, held, applies, implicit, suits⟩

theorem mem_matchPoint_iff {member : MemberEntry} {index : Nat} {id : PointcutId} :
    id ∈ (ofCatalog catalog).matchPoint member index ↔
      ∃ pointcut point, catalog.pointcut? id = some pointcut ∧ pointcut.pattern.explicit = true ∧
        member.points[index]? = some point ∧ pointcut.pattern.point = some point.name ∧
        catalog.Selects pointcut member point.params := by
  rw [matchPoint]
  cases member.points[index]? with
  | none => simp
  | some point =>
    simp only [mem_select_iff numbered, Bool.and_assoc, Bool.and_eq_true (decide _),
      Bool.and_eq_true (Pattern.explicit _), Pattern.acceptsMember_iff, decide_eq_true_eq]
    constructor
    · rintro ⟨pointcut, type, known, held, applies, explicit, named, suits⟩
      exact ⟨pointcut, point, known, explicit, rfl, named, ⟨type, held, applies⟩, suits⟩
    · rintro ⟨pointcut, other, known, explicit, same, named, ⟨type, held, applies⟩, suits⟩
      cases same
      exact ⟨pointcut, type, known, held, applies, explicit, named, suits⟩

theorem mem_matched_iff {member : MemberEntry} {site : Site}
    (found : catalog.member? site.member = some member) {id : PointcutId} :
    id ∈ (ofCatalog catalog).matched member site ↔
      ∃ pointcut, catalog.pointcut? id = some pointcut ∧ catalog.Matches pointcut site := by
  have matchesMember {target : MemberId} (found : catalog.member? target = some member) :
      id ∈ (ofCatalog catalog).matchMember member ↔
        ∃ pointcut, catalog.pointcut? id = some pointcut ∧ catalog.Matches pointcut (.entry target) := by
    simp only [mem_matchMember_iff numbered, Catalog.Matches, found, Option.some.injEq,
      exists_eq_left']
  cases site with
  | entry target => exact matchesMember found
  | exit target => exact matchesMember found
  | point target index =>
    have found : catalog.member? target = some member := found
    simp only [matched, mem_matchPoint_iff numbered, Catalog.Matches, found, Option.some.injEq,
      exists_and_left, exists_eq_left']

theorem matched_ascending (member : MemberEntry) (site : Site) :
    Ascending ((ofCatalog catalog).matched member site) := by
  cases site with
  | entry target => exact (candidates_ascending numbered member.owner).filter _
  | exit target => exact (candidates_ascending numbered member.owner).filter _
  | point target index =>
    rw [matched, matchPoint]
    cases member.points[index]? with
    | none => exact List.Pairwise.nil
    | some point => exact (candidates_ascending numbered member.owner).filter _

theorem mem_ofKind_matched_iff {kind : AdviceKind} {member : MemberEntry} {site : Site}
    (found : catalog.member? site.member = some member) (admits : site.Admits kind) {id : PointcutId} :
    id ∈ (ofCatalog catalog).ofKind kind ((ofCatalog catalog).matched member site) ↔
      catalog.Advises kind site id := by
  rw [mem_ofKind_iff, mem_matched_iff numbered found]
  constructor
  · rintro ⟨⟨pointcut, known, applies⟩, other, again, ofKind⟩
    rw [known] at again
    cases again
    exact ⟨admits, pointcut, known, ofKind, applies⟩
  · rintro ⟨-, pointcut, known, ofKind, applies⟩
    exact ⟨⟨pointcut, known, applies⟩, pointcut, known, ofKind⟩

/-- The plan that is found for a site is the one that a scan gives. -/
theorem scanned_planAt {member : MemberEntry} {site : Site}
    (found : catalog.member? site.member = some member) :
    catalog.Scanned site ((ofCatalog catalog).planAt member site) := by
  have ascending := matched_ascending numbered member site
  have before (admits : site.Admits .before) (id : PointcutId) :
      id ∈ ((ofCatalog catalog).order ((ofCatalog catalog).matched member site)).before ↔
        catalog.Advises .before site id := by
    rw [order, List.mem_reverse, mem_ofKind_matched_iff numbered found admits]
  have after (admits : site.Admits .after) (id : PointcutId) :
      id ∈ ((ofCatalog catalog).order ((ofCatalog catalog).matched member site)).after ↔
        catalog.Advises .after site id :=
    mem_ofKind_matched_iff numbered found admits
  have newestFirst := List.pairwise_reverse.mpr (ascending.filter fun id =>
    (catalog.pointcut? id).any (·.advice = .before))
  have oldestFirst := ascending.filter fun id => (catalog.pointcut? id).any (·.advice = .after)
  have nothing (kind : AdviceKind) (bars : ¬ site.Admits kind) (id : PointcutId) :
      id ∈ [] ↔ catalog.Advises kind site id :=
    ⟨fun held => absurd held List.not_mem_nil, fun advises => absurd advises.1 bars⟩
  cases site with
  | entry target => exact ⟨before trivial, nothing .after id, newestFirst, List.Pairwise.nil⟩
  | exit target => exact ⟨nothing .before id, after trivial, List.Pairwise.nil, oldestFirst⟩
  | point target index => exact ⟨before trivial, after trivial, newestFirst, oldestFirst⟩

end Matcher

/-! ## The table of plans -/

/-- A table finds a value under a key if it has no other row for the key, and leaves out only the value that
is taken for what is not there. -/
theorem lookup_getD_eq {κ ν : Type} [BEq κ] [LawfulBEq κ] {rows : List (κ × ν)} {key : κ}
    {value missing : ν} (only : ∀ other, (key, other) ∈ rows → other = value)
    (held : value ≠ missing → (key, value) ∈ rows) : (rows.lookup key).getD missing = value := by
  cases found : rows.lookup key with
  | some other =>
    obtain ⟨before, after, rfl, _⟩ := List.lookup_eq_some_iff.mp found
    exact only other (List.mem_append_right _ List.mem_cons_self)
  | none =>
    by_contra differs
    have absent := List.lookup_eq_none_iff.mp found _ (held fun same => differs same.symm)
    simp at absent

theorem Site.member_eq_of_mem {member : MemberEntry} {site : Site} (among : site ∈ Site.ofMember member) :
    site.member = member.id := by
  simp only [ofMember, List.mem_cons, List.mem_map] at among
  rcases among with rfl | rfl | ⟨index, _, rfl⟩ <;> rfl

namespace Registry

variable {catalog : Catalog}

theorem mem_plans_iff {site : Site} {plan : Plan} :
    (site, plan) ∈ (ofCatalog catalog).plans ↔
      ∃ member ∈ catalog.members, site ∈ Site.ofMember member ∧
        plan = (Matcher.ofCatalog catalog).planAt member site ∧ plan.isEmpty = false := by
  simp only [ofCatalog, Matcher.plans, List.mem_filter, List.mem_flatMap, Matcher.plansOf_eq,
    List.mem_map, Prod.mk.injEq, Bool.not_eq_true']
  constructor
  · rintro ⟨⟨member, held, _, among, rfl, rfl⟩, some⟩
    exact ⟨member, held, among, rfl, some⟩
  · rintro ⟨member, held, among, rfl, some⟩
    exact ⟨⟨member, held, site, among, rfl, rfl⟩, some⟩

/-- A site that is none of the member's has no advice. -/
theorem planAt_eq_empty {matcher : Matcher} {member : MemberEntry} {site : Site}
    (owned : site.member = member.id) (outside : site ∉ Site.ofMember member) :
    matcher.planAt member site = .empty := by
  cases site with
  | entry target =>
    obtain rfl : target = member.id := owned
    simp [Site.ofMember] at outside
  | exit target =>
    obtain rfl : target = member.id := owned
    simp [Site.ofMember] at outside
  | point target index =>
    obtain rfl : target = member.id := owned
    have missing : member.points[index]? = none := by
      simpa [Site.ofMember] using outside
    simp only [Matcher.planAt, Matcher.matched, Matcher.matchPoint, missing]
    rfl

/-- The table has the plan of every site of a member. -/
theorem plan_eq_planAt (numbered : catalog.Numbered) {member : MemberEntry} {site : Site}
    (found : catalog.member? site.member = some member) :
    (ofCatalog catalog).plan site = (Matcher.ofCatalog catalog).planAt member site := by
  have owned : site.member = member.id := (numbered.members _ member found).symm
  refine lookup_getD_eq (fun other row => ?_) fun some => ?_
  · obtain ⟨owner, held, among, rfl, -⟩ := mem_plans_iff.mp row
    have again := numbered.members.getElem?_of_mem held
    rw [← Site.member_eq_of_mem among] at again
    obtain rfl : member = owner := Option.some.inj (found.symm.trans again)
    rfl
  · refine mem_plans_iff.mpr ⟨member, List.mem_of_getElem? found, ?_, rfl, ?_⟩
    · by_contra outside
      exact some (planAt_eq_empty owned outside)
    · by_contra none
      exact some (Plan.eq_empty_of_isEmpty (by simpa using none))

theorem plan_eq_empty {site : Site}
    (unknown : ∀ member ∈ catalog.members, site ∉ Site.ofMember member) :
    (ofCatalog catalog).plan site = .empty := by
  refine lookup_getD_eq (fun other row => ?_) fun differs => absurd rfl differs
  obtain ⟨member, held, among, -⟩ := mem_plans_iff.mp row
  exact absurd among (unknown member held)

theorem scanned (numbered : catalog.Numbered) (site : Site) :
    catalog.Scanned site ((ofCatalog catalog).plan site) := by
  cases found : catalog.member? site.member with
  | some member =>
    rw [plan_eq_planAt numbered found]
    exact Matcher.scanned_planAt numbered found
  | none =>
    have unknown : ∀ member ∈ catalog.members, site ∉ Site.ofMember member := by
      intro member held among
      have known := numbered.members.getElem?_of_mem held
      rw [← Site.member_eq_of_mem among] at known
      exact absurd (found.symm.trans known) (by simp)
    rw [plan_eq_empty unknown]
    have nothing (kind : AdviceKind) (id : PointcutId) : id ∈ [] ↔ catalog.Advises kind site id := by
      constructor
      · intro held
        exact absurd held List.not_mem_nil
      · rintro ⟨_, pointcut, _, _, applies⟩
        obtain ⟨member, known⟩ := applies.member_known
        exact absurd (found.symm.trans known) (by simp)
    exact ⟨nothing .before, nothing .after, List.Pairwise.nil, List.Pairwise.nil⟩

section Accepted

variable {declared : Declarations} {bodies : List String} {registry : Registry}

theorem scanned_of_build (accepted : Registry.build declared bodies = .ok registry) (site : Site) :
    registry.Scanned site (registry.plan site) := by
  have numbered := numbered_of_build accepted
  obtain ⟨rfl, -⟩ := eq_ofCatalog_of_build accepted
  exact scanned numbered site

/-- Plans hold no pointcuts but those of the registry. -/
theorem pointcut?_isSome_of_mem_plan (accepted : Registry.build declared bodies = .ok registry)
    {site : Site} {id : PointcutId} (held : id ∈ (registry.plan site).all) :
    (registry.pointcut? id).isSome = true := by
  have scanned := scanned_of_build accepted site
  rcases List.mem_append.mp held with held | held
  · obtain ⟨-, pointcut, known, -⟩ := (scanned.before id).mp held
    exact Option.isSome_of_eq_some known
  · obtain ⟨-, pointcut, known, -⟩ := (scanned.after id).mp held
    exact Option.isSome_of_eq_some known

/-- **Plans agree with direct matching.** In an accepted registry the plan of every site is what a scan of
all pointcuts gives: the advice before it newest first, the advice after it oldest first. Entries have no
advice after them, exits none before them, and what is no site of any member has no advice at all. -/
theorem plan_scanned_of_build (accepted : Registry.build declared bodies = .ok registry) (site : Site) :
    registry.Scanned site (registry.plan site) ∧
    (∀ target, site = .entry target → (registry.plan site).after = []) ∧
    (∀ target, site = .exit target → (registry.plan site).before = []) ∧
    ((∀ member ∈ registry.members, site ∉ Site.ofMember member) → registry.plan site = .empty) := by
  have scanned := scanned_of_build accepted site
  obtain ⟨rfl, -⟩ := eq_ofCatalog_of_build accepted
  refine ⟨scanned, ?_, ?_, plan_eq_empty⟩
  · rintro target rfl
    exact List.eq_nil_iff_forall_not_mem.mpr fun id held => ((scanned.after id).mp held).1
  · rintro target rfl
    exact List.eq_nil_iff_forall_not_mem.mpr fun id held => ((scanned.before id).mp held).1

end Accepted

/-- A vault that is watched twice before it is opened, and once afterwards. -/
def watchedVault : Declarations where
  modules := [⟨"bank"⟩]
  types := [{ name := "Vault", module := "bank" }]
  members := [{ owner := "Vault", name := "Open", body := some "open" }]
  aspects := [{ name := "Watch", module := "bank" }]
  pointcuts :=
    [{ advice := .before, pattern := "Vault.*", body := "look", owner := .aspect "Watch" },
      { advice := .after, pattern := "Open", body := "look", owner := .aspect "Watch" },
      { advice := .before, pattern := "function Open", body := "look", owner := .type "Vault" }]

theorem plan_scanned_of_watchedVault :
    ∃ registry, Registry.build watchedVault ["open", "look"] = .ok registry ∧
      registry.plan (.entry ⟨0⟩) = ⟨[⟨2⟩, ⟨0⟩], []⟩ ∧ registry.plan (.exit ⟨0⟩) = ⟨[], [⟨1⟩]⟩ ∧
      registry.Scanned (.entry ⟨0⟩) ⟨[⟨2⟩, ⟨0⟩], []⟩ := by
  have planned : (Registry.build watchedVault ["open", "look"]).toOption.map
      (fun registry => (registry.plan (.entry ⟨0⟩), registry.plan (.exit ⟨0⟩))) =
        some (⟨[⟨2⟩, ⟨0⟩], []⟩, ⟨[], [⟨1⟩]⟩) := by
    decide +kernel
  cases accepted : Registry.build watchedVault ["open", "look"] with
  | error problems =>
    rw [accepted] at planned
    cases planned
  | ok registry =>
    rw [accepted] at planned
    obtain ⟨entry, exit⟩ := Prod.mk.inj (Option.some.inj planned)
    refine ⟨registry, rfl, entry, exit, ?_⟩
    have scanned := (plan_scanned_of_build accepted (.entry ⟨0⟩)).1
    rw [entry] at scanned
    exact scanned

end Registry

end Weaving
