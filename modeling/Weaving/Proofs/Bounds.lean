import Weaving.Proofs.Reads
import Weaving.Proofs.Substitution

/-!
Nothing is read from behind the end of a table. While names are resolved, each number that is looked up is that of
an entry, whatever is wrong with the declarations (`Resolution.readsInside`). So it is in the lookups and the plans
of an accepted program, and no invocation runs a body that is not there, whoever calls, with whatever objects, and
whether or not the member exists (`Program.reads_inside_of_build`).
-/

namespace Weaving

/-! ## Resolution -/

namespace Resolution

/-- The comparison of a declaration with the members of its owner, if the owner and all of these are there. -/
def Roster.readLists (roster : Roster) (owner : TypeId) (declared : MemberDeclaration) : Option Bool :=
  (roster.types[owner.index]?).bind fun type =>
    type.members.anyM fun id => (roster.members[id.index]?).map (resembles · declared)

/-- At most `limit` types above a type, if each of them is there. -/
def readAncestors (types : List TypeEntry) : Nat → TypeId → Option (List TypeId)
  | 0, _ => some []
  | limit + 1, type => do
    let entry ← types[type.index]?
    match entry.base with
    | none => return []
    | some base => return base :: (← readAncestors types limit base)

/-- The types of some declarations, as they are resolved. -/
def typesOf (declared : Declarations) : List TypeEntry :=
  (resolveTypes (resolveModules declared.modules).value declared.types).value

/-- The roster when some of the declared members have been gone through. -/
def rosterUpTo (count : Nat) (declared : Declarations) (bodies : List String) : Roster :=
  (resolveMembers bodies (typesOf declared) (declared.members.take count)).value

/-- Whatever is looked up by number while names are resolved is there. -/
structure ReadsInside (declared : Declarations) (bodies : List String) : Prop where
  /-- The types that are passed in search of loops, from whatever type. -/
  ancestor : ∀ limit, ∀ type ∈ typesOf declared,
    readAncestors (typesOf declared) limit type.id = some (ancestors (typesOf declared) limit type.id)
  /-- The type that a member is to be added to. -/
  owner : ∀ count name owner, findType? (rosterUpTo count declared bodies).types name = some owner →
    owner.index < (rosterUpTo count declared bodies).types.length
  /-- The members that a type lists by then. -/
  listed : ∀ count, ∀ type ∈ (rosterUpTo count declared bodies).types, ∀ id ∈ type.members,
    id.index < (rosterUpTo count declared bodies).members.length
  /-- The members that are compared with the one that is to be added. -/
  compared : ∀ count name owner member, findType? (rosterUpTo count declared bodies).types name = some owner →
    (rosterUpTo count declared bodies).readLists owner member =
      some ((rosterUpTo count declared bodies).lists owner member)

theorem readAncestors_eq {types : List TypeEntry}
    (bases : ∀ type ∈ types, ∀ base, type.base = some base → base.index < types.length) (limit : Nat)
    {type : TypeId} (inside : type.index < types.length) :
    readAncestors types limit type = some (ancestors types limit type) := by
  induction limit generalizing type with
  | zero => rfl
  | succ limit ih =>
    have found := List.getElem?_eq_getElem inside
    rw [readAncestors, ancestors, found]
    dsimp only [Option.bind_eq_bind, Option.bind_some]
    cases declares : types[type.index].base with
    | none => rfl
    | some base =>
      have above := bases _ (List.getElem_mem inside) base declares
      dsimp only
      rw [ih above]
      rfl

namespace Roster.Kept

variable {types : List TypeEntry} {roster : Roster} (kept : Kept types roster)
include kept

theorem readLists_eq {owner : TypeId} (inside : owner.index < roster.types.length)
    (declared : MemberDeclaration) : roster.readLists owner declared = some (roster.lists owner declared) := by
  have found := List.getElem?_eq_getElem inside
  unfold readLists lists
  rw [found]
  refine anyM_of_reads fun id listed => ?_
  obtain ⟨member, isMember⟩ := kept.member_of_listed (List.getElem_mem inside) listed
  rw [isMember]
  rfl

end Roster.Kept

/-- However many members have been added, each type lists those that it owns. -/
theorem kept_rosterUpTo (count : Nat) (declared : Declarations) (bodies : List String) :
    (rosterUpTo count declared bodies).Kept (typesOf declared) :=
  kept_resolveMembers (numbered_types _ _) (members_resolveTypes _ _) bodies _

theorem rosterUpTo_index_lt {count : Nat} {declared : Declarations} {bodies : List String} {name : String}
    {owner : TypeId} (found : findType? (rosterUpTo count declared bodies).types name = some owner) :
    owner.index < (rosterUpTo count declared bodies).types.length :=
  findType?_index_lt (numbered_resolveMembers bodies (numbered_types _ _) _).types found

/-- **Resolution reads what is there**, whatever is wrong with the declarations. -/
theorem readsInside (declared : Declarations) (bodies : List String) : ReadsInside declared bodies where
  ancestor limit _ held :=
    readAncestors_eq (resolveTypes_base_index_lt _ _) limit ((numbered_types _ _).index_lt held)
  owner _ _ _ found := rosterUpTo_index_lt found
  listed count type held id listed := by
    obtain ⟨member, found⟩ := (kept_rosterUpTo count declared bodies).member_of_listed held listed
    exact (List.getElem?_eq_some_iff.mp found).1
  compared count _ _ member found :=
    (kept_rosterUpTo count declared bodies).readLists_eq (rosterUpTo_index_lt found) member

end Resolution

/-! ## Programs -/

/-- There is a body for every name that the registry numbers. -/
theorem Program.bodies_of_build {declared : Declarations} {bindings : Bindings} {program : Program}
    (accepted : build declared bindings = .ok program) :
    program.registry.bodyNames.length = program.bodies.length := by
  have registered := registry_of_build accepted
  obtain ⟨names, -⟩ := Registry.eq_ofCatalog_of_build registered
  rw [names, bodies_eq_of_build accepted]
  exact (List.length_map _).trans (List.length_map _).symm

/-- **Everything that is read by number is there.** In an accepted program every entry stands under its number
and refers to what is there. While its names are resolved, in the lookups and in the plans nothing is read from
behind the end of a table; and whatever bodies stood there, no invocation would run them, whoever calls, with
whatever objects, and whether or not the member exists. -/
theorem Program.reads_inside_of_build {declared : Declarations} {bindings : Bindings} {program : Program}
    (accepted : build declared bindings = .ok program) :
    program.registry.Closed ∧ program.registry.bodyNames.length = program.bodies.length ∧
      Resolution.ReadsInside declared (bindings.map (·.1)) ∧ program.registry.ReadsInside ∧
      ∀ (settings : Settings) (beyond : List Body) (caller : Caller) (call : Call) (machine : Machine),
        (Weaver.invoke ⟨{ program with bodies := program.bodies ++ beyond }, settings⟩ caller call).run.run
            machine =
          (Weaver.invoke ⟨program, settings⟩ caller call).run.run machine := by
  have registered := registry_of_build accepted
  have closed := Registry.closed_of_build registered
  have bound := bodies_of_build accepted
  refine ⟨closed, bound, Resolution.readsInside _ _, Registry.readsInside_of_build registered, ?_⟩
  intro settings beyond caller call machine
  let weaver : Weaver := ⟨program, settings⟩
  have same : weaver.SameBodies (program.bodies ++ beyond) := fun id inside =>
    congrArg (Option.getD · _) (List.getElem?_append_left (Nat.lt_of_lt_of_eq inside bound))
  have unread : (weaver.withBodies (program.bodies ++ beyond)).invoke = weaver.invoke :=
    Weaver.invoke_withBodies closed same
  exact congrArg (fun invoke => (invoke caller call).run.run machine) unread

/-- Someone knocks at whatever they are given, which need not be a door. -/
def hall : Model where
  modules := [⟨"house"⟩]
  types := [{ name := "Door", module := "house" }]
  members :=
    [{ owner := "Door", name := "Knock", isStatic := true, params := [{ name := "door", type := "Door" }],
       body := some "knock" }]
  scripts := [("knock", [.call "Open" (.arg 0) true [] none])]

/-- An object of a type that does not exist answers to nothing, whatever stands behind the bodies. -/
theorem reads_inside_of_hall :
    ∃ program, Program.build hall.toDeclarations hall.bindings = .ok program ∧
      ∀ beyond : List Body,
        ((Weaver.invoke ⟨{ program with bodies := program.bodies ++ beyond }, {}⟩ .external
          ⟨⟨0⟩, none, [.object ⟨7, ⟨99⟩⟩]⟩).run.run { chain := { tracing := true } }).1 =
            .error (.noSuchMember ".Open") := by
  have runs : (Program.build hall.toDeclarations hall.bindings).toOption.map (fun program =>
      ((Weaver.invoke ⟨program, {}⟩ .external ⟨⟨0⟩, none, [.object ⟨7, ⟨99⟩⟩]⟩).run.run
        { chain := { tracing := true } }).1) =
      some (.error (.noSuchMember ".Open")) := by
    decide +kernel
  obtain ⟨program, built, refused⟩ := Program.exists_of_run runs
  refine ⟨program, built, fun beyond => ?_⟩
  obtain ⟨-, -, -, -, unread⟩ := Program.reads_inside_of_build built
  rw [unread]
  exact refused

end Weaving
