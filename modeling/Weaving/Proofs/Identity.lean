import Weaving.Proofs.Following
import Weaving.Proofs.Literals

/-!
The identity of objects. Where no objects are written in a program, and those that use it pass on none but such
as it has made, all objects in its runs have been made by it, each of them once and under a number of its own
(`Weaver.identifies_of_build`). So numbers tell objects apart, and a call stays with the caller's object just if
its receiver is that object.
-/

namespace Weaving

/-! ## Numbers of objects -/

/-- Objects have been numbered upwards as they were made, and the next number is free. -/
structure Ascending (made : List ObjectRef) (next : Nat) : Prop where
  ordered : made.Pairwise (·.id < ·.id)
  free : ∀ object ∈ made, object.id < next

namespace Ascending

variable {made : List ObjectRef} {next : Nat}

theorem nil (next : Nat) : Ascending [] next := ⟨.nil, nofun⟩

theorem make (ascending : Ascending made next) (type : TypeId) :
    Ascending (made ++ [⟨next, type⟩]) (next + 1) where
  ordered := by
    refine List.pairwise_append.mpr ⟨ascending.ordered, List.pairwise_singleton _ _, ?_⟩
    intro object held fresh isFresh
    obtain rfl := List.mem_singleton.mp isFresh
    exact ascending.free object held
  free object held := by
    rcases List.mem_append.mp held with held | fresh
    · exact Nat.lt_succ_of_lt (ascending.free object held)
    · obtain rfl := List.mem_singleton.mp fresh
      exact Nat.lt_succ_self next

/-- No object has been made twice. -/
theorem count_eq_one (ascending : Ascending made next) {object : ObjectRef} (held : object ∈ made) :
    made.count object = 1 := by
  have nodup : made.Nodup := by
    apply ascending.ordered.imp
    intro first second less same
    exact absurd (congrArg ObjectRef.id same) (Nat.ne_of_lt less)
  exact List.count_eq_one_of_mem nodup held

/-- No number has been given twice. -/
theorem eq_of_id_eq (ascending : Ascending made next) {first second : ObjectRef} (isFirst : first ∈ made)
    (isSecond : second ∈ made) (same : first.id = second.id) : first = second := by
  have nodup : (made.map (·.id)).Nodup := List.pairwise_map.mpr (ascending.ordered.imp Nat.ne_of_lt)
  exact List.inj_on_of_nodup_map nodup isFirst isSecond same

end Ascending

/-! ## Objects in runs -/

/-- The objects in what code has come to, or in the call that it makes. -/
instance : Carries (Process (Except Fault Value)) where
  objects
    | .done result => objects result
    | .call caller request _ => objects caller ++ objects request
    | .emit _ _ | .record _ _ | .relation _ | .poll _ | .allocate _ _ | .cancel _ => []

theorem Process.Honest.known {standard : Standard} {world : World} {process : Process (Except Fault Value)}
    (honest : process.Honest standard world) : standard.Known world process := by
  cases process with
  | done result => exact honest
  | call caller request next => exact Standard.known_append_iff.mpr ⟨honest.1, honest.2.1⟩
  | _ => exact Standard.known_of_objects_eq_nil rfl

/-- All objects in what code has come to or in the call that it makes have been made, each of them once; their
numbers tell them apart; and the call stays with the caller's object just if its receiver is that object. -/
structure Identified (made : List ObjectRef) (process : Process (Except Fault Value)) : Prop where
  once : ∀ object ∈ objects process, made.count object = 1
  ordered : made.Pairwise (·.id < ·.id)
  distinct : ∀ first ∈ made, ∀ second ∈ made, first.id = second.id → first = second
  same : ∀ caller request next, process = .call caller request next →
    (caller.isSameInstance request.receiver = true ↔
      ∃ object ∈ made, caller.this = some object ∧ request.receiver = some object)

theorem identified_of_ascending {made : List ObjectRef} {next : Nat} (ascending : Ascending made next)
    {process : Process (Except Fault Value)} (known : objects process ⊆ made) : Identified made process where
  once _ held := ascending.count_eq_one (known held)
  ordered := ascending.ordered
  distinct _ isFirst _ isSecond same := ascending.eq_of_id_eq isFirst isSecond same
  same caller request rest calls := by
    subst calls
    unfold Caller.isSameInstance
    constructor
    · intro same
      split at same
      · rename_i this receiver isThis isReceiver
        have thisMade : this ∈ made := known (by simp [objects, isThis])
        have receiverMade : receiver ∈ made := known (by simp [objects, isReceiver])
        obtain rfl := ascending.eq_of_id_eq thisMade receiverMade (of_decide_eq_true same)
        exact ⟨this, thisMade, isThis, isReceiver⟩
      · cases same
    · rintro ⟨object, -, isThis, isReceiver⟩
      simp [isThis, isReceiver]

namespace Weaver

variable {weaver : Weaver} {start moment next : Moment} {first world : World}

theorem ascending_of_proceeds (step : weaver.Proceeds moment next)
    (ascending : Ascending world.made moment.machine.nextObject) :
    Ascending (moment.change world).made next.machine.nextObject := by
  cases step with
  | @acts machine after process rest underWay acts =>
    cases process with
    | done result => cases acts
    | call caller request rest => cases acts
    | record event rest =>
      cases acts
      exact ascending
    | allocate type rest =>
      cases acts
      exact ascending.make type
    | emit line rest | relation rest | poll rest | cancel rest =>
      cases acts
      exact ascending
  | refuses | enters | leaves => exact ascending

theorem ascending_of_comes (begins : Ascending first.made start.machine.nextObject)
    (comes : weaver.Comes start first moment world) : Ascending world.made moment.machine.nextObject := by
  induction comes with
  | refl => exact begins
  | step _ step ih => exact ascending_of_proceeds step ih

/-- Objects stay in the order in which they were made. -/
theorem made_of_comes (comes : weaver.Comes start first moment world) : first.made <+: world.made := by
  induction comes with
  | refl => exact List.prefix_refl _
  | @step moment next world _ _ made =>
    unfold Moment.change
    cases moment.focus with
    | allocate type rest => exact made.trans (List.prefix_append _ _)
    | _ => exact made

/-! ## What users of a weaver do -/

/-- The world in which a call is made on a chain, after some objects have been made. -/
def worldOf (chain : Chain) (made : List ObjectRef) : World := ⟨chain.cancelled, made⟩

/-- What has been done with a weaver: objects have been made from outside, output has been taken, and members
have been called on any chains, by callers with objects that the weaver has made. The list has all objects that
were made, in order. -/
inductive Ledger (weaver : Weaver) : Shared → List ObjectRef → Prop
  | fresh : Ledger weaver {} []
  | output {shared made} (lines : List String) (ledger : Ledger weaver shared made) :
    Ledger weaver { shared with lines } made
  | instantiate {shared made} (type : TypeId) (ledger : Ledger weaver shared made) :
    Ledger weaver (shared.allocate type).2 (made ++ [(shared.allocate type).1])
  | invoke {shared made caller call chain machine result world} (ledger : Ledger weaver shared made)
    (isCaller : objects caller ⊆ made) (isCall : objects call ⊆ made)
    (comes : weaver.Comes (.start caller call ⟨shared, chain⟩) (worldOf chain made) ⟨machine, .done result, []⟩
      world) : Ledger weaver machine.toShared world.made

theorem Ledger.ascending {shared : Shared} {made : List ObjectRef} (ledger : weaver.Ledger shared made) :
    Ascending made shared.nextObject := by
  induction ledger with
  | fresh => exact .nil _
  | output _ _ ih => exact ih
  | instantiate type _ ih => exact ih.make type
  | @invoke shared made _ _ chain _ _ _ _ _ _ comes ih =>
    have begins : Ascending (worldOf chain made).made shared.nextObject := ih
    exact ascending_of_comes begins comes

/-- Objects are told apart by their numbers in everything that is done with a weaver. -/
structure Identifies (weaver : Weaver) : Prop where
  /-- At every moment of a call, whatever is passed on. -/
  moments : ∀ {shared made}, weaver.Ledger shared made → ∀ {caller call}, objects caller ⊆ made →
    objects call ⊆ made → ∀ {chain moment world},
      weaver.Comes (.start caller call ⟨shared, chain⟩) (worldOf chain made) moment world →
        Identified world.made moment.focus
  /-- Every call comes to a result, and there are no objects in that but such as have been made, before or
  meanwhile. -/
  results : ∀ {shared made}, weaver.Ledger shared made → ∀ {caller call}, objects caller ⊆ made →
    objects call ⊆ made → ∀ chain, ∃ later,
      weaver.Ledger ((weaver.invoke caller call).run.run ⟨shared, chain⟩).2.toShared later ∧ made <+: later ∧
        Identified later (.done ((weaver.invoke caller call).run.run ⟨shared, chain⟩).1)

/-- Weavers with honest bodies identify objects. -/
theorem Honest.identifies (honest : weaver.Honest .listed) : weaver.Identifies := by
  have each {shared made} (ledger : weaver.Ledger shared made) {caller call} (isCaller : objects caller ⊆ made)
      (isCall : objects call ⊆ made) {chain moment world}
      (comes : weaver.Comes (.start caller call ⟨shared, chain⟩) (worldOf chain made) moment world) :
      Identified world.made moment.focus := by
    have begins : Moment.Honest .listed (.start caller call ⟨shared, chain⟩) (worldOf chain made) :=
      ⟨rfl, ⟨fun _ held => isCaller held, fun _ held => isCall held, fun _ _ _ known => known⟩,
        fun _ waits => absurd waits List.not_mem_nil⟩
    have known := (honest_of_comes honest begins comes).focus.known
    exact identified_of_ascending (ascending_of_comes ledger.ascending comes) known
  refine ⟨each, fun {shared made} ledger {caller call} isCaller isCall chain => ?_⟩
  obtain ⟨world, comes⟩ := weaver.comes_invoke caller call ⟨shared, chain⟩ (worldOf chain made)
  have identified := each ledger isCaller isCall comes
  exact ⟨world.made, ledger.invoke isCaller isCall comes, made_of_comes comes, identified⟩

section Telling

variable {others : List Body} (told : weaver.Told others) {shared : Shared} {made : List ObjectRef}
include told

theorem Ledger.follow (ledger : weaver.Ledger shared made) : (weaver.withBodies others).Ledger shared made := by
  induction ledger with
  | fresh => exact .fresh
  | output lines _ ih => exact ih.output lines
  | instantiate type _ ih => exact ih.instantiate type
  | invoke _ isCaller isCall comes ih => exact ih.invoke isCaller isCall (comes.follow_done told)

/-- What is done with a weaver whose bodies tell is done with the weaver as well: its calls end, and the telling
ones end in the same way. -/
theorem Ledger.lead (ledger : (weaver.withBodies others).Ledger shared made) : weaver.Ledger shared made := by
  induction ledger with
  | fresh => exact .fresh
  | output lines _ ih => exact ih.output lines
  | instantiate type _ ih => exact ih.instantiate type
  | @invoke shared made caller call chain machine result world _ isCaller isCall telling ih =>
    -- both runs stop, and telling runs stop in one way
    obtain ⟨last, comes⟩ := weaver.comes_invoke caller call ⟨shared, chain⟩ (worldOf chain made)
    rcases (weaver.invoke caller call).run.run ⟨shared, chain⟩ with ⟨other, after⟩
    obtain ⟨same, rfl⟩ := (comes.follow_done told).unique (stops_done _ _ _) telling (stops_done _ _ _)
    cases same
    exact ih.invoke isCaller isCall comes

end Telling

/-- **The identity of objects.** Take an accepted program in which no objects are written, and make objects and
call members as often as you like, from callers and with receivers and arguments that the program has made.
Then all objects that are passed on in the runs, and all in their results, have been made, each of them once and
with a number above those before it, and calls stay with the caller's object just if their receiver is the same
object. This is so as well if the scripts say at each step what they have been given and what they have in their
variables; which makes no difference otherwise. -/
theorem identifies_of_build {model : Model}
    (accepted : Program.build model.toDeclarations model.bindings = .ok weaver.toProgram)
    (free : model.ObjectFree) :
    weaver.Identifies ∧ (weaver.telling model).Identifies ∧ (weaver.telling model).invoke = weaver.invoke ∧
      ∀ shared made, (weaver.telling model).Ledger shared made ↔ weaver.Ledger shared made := by
  have told := told_of_build accepted
  refine ⟨?_, ?_, invoke_told told, fun shared made => ⟨Ledger.lead told, Ledger.follow told⟩⟩
  · exact (honest_of_build accepted free .listed).identifies
  · exact (telling_honest accepted free .listed).identifies

/-- A mint where coins are struck, and looked at before they are given away. -/
def mint : Model where
  modules := [⟨"bank"⟩]
  types := [{ name := "Coin", module := "bank" }]
  members :=
    [{ owner := "Coin", name := "Strike", isStatic := true, body := some "strike" },
      { owner := "Coin", name := "Look", body := some "look" }]
  scripts :=
    [("look", [.emit "{this}"]),
      ("strike", [.allocate "Coin" "coin", .call "Look" (.var "coin") false [] none, .give (.var "coin")])]

/-- The coin that is given away has been struck once. -/
theorem identifies_of_mint :
    ∃ program, Program.build mint.toDeclarations mint.bindings = .ok program ∧
      let (result, after) :=
        (invoke ⟨program, {}⟩ .external ⟨⟨0⟩, none, []⟩).run.run { chain := { tracing := true } }
      result = .ok (.object ⟨1, ⟨0⟩⟩) ∧
        ∃ made, Ledger ⟨program, {}⟩ after.toShared made ∧ made.count ⟨1, ⟨0⟩⟩ = 1 := by
  have runs : (Program.build mint.toDeclarations mint.bindings).toOption.map (fun program =>
      ((invoke ⟨program, {}⟩ .external ⟨⟨0⟩, none, []⟩).run.run { chain := { tracing := true } }).1) =
      some (.ok (.object ⟨1, ⟨0⟩⟩)) := by
    decide +kernel
  obtain ⟨program, built, given⟩ := Program.exists_of_run runs
  have accepted : Program.build mint.toDeclarations mint.bindings = .ok (Weaver.toProgram ⟨program, {}⟩) :=
    built
  have free : mint.ObjectFree := ⟨by decide, by decide⟩
  obtain ⟨identifies, -⟩ := identifies_of_build accepted free
  have caller : objects Caller.external ⊆ ([] : List ObjectRef) := List.Subset.refl _
  have call : objects (⟨⟨0⟩, none, []⟩ : Call) ⊆ ([] : List ObjectRef) := List.Subset.refl _
  obtain ⟨made, ledger, -, identified⟩ := identifies.results .fresh caller call { tracing := true }
  refine ⟨program, built, given, made, ledger, identified.once ⟨1, ⟨0⟩⟩ ?_⟩
  rw [given]
  exact List.mem_singleton_self _

end Weaver

end Weaving
