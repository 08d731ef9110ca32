import Weaving.Proofs.Passages

/-!
Who is blamed for a fault. When a body ends with a fault, a weaver that lets the advice at the exit see faults runs
it, unless it puts the fault down to the explicit join points of the body. It goes by what a fault says: it blames
them for the last fault with which advice there has stopped the body, whatever the body has done about it since.
So the advice runs after every other fault (`Weaver.run_blames`); but where a body has passed over a fault of its
join points and comes upon an equal one by itself, it does not run (`Weaver.callFrom_of_stuckLock`).
-/

namespace Weaving

/-- The fault with which advice stops a body. -/
def stoppingFault? : Except Fault (Option Value) → Option Fault
  | .ok _ => none
  | .error fault => some fault

/-- The fault for which the explicit join points of a body are blamed: the last of those with which advice there
has stopped it. -/
def blamed (stops : List (Except Fault (Option Value))) : Option Fault :=
  (stops.filterMap stoppingFault?).getLast?

theorem blamed_cons (stop : Except Fault (Option Value)) (stops : List (Except Fault (Option Value))) :
    blamed (stop :: stops) = (blamed stops).or (stoppingFault? stop) := by
  unfold blamed
  cases stop with
  | ok value =>
    rw [List.filterMap_cons_none rfl]
    exact Option.or_none.symm
  | error fault =>
    have stopped : stoppingFault? (.error fault) = some fault := rfl
    rw [List.filterMap_cons_some stopped, List.getLast?_cons, stopped]
    cases (stops.filterMap stoppingFault?).getLast? <;> rfl

/-- The machine when some work of a member is over whose fault, if it has one, goes no further than the trace. -/
def Machine.dropping (member : MemberId) (stop : Except Fault (Option Value)) (machine : Machine) : Machine :=
  match stop with
  | .ok _ => machine
  | .error dropped => machine.record (.fault member dropped.message)

namespace Weaver

variable (weaver : Weaver) (calling : Calling)

/-- The way of a body of any kind to its end, with what the advice before the explicit join points on its way has
come to. The body hears of it, and goes on as it likes. -/
inductive Roams (activation : Activation) :
    Action Ending → Machine → List (Except Fault (Option Value)) → Ending → Machine → Prop
  | ended {ending : Ending} {machine : Machine} : Roams activation (.done ending) machine [] ending machine
  | strode {action next : Action Ending} {machine between after : Machine}
      {stops : List (Except Fault (Option Value))} {ending : Ending}
      (stride : weaver.Strides calling activation action machine next between)
      (rest : Roams activation next between stops ending after) :
      Roams activation action machine stops ending after
  | arrived {name : String} {args : List Value} {next : Except Interrupt Unit → Action Ending} {index : Nat}
      {machine between after : Machine} {stop : Except Fault (Option Value)}
      {stops : List (Except Fault (Option Value))} {ending : Ending}
      (known : (weaver.ownContext activation).point? name = some index)
      (before : weaver.Heard calling (weaver.ahead activation ⟨index, args⟩) machine stop between)
      (rest : Roams activation (next (answer stop)) between stops ending after) :
      Roams activation (.join name args next) machine (stop :: stops) ending after

/-- Advice is run on its occasions, and no further than advice that cancels the chain. -/
inductive Tried : List Occasion → Machine → Except Fault (Option Value) → Machine → Prop
  | heard {occasions : List Occasion} {machine after : Machine} {stop : Except Fault (Option Value)}
      (run : weaver.Heard calling occasions machine stop after) : Tried occasions machine stop after
  | cut {first left : List Occasion} {machine after : Machine}
      (run : weaver.Heard calling first machine (.ok none) after) (cancelled : after.chain.cancelled = true)
      (more : left ≠ []) : Tried (first ++ left) machine (.error .cancelled) after

/-- The advice at the exit of a member, where it has ended with a fault. -/
def onFault (activation : Activation) : List Occasion :=
  (weaver.registry.plan (.exit activation.member.id)).after.map fun id => ⟨id, activation.exit, some .null⟩

/-- The advice at the exit has been run on a fault, and it has not put another in its place. -/
def Observes (activation : Activation) (machine after : Machine) : Prop :=
  ∃ stop between, weaver.Tried calling (weaver.onFault activation) machine stop between ∧
    after = between.dropping activation.member.id stop

variable {weaver} {calling}

/-! ## Advice that may cancel the chain -/

theorem Tried.passed {occasion : Occasion} {occasions : List Occasion} {machine between after : Machine}
    {stop : Except Fault (Option Value)} (advice : weaver.Advised calling occasion machine (.ok none) between)
    (rest : weaver.Tried calling occasions between stop after) :
    weaver.Tried calling (occasion :: occasions) machine stop after := by
  cases rest with
  | heard run => exact .heard (.passed advice run)
  | cut run cancelled more => exact .cut (.passed advice run) cancelled more

/-- Behind advice that cancels the chain there is either nothing left, or what is left is refused at once. -/
theorem Tried.of_cancelled {occasion : Occasion} {point : JoinPoint} {result : Option Value} {ids : List PointcutId}
    {machine between after : Machine} {stop : Except Fault (Option Value)}
    (advice : weaver.Advised calling occasion machine (.ok none) between)
    (cancelled : between.chain.cancelled = true)
    (ran : (weaver.runAdviceList calling point result ids).run.run between = (stop, after)) :
    weaver.Tried calling (occasion :: ids.map (⟨·, point, result⟩)) machine stop after := by
  have alone : weaver.Heard calling [occasion] machine (.ok none) between := .passed advice .nothing
  cases ids with
  | nil =>
    cases ran
    exact .heard alone
  | cons next ids =>
    rw [runAdviceList, Attempt.run_bind, run_runAdvice_of_cancelled _ _ cancelled] at ran
    cases ran
    exact .cut alone cancelled (List.cons_ne_nil _ _)

/-- On a chain that is not cancelled advice is run for as long as it stays so. -/
theorem tried_of_runAdviceList {point : JoinPoint} {result : Option Value} {ids : List PointcutId}
    (known : ∀ id ∈ ids, (weaver.registry.pointcut? id).isSome = true) {machine after : Machine}
    {stop : Except Fault (Option Value)} (begins : machine.chain.cancelled = false)
    (ran : (weaver.runAdviceList calling point result ids).run.run machine = (stop, after)) :
    weaver.Tried calling (ids.map (⟨·, point, result⟩)) machine stop after := by
  induction ids generalizing machine with
  | nil =>
    cases ran
    exact .heard .nothing
  | cons id ids ih =>
    obtain ⟨first, others⟩ := List.forall_mem_cons.mp known
    cases one : (weaver.runAdvice calling point result id).run.run machine with
    | mk ended between =>
      have advice : weaver.Advised calling ⟨id, point, result⟩ machine ended between :=
        advised_of_runAdvice first begins one
      rw [runAdviceList, Attempt.run_bind, one] at ran
      rcases ended with fault | _ | value
      · cases ran
        exact .heard (.stopped advice (by simp))
      · cases going : between.chain.cancelled with
        | false => exact (ih others going ran).passed advice
        | true => exact .of_cancelled advice going ran
      · cases ran
        exact .heard (.stopped advice (by simp))

/-! ## What is kept of a body's way -/

/-- Of the stops of a body there is kept, on top of what was kept before, the last fault and whether one returned.
-/
structure Keeps (visits : Visits) (stops : List (Except Fault (Option Value))) (visited : Visits) : Prop where
  fault : visited.fault = (blamed stops).or visits.fault
  returned : visited.returned = none ↔ visits.returned = none ∧ ∀ value, .ok (some value) ∉ stops

theorem Keeps.nothing (visits : Visits) : Keeps visits [] visits := ⟨rfl, by simp⟩

theorem Keeps.cons {visits visited : Visits} {arrival : Arrival} {stop : Except Fault (Option Value)}
    {stops : List (Except Fault (Option Value))} (rest : Keeps (noted visits arrival stop) stops visited) :
    Keeps visits (stop :: stops) visited := by
  constructor
  · rw [rest.fault, blamed_cons, Option.or_assoc]
    rcases stop with fault | _ | value <;> rfl
  · rw [rest.returned]
    rcases stop with fault | _ | value
    · simp [noted]
    · simp [noted]
    · have stopped : ¬ ∀ other, Except.ok (some other) ∉ Except.ok (some value) :: stops :=
        fun unreturned => unreturned value List.mem_cons_self
      exact iff_of_false (fun kept => Option.some_ne_none value kept.1) fun kept => stopped kept.2

variable (weaver calling) in
/-- A body has gone some way to its end, and what has come of it there is kept. -/
def Recounted (activation : Activation) (action : Action Ending) (visits : Visits) (machine : Machine)
    (ending : Ending) (visited : Visits) (after : Machine) : Prop :=
  ∃ stops, weaver.Roams calling activation action machine stops ending after ∧ Keeps visits stops visited

theorem Recounted.of_stride {activation : Activation} {action next : Action Ending} {visits visited : Visits}
    {machine between after : Machine} {ending : Ending}
    (stride : weaver.Strides calling activation action machine next between)
    (rest : weaver.Recounted calling activation next visits between ending visited after) :
    weaver.Recounted calling activation action visits machine ending visited after := by
  obtain ⟨stops, roams, keeps⟩ := rest
  exact ⟨stops, .strode stride roams, keeps⟩

section Running

variable (known : ∀ site, ∀ id ∈ (weaver.registry.plan site).all, (weaver.registry.pointcut? id).isSome = true)
  {activation : Activation}
include known

/-- The advice at the exit observes a fault on a chain that is not cancelled. -/
theorem observes_of_observeFault {machine : Machine} (begins : machine.chain.cancelled = false) :
    weaver.Observes calling activation machine ((weaver.observeFault calling activation).run machine).2 := by
  cases one : (weaver.runAfter calling activation.exit .null).run.run machine with
  | mk stop between =>
    have among (id : PointcutId) (held : id ∈ (weaver.registry.plan activation.exit.site).after) :=
      known _ id (List.mem_append_right _ held)
    refine ⟨stop, between, tried_of_runAdviceList among begins one, ?_⟩
    rw [observeFault, Execution.run_bind, one]
    cases stop <;> rfl

variable (calls : CallsAgree (Bond.flagged true) calling calling)
include calls

/-- Every body goes some way to its end if the chain is not cancelled by then, and what is kept is what has come of
it on this way. -/
theorem recounted_of_perform {action : Action Ending} {visits visited : Visits} {machine after : Machine}
    {ending : Ending}
    (ran : ((weaver.perform calling activation action).run visits).run machine = ((ending, visited), after))
    (going : after.chain.cancelled = false) :
    weaver.Recounted calling activation action visits machine ending visited after := by
  induction action generalizing visits machine with
  | done ending =>
    cases ran
    exact ⟨[], .ended, .nothing _⟩
  | emit line next ih => exact .of_stride .emit (ih ran)
  | relation next ih => exact .of_stride .relation (ih _ ran)
  | call request next ih => exact .of_stride (.call rfl) (ih _ ran)
  | allocate type next ih => exact .of_stride (.allocate rfl) (ih _ ran)
  | poll next ih => exact .of_stride .poll (ih _ ran)
  | cancel next ih =>
    -- The chain would still be cancelled by the end.
    have still := (perform_stays_cancelled calls activation next _).going ran going
    cases still
  | join name args next ih =>
    cases declared : (weaver.ownContext activation).point? name with
    | none =>
      rw [perform_join_of_unknown declared] at ran
      exact .of_stride (.undeclared declared) (ih _ ran)
    | some index =>
      cases one : (weaver.runBefore calling (activation.point ⟨index, args⟩)).run.run machine with
      | mk stop between =>
        rw [run_perform_join declared one] at ran
        have still := (perform_stays_cancelled calls activation (next (answer stop)) _).going ran going
        have heard := heard_of_runBefore calls known activation one still
        obtain ⟨stops, roams, keeps⟩ := ih _ ran
        exact ⟨stop :: stops, .arrived declared heard roams, keeps.cons⟩

end Running

/-! ## Faults of bodies -/

/-- What is run of a member whose advice at the entry falls through. -/
theorem run_eq_of_entered {activation : Activation} {machine entered : Machine}
    (entry : (weaver.runBefore calling activation.entry).run.run machine = (.ok none, entered)) :
    (weaver.run calling activation).run.run machine =
      let judged := (weaver.runBody calling activation).run entered
      (weaver.conclude calling activation judged.1).run.run judged.2 := by
  have whole : (weaver.run calling activation).run.run machine =
      let inside := (weaver.runInside calling activation).run machine
      (weaver.conclude calling activation inside.1).run.run inside.2 := rfl
  rw [whole, runInside, Execution.run_bind, entry]

/-- A fault stays, whether the advice at the exit sees it or not. -/
theorem run_conclude_failed (observing : weaver.settings.afterOnFault = true) (activation : Activation)
    (fault : Fault) (ofBody : Bool) (machine : Machine) :
    (weaver.conclude calling activation (.failed fault ofBody)).run.run machine =
      (.error fault, if ofBody then ((weaver.observeFault calling activation).run machine).2 else machine) := by
  rw [conclude, observing, Bool.and_true]
  cases ofBody <;> rfl

/-- **All faults but one are observed.** In an accepted program that lets the advice at the exit see faults, a body
of any kind goes on as it likes from the faults of its explicit join points. If it ends with a fault after all, and
none of them has returned on its behalf, the member ends with this fault. The advice at the exit is run on it unless
it is equal to the last fault of the join points, whoever has raised it. This is so whatever else runs in between,
with whatever room there is for invocations inside, on a chain that is not cancelled when the body ends. -/
theorem run_blames {declared : Declarations} {bindings : Bindings}
    (accepted : Program.build declared bindings = .ok weaver.toProgram)
    (observing : weaver.settings.afterOnFault = true) (room : Nat) {activation : Activation}
    {machine entered between : Machine} {ending : Ending} {visited : Visits} {fault : Fault}
    (entry : (weaver.runBefore (weaver.invokeWithin room) activation.entry).run.run machine =
      (.ok none, entered))
    (body : ((weaver.perform (weaver.invokeWithin room) activation (weaver.body activation.body
      (weaver.ownContext activation))).run {}).run entered = ((ending, visited), between))
    (going : between.chain.cancelled = false) (faulted : ending.result = .error fault) :
    ∃ stops,
      weaver.Roams (weaver.invokeWithin room) activation
        (weaver.body activation.body (weaver.ownContext activation)) entered stops ending between ∧
      (visited.returned = none ↔ ∀ value, .ok (some value) ∉ stops) ∧
      ((∀ value, .ok (some value) ∉ stops) →
        ∃ after, (weaver.run (weaver.invokeWithin room) activation).run.run machine = (.error fault, after) ∧
          (blamed stops ≠ some fault → weaver.Observes (weaver.invokeWithin room) activation between after) ∧
          (blamed stops = some fault → after = between)) := by
  have registered := Program.registry_of_build accepted
  have known : ∀ site, ∀ id ∈ (weaver.registry.plan site).all,
      (weaver.registry.pointcut? id).isSome = true :=
    fun _ _ held => Registry.pointcut?_isSome_of_mem_plan registered held
  have calls := calls_stay_cancelled weaver room
  obtain ⟨stops, roams, keeps⟩ := recounted_of_perform known calls body going
  have returned : visited.returned = none ↔ ∀ value, .ok (some value) ∉ stops :=
    keeps.returned.trans (and_iff_right rfl)
  refine ⟨stops, roams, returned, fun unreturned => ?_⟩
  have judged : weaver.judge (weaver.invokeWithin room) activation ending visited =
      pure (.failed fault (visited.fault ≠ some fault)) := by
    rw [judge, returned.mpr unreturned, faulted]
  have blames : visited.fault = blamed stops := keeps.fault.trans Option.or_none
  rw [run_eq_of_entered entry, run_runBody body, judged, blames]
  refine ⟨_, run_conclude_failed observing activation fault _ between, ?_, ?_⟩
  · intro others
    rw [decide_eq_true others]
    exact observes_of_observeFault known going
  · intro theirs
    rw [decide_eq_false (not_not_intro theirs)]
    rfl

/-- The body of a member that tries a lock, and raises a fault of its own whatever comes of it. -/
def stuckLock (complaint : String) : Body := fun _ =>
  .join "Turn" [] fun _ => .done (.error (.fault (.raised complaint)))

/-- A strongroom whose lock is jammed; a guard reports whatever becomes of opening it. -/
def strongroom : Model where
  modules := [⟨"bank"⟩]
  types := [{ name := "Strongroom", module := "bank" }]
  members :=
    [{ owner := "Strongroom", name := "Open", isStatic := true, body := some "open", points := [⟨"Turn", []⟩] }]
  aspects := [{ name := "Guard", module := "bank" }]
  pointcuts :=
    [{ advice := .before, pattern := "point *.Open.Turn", body := "jam", owner := .aspect "Guard" },
      { advice := .after, pattern := "Open", body := "report", owner := .aspect "Guard" }]
  scripts := [("jam", [.fault "jammed"]), ("report", [.emit "reported"])]

/-- The lock of a strongroom is tried by code of its own. -/
def strongroomBindings (complaint : String) : Bindings := strongroom.bindings.bind "open" (stuckLock complaint)

/-- What the body raises by itself is reported where it differs from the fault of the lock. -/
theorem run_blames_strongroom :
    ∃ (weaver : Weaver) (activation : Activation) (between after : Machine),
      Program.build strongroom.toDeclarations (strongroomBindings "locked") = .ok weaver.toProgram ∧
      (weaver.run (weaver.invokeWithin 4) activation).run.run { chain := { tracing := true } } =
        (.error (.raised "locked"), after) ∧
      weaver.Observes (weaver.invokeWithin 4) activation between after ∧ after.output = ["reported"] := by
  have runs : (Program.build strongroom.toDeclarations (strongroomBindings "locked")).toOption.bind
      (fun program => (program.registry.member? ⟨0⟩).map fun member =>
        let weaver : Weaver := ⟨program, { afterOnFault := true }⟩
        let activation : Activation := ⟨member, ⟨2⟩, none, []⟩
        let entry := (weaver.runBefore (weaver.invokeWithin 4) activation.entry).run.run
          { chain := { tracing := true } }
        let body := ((weaver.perform (weaver.invokeWithin 4) activation (weaver.body activation.body
          (weaver.ownContext activation))).run {}).run entry.2
        let whole := (weaver.run (weaver.invokeWithin 4) activation).run.run { chain := { tracing := true } }
        decide (entry.1 = .ok none ∧ body.1.1 = .error (.fault (.raised "locked")) ∧
          body.1.2.returned = none ∧ body.2.chain.cancelled = false ∧ body.2.output = [] ∧
          whole.2.output = ["reported"])) = some true := by
    decide +kernel
  obtain ⟨program, accepted, runs⟩ := Program.exists_of_run? runs
  obtain ⟨member, -, runs⟩ := Option.map_eq_some_iff.mp runs
  obtain ⟨entry, ending, returned, going, silent, output⟩ := of_decide_eq_true runs
  let weaver : Weaver := ⟨program, { afterOnFault := true }⟩
  let activation : Activation := ⟨member, ⟨2⟩, none, []⟩
  have inWeaver : Program.build strongroom.toDeclarations (strongroomBindings "locked") = .ok weaver.toProgram :=
    accepted
  have enters : (weaver.runBefore (weaver.invokeWithin 4) activation.entry).run.run
      { chain := { tracing := true } } = (.ok none, _) := Prod.ext entry rfl
  obtain ⟨stops, -, unreturned, ends⟩ :=
    run_blames inWeaver rfl 4 enters (Prod.ext (Prod.ext ending rfl) rfl) going rfl
  obtain ⟨after, ran, others, theirs⟩ := ends (unreturned.mp returned)
  rw [ran] at output
  refine ⟨weaver, activation, _, after, inWeaver, ran, others ?_, output⟩
  intro blamed
  rw [theirs blamed, silent] at output
  cases output

/-- Where the fault that the body raises by itself says the same as that of the lock, the guard does not report it.
-/
theorem callFrom_of_stuckLock :
    ∃ weaver : Weaver,
      Program.build strongroom.toDeclarations (strongroomBindings "jammed") = .ok weaver.toProgram ∧
      weaver.settings.afterOnFault = true ∧ (weaver.registry.plan (.exit ⟨0⟩)).after = [⟨1⟩] ∧
      ((weaver.callFrom .external ⟨⟨0⟩, none, []⟩).run {}).1.result = .error (.raised "jammed") ∧
      ((weaver.callFrom .external ⟨⟨0⟩, none, []⟩).run {}).1.advice = [⟨0⟩] := by
  have runs : (Program.build strongroom.toDeclarations (strongroomBindings "jammed")).toOption.map
      (fun program =>
        let weaver : Weaver := ⟨program, { afterOnFault := true, trace := true }⟩
        let invocation := ((weaver.callFrom .external ⟨⟨0⟩, none, []⟩).run {}).1
        ((weaver.registry.plan (.exit ⟨0⟩)).after, invocation.result, invocation.advice)) =
      some ([⟨1⟩], .error (.raised "jammed"), [⟨0⟩]) := by
    decide +kernel
  obtain ⟨program, accepted, runs⟩ := Program.exists_of_run runs
  simp only [Prod.mk.injEq] at runs
  obtain ⟨planned, result, advice⟩ := runs
  exact ⟨⟨program, { afterOnFault := true, trace := true }⟩, accepted, rfl, planned, result, advice⟩

end Weaver

end Weaving
