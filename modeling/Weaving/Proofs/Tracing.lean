import Weaving.Proofs.Observers

/-!
Tracing is transparent. Nothing that runs can see the trace: two runs from machines that differ only in what
has been recorded on their chains, and in whether anything is recorded at all, come to the same and have the
same things happen in them; each run keeps all of these events or none (`Weaver.invoke_recorded`). So programs
do the same whether they are traced or not, and what they record does not depend on what was recorded before
(`Weaver.invokeAll_recording`).
-/

namespace Weaving

/-! ## Machines with other traces -/

/-- What a chain keeps of the events that happen on it, newest first. -/
def Chain.kept (chain : Chain) (events : List Event) : List Event := if chain.tracing then events else []

theorem Chain.kept_cons (chain : Chain) (event : Event) (events : List Event) :
    chain.kept (event :: events) = chain.noted event ++ chain.kept events := by
  unfold kept noted
  split <;> rfl

/-- The machine with another history on its chain. -/
def Machine.withHistory (history : List Event) (machine : Machine) : Machine :=
  { machine with chain := { machine.chain with history } }

/-- Two runs have begun on two machines, and the same has happened in them since. The machines are alike but
for their traces: each has kept what it keeps of the events, in front of what it had. -/
structure Bond.Retold (first second left right : Machine) : Prop where
  shared : left.toShared = right.toShared
  frames : left.chain.frames = right.chain.frames
  cancelled : left.chain.cancelled = right.chain.cancelled
  tracesFirst : left.chain.tracing = first.chain.tracing
  tracesSecond : right.chain.tracing = second.chain.tracing
  history : ∃ events, left.chain.history = first.chain.kept events ++ first.chain.history ∧
    right.chain.history = second.chain.kept events ++ second.chain.history

namespace Bond

variable {first second left right : Machine}

theorem Retold.refl (shared : first.toShared = second.toShared)
    (frames : first.chain.frames = second.chain.frames)
    (cancelled : first.chain.cancelled = second.chain.cancelled) :
    Retold first second first second where
  shared
  frames
  cancelled
  tracesFirst := rfl
  tracesSecond := rfl
  history := ⟨[], by simp [Chain.kept], by simp [Chain.kept]⟩

/-- What happens is kept by both machines, each in its own way. -/
theorem Retold.record (bonded : Retold first second left right) (event : Event) :
    Retold first second (left.record event) (right.record event) where
  shared := bonded.shared
  frames := by
    rw [Machine.record, Machine.record, Chain.frames_record, Chain.frames_record]
    exact bonded.frames
  cancelled := by
    rw [Machine.record, Machine.record, Chain.cancelled_record, Chain.cancelled_record]
    exact bonded.cancelled
  tracesFirst := (left.chain.tracing_record event).trans bonded.tracesFirst
  tracesSecond := (right.chain.tracing_record event).trans bonded.tracesSecond
  history := by
    obtain ⟨events, onFirst, onSecond⟩ := bonded.history
    have noted {machine origin : Machine} (same : machine.chain.tracing = origin.chain.tracing) :
        machine.chain.noted event = origin.chain.noted event := by
      rw [Chain.noted, Chain.noted, same]
    refine ⟨event :: events, ?_, ?_⟩
    · rw [Machine.record, Chain.history_record, onFirst, Chain.kept_cons, noted bonded.tracesFirst,
        List.append_assoc]
    · rw [Machine.record, Chain.history_record, onSecond, Chain.kept_cons, noted bonded.tracesSecond,
        List.append_assoc]

theorem retold_kept (first second : Machine) : Kept (Retold first second) where
  cancelled bonded := bonded.cancelled
  current bonded := congrArg SecurityStack.current bonded.frames
  nextObject bonded := congrArg Shared.nextObject bonded.shared
  record bonded event := bonded.record event
  emit bonded line := { bonded with shared := congrArg (Shared.emit line) bonded.shared }
  allocate bonded type :=
    { bonded with shared := congrArg (fun shared => (shared.allocate type).2) bonded.shared }

theorem Retold.cancel (bonded : Retold first second left right) :
    Retold first second ((Execution.onChain Chain.cancel).run left).2
      ((Execution.onChain Chain.cancel).run right).2 :=
  { bonded with cancelled := rfl }

/-- The frames of both machines are pushed and popped together. -/
theorem retold_nested (first second : Machine) :
    Weaver.Nested (fun _ : Unit => Retold first second) (fun _ _ _ => ()) where
  kept _ := retold_kept first second
  depth bonded := congrArg List.length bonded.frames
  enter bonded relation passthru :=
    { bonded with frames := congrArg (SecurityStack.push · relation passthru) bonded.frames }
  leave bonded := { bonded with frames := congrArg List.tail bonded.frames }

end Bond

namespace Weaver

/-! ## Traces of invocations -/

/-- **One account of an invocation.** On machines that are alike but for their traces, an invocation comes to
the same result, and the same happens in it; each machine keeps it all, or nothing. -/
theorem invoke_recorded (weaver : Weaver) (first second : Machine) :
    CallsAgree (Bond.Retold first second) weaver.invoke weaver.invoke := by
  have bodies : weaver.BodiesAgree (Bond.Retold first second) weaver.bodies :=
    fun id context _ _ _ _ hosts =>
      Activity.perform_agree (Bond.retold_kept first second) hosts (weaver.body id context)
        (Or.inr fun _ _ bonded => bonded.cancel)
  exact invoke_agree (Bond.retold_nested first second)
    (fun _ => bodies.code (Bond.retold_kept first second)) ()

/-- Invocations one after the other, on the same chain. -/
def invokeAll (weaver : Weaver) (calls : List (Caller × Call)) : Execution (List (Except Fault Value)) :=
  calls.mapM fun (caller, call) => (weaver.invoke caller call).run

theorem invokeAll_recorded (weaver : Weaver) (first second : Machine) (calls : List (Caller × Call)) :
    Execution.Agree (Bond.Retold first second) (weaver.invokeAll calls) (weaver.invokeAll calls) := by
  unfold invokeAll
  induction calls with
  | nil => exact Execution.Agree.pure []
  | cons call calls ih =>
    rw [List.mapM_cons]
    refine Execution.Agree.bind (weaver.invoke_recorded first second call.1 call.2) fun result => ?_
    exact ih.bind fun results => Execution.Agree.pure (result :: results)

/-! ## Settings -/

/-- The same program with settings that let chains be traced, or not. -/
def recording (weaver : Weaver) (traces : Bool) : Weaver :=
  { weaver with settings := { weaver.settings with trace := traces } }

section Settings

variable (weaver : Weaver) (traces : Bool) (calling : Calling)

theorem runAdviceList_recording :
    (weaver.recording traces).runAdviceList calling = weaver.runAdviceList calling := by
  funext point result ids
  induction ids with
  | nil => rfl
  | cons id ids ih =>
    rw [runAdviceList, runAdviceList, ih]
    rfl

theorem runBefore_recording : (weaver.recording traces).runBefore calling = weaver.runBefore calling := by
  funext point
  rw [runBefore, runBefore, runAdviceList_recording]
  rfl

theorem runAfter_recording : (weaver.recording traces).runAfter calling = weaver.runAfter calling := by
  funext point result
  rw [runAfter, runAfter, runAdviceList_recording]
  rfl

theorem judge_recording : (weaver.recording traces).judge calling = weaver.judge calling := by
  have settle : (weaver.recording traces).settle calling = weaver.settle calling := by
    funext activation value arrivals
    induction arrivals with
    | nil => rfl
    | cons arrival arrivals ih => rw [Weaver.settle, Weaver.settle, ih, runAfter_recording]
  funext activation ending visits
  rw [judge, judge, settle]

theorem runInside_recording : (weaver.recording traces).runInside calling = weaver.runInside calling := by
  have arrive : (weaver.recording traces).arrive calling = weaver.arrive calling := by
    funext context name args
    rw [Weaver.arrive, Weaver.arrive, runBefore_recording]
  have body : (weaver.recording traces).runBody calling = weaver.runBody calling := by
    funext activation
    rw [runBody, runBody, judge_recording, arrive]
    rfl
  funext activation
  rw [runInside, runInside, runBefore_recording, body]

theorem conclude_recording : (weaver.recording traces).conclude calling = weaver.conclude calling := by
  have exit : (weaver.recording traces).runExit calling = weaver.runExit calling := by
    funext activation value
    rw [runExit, runExit, runAfter_recording]
  have observe : (weaver.recording traces).observeFault calling = weaver.observeFault calling := by
    funext activation
    rw [observeFault, observeFault, runAfter_recording]
  funext activation verdict
  cases verdict <;> simp only [conclude, exit, observe] <;> rfl

theorem bindParams_recording :
    (weaver.recording traces).bindParams calling = weaver.bindParams calling := by
  funext member this bound params
  induction params generalizing bound with
  | nil => rfl
  | cons first rest ih =>
    rw [bindParams, bindParams]
    exact bind_congr fun value => ih (bound ++ [value])

theorem runMember_recording : (weaver.recording traces).runMember calling = weaver.runMember calling := by
  have run : (weaver.recording traces).run calling = weaver.run calling := by
    funext activation
    rw [Weaver.run, Weaver.run, conclude_recording, runInside_recording]
  have select : (weaver.recording traces).registry.select = weaver.registry.select := rfl
  funext member classified call
  simp only [runMember, run, bindParams_recording, select]

theorem invokeWithin_recording (room : Nat) :
    (weaver.recording traces).invokeWithin room = weaver.invokeWithin room := by
  induction room with
  | zero => rfl
  | succ room ih =>
    funext caller call
    rw [invokeWithin, invokeWithin, ih]
    refine bind_congr fun member => ?_
    rw [activate, activate, runMember_recording]
    rfl

/-- No invocation looks at whether its chain is traced. -/
theorem invoke_recording : (weaver.recording traces).invoke = weaver.invoke := by
  unfold invoke
  simp only [invokeWithin_recording]
  rfl

end Settings

/-! ## Transparency -/

/-- On a chain that is traced, calls record the same events behind whatever was recorded before. -/
theorem invokeAll_withHistory (weaver : Weaver) (calls : List (Caller × Call)) {machine : Machine}
    (traces : machine.chain.tracing = true) :
    ∃ results events, ∀ earlier : List Event,
      ((weaver.invokeAll calls).run (machine.withHistory earlier)).1 = results ∧
        ((weaver.invokeAll calls).run (machine.withHistory earlier)).2.chain.trace =
          earlier.reverse ++ events := by
  -- a run on a chain without history shows what is recorded on any other
  let blank := (weaver.invokeAll calls).run (machine.withHistory [])
  refine ⟨blank.1, blank.2.chain.trace, fun earlier => ?_⟩
  obtain ⟨same, bonded⟩ := weaver.invokeAll_recorded (machine.withHistory earlier) (machine.withHistory [])
    calls _ _ (.refl rfl rfl rfl)
  obtain ⟨events, onEarlier, onNothing⟩ := bonded.history
  have kept (history : List Event) : (machine.withHistory history).chain.kept events = events :=
    if_pos traces
  refine ⟨same, ?_⟩
  rw [Chain.trace, Chain.trace, onEarlier, onNothing, kept, kept, List.reverse_append, List.reverse_append]
  rfl

/-- **Tracing is transparent.** Two settings that differ only in whether chains are traced: whatever members are
called one after the other on a chain of their own, by whomever, the results, the output, the frames and the
objects are the same under both, and without tracing no trace is left. With tracing, the events that calls
record on a chain, in whatever state it is, are put behind those recorded before and do not depend on them. -/
theorem invokeAll_recording (weaver : Weaver) (shared : Shared) (calls : List (Caller × Call)) :
    let (results, traced) :=
      ((weaver.recording true).invokeAll calls).run ⟨shared, (weaver.recording true).chain⟩
    let (others, silent) :=
      ((weaver.recording false).invokeAll calls).run ⟨shared, (weaver.recording false).chain⟩
    results = others ∧ traced.output = silent.output ∧ traced.chain.frames = silent.chain.frames ∧
      traced.nextObject = silent.nextObject ∧ silent.chain.trace = [] ∧
      ∀ machine : Machine, machine.chain.tracing = true → ∀ later : List (Caller × Call),
        ∃ results events, ∀ earlier : List Event,
          let (others, after) := ((weaver.recording true).invokeAll later).run (machine.withHistory earlier)
          others = results ∧ after.chain.trace = earlier.reverse ++ events := by
  have same (traces : Bool) : (weaver.recording traces).invokeAll = weaver.invokeAll := by
    unfold invokeAll
    rw [invoke_recording]
  rw [same, same]
  obtain ⟨results, bonded⟩ := weaver.invokeAll_recorded ⟨shared, (weaver.recording true).chain⟩
    ⟨shared, (weaver.recording false).chain⟩ calls _ _ (.refl rfl rfl rfl)
  obtain ⟨events, -, nothing⟩ := bonded.history
  exact ⟨results, congrArg Shared.output bonded.shared, bonded.frames,
    congrArg Shared.nextObject bonded.shared, congrArg List.reverse nothing,
    fun machine traces later => weaver.invokeAll_withHistory later traces⟩

end Weaver

end Weaving
