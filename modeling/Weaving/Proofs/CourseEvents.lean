import Weaving.Proofs.Policy
import Weaving.Proofs.Segments

/-!
Courses in the trace. Every step of the course of an activation begins with the event of its advice. On a chain
that is traced the activation records these events in the order of the steps; whatever else it records is no
advice of its own, but events of other kinds and the segments of the calls that its code makes
(`Weaver.watch_recorded`).
-/

namespace Weaving

variable {α β : Type}

namespace Weaver

variable (weaver : Weaver)

/-! ## Events of steps -/

/-- The events with which steps of advice at a site begin. -/
def stepEvents (site : Site) (steps : List AdviceStep) : List Event :=
  steps.filterMap fun step =>
    (weaver.registry.pointcut? step.pointcut).map fun pointcut => .advice pointcut.id pointcut.advice site

/-- The events of the steps at explicit join points. -/
def pointEvents (member : MemberId) (runs : List PointRun) : List Event :=
  runs.flatMap fun run => weaver.stepEvents (.point member run.arrival.index) run.steps

/-- The events of the steps of a body, first before the join points that it came to and then behind them. -/
def bodyEvents (member : MemberId) (body : BodyRun) : List Event :=
  weaver.pointEvents member body.visits.reverse ++ weaver.pointEvents member body.behind

/-- The events with which the steps of a course begin, in the order of the steps. -/
def courseEvents (member : MemberId) (course : Course) : List Event :=
  weaver.stepEvents (.entry member) course.entry ++ (course.body.map (weaver.bodyEvents member)).getD [] ++
    weaver.stepEvents (.exit member) (course.exit.getD [])

@[simp]
theorem stepEvents_nil (site : Site) : weaver.stepEvents site [] = [] := rfl

@[simp]
theorem stepEvents_append (site : Site) (first second : List AdviceStep) :
    weaver.stepEvents site (first ++ second) = weaver.stepEvents site first ++ weaver.stepEvents site second :=
  List.filterMap_append

@[simp]
theorem pointEvents_nil (member : MemberId) : weaver.pointEvents member [] = [] := rfl

@[simp]
theorem pointEvents_append (member : MemberId) (first second : List PointRun) :
    weaver.pointEvents member (first ++ second) =
      weaver.pointEvents member first ++ weaver.pointEvents member second :=
  List.flatMap_append

@[simp]
theorem pointEvents_cons (member : MemberId) (run : PointRun) (runs : List PointRun) :
    weaver.pointEvents member (run :: runs) =
      weaver.stepEvents (.point member run.arrival.index) run.steps ++ weaver.pointEvents member runs :=
  List.flatMap_cons

/-! ## Events of activations -/

/-- An activation has recorded these events of its own advice, in this order, and all in all those: between the
events of its advice there are only events of other kinds, and the segments of calls. -/
inductive Recounts : List Event → List Event → Prop
  | start : Recounts [] []
  | advice {own all : List Event} (event : Event) (recounts : Recounts own all) :
    Recounts (own ++ [event]) (all ++ [event])
  | other {own all : List Event} {event : Event} (plain : event.startedAdvice? = none)
      (recounts : Recounts own all) : Recounts own (all ++ [event])
  | call {own all segment : List Event} {machine : Machine} {caller : Caller} {call : Call}
      {result : Except Fault Value} (isSegment : Segment weaver machine caller call result segment)
      (recounts : Recounts own all) : Recounts own (all ++ segment)

/-- The machine is traced, and behind what its trace began with an activation has recorded these events of its
own advice. -/
structure Logged (begun own : List Event) (machine : Machine) : Prop where
  tracing : machine.chain.tracing = true
  trace : ∃ events, machine.chain.trace = begun ++ events ∧ weaver.Recounts own events

/-- Work before which an activation has recorded some events of its advice, and after which others, depending on
what the work has come to. -/
def Continues (begun own : List Event) (reached : α → List Event) (work : Execution α) : Prop :=
  ∀ machine, weaver.Logged begun own machine →
    weaver.Logged begun (reached (work.run machine).1) (work.run machine).2

variable {weaver} {begun own : List Event} {reached : α → List Event}

theorem Logged.record_advice {machine : Machine} (logged : weaver.Logged begun own machine)
    (event : Event) : weaver.Logged begun (own ++ [event]) (machine.record event) := by
  obtain ⟨tracing, events, trace, recounts⟩ := logged
  refine ⟨(machine.chain.tracing_record event).trans tracing, events ++ [event], ?_, .advice event recounts⟩
  rw [← List.append_assoc, ← trace]
  exact Chain.trace_record tracing event

theorem Logged.record_other {machine : Machine} (logged : weaver.Logged begun own machine)
    {event : Event} (plain : event.startedAdvice? = none) :
    weaver.Logged begun own (machine.record event) := by
  obtain ⟨tracing, events, trace, recounts⟩ := logged
  refine ⟨(machine.chain.tracing_record event).trans tracing, events ++ [event], ?_, .other plain recounts⟩
  rw [← List.append_assoc, ← trace]
  exact Chain.trace_record tracing event

namespace Continues

theorem pure {a : α} (same : reached a = own) : weaver.Continues begun own reached (pure a) := by
  intro machine logged
  change weaver.Logged begun (reached a) machine
  rwa [same]

theorem bind {other : β → List Event} {work : Execution α} {rest : α → Execution β}
    (start : weaver.Continues begun own reached work)
    (each : ∀ a, weaver.Continues begun (reached a) other (rest a)) :
    weaver.Continues begun own other (work >>= rest) := by
  intro machine logged
  rw [Execution.run_bind]
  exact each _ _ (start machine logged)

/-- What leaves the trace alone continues nothing. -/
theorem of_silent {work : Execution α}
    (silent : ∀ machine, (work.run machine).2.chain.tracing = machine.chain.tracing ∧
      (work.run machine).2.chain.trace = machine.chain.trace) :
    weaver.Continues begun own (fun _ => own) work := by
  intro machine logged
  obtain ⟨tracing, trace⟩ := silent machine
  exact ⟨tracing.trans logged.tracing, by rw [trace]; exact logged.trace⟩

theorem emit (line : String) : weaver.Continues begun own (fun _ => own) (Execution.emit line) :=
  of_silent fun _ => ⟨rfl, rfl⟩

theorem chain : weaver.Continues begun own (fun _ => own) Execution.chain := of_silent fun _ => ⟨rfl, rfl⟩

theorem allocate (type : TypeId) : weaver.Continues begun own (fun _ => own) (Execution.allocate type) :=
  of_silent fun _ => ⟨rfl, rfl⟩

theorem cancel : weaver.Continues begun own (fun _ => own) (Execution.onChain Chain.cancel) :=
  of_silent fun _ => ⟨rfl, rfl⟩

end Continues

theorem continues_call (prompt : weaver.Prompt) (caller : Caller) (call : Call) :
    weaver.Continues begun own (fun _ => own) (weaver.invoke caller call).run := by
  rintro machine ⟨tracing, events, trace, recounts⟩
  obtain ⟨segment, extended, isSegment, -⟩ := weaver.callsHaveSegments prompt machine tracing caller call
  refine ⟨extended.tracing, events ++ segment, ?_, .call isSegment recounts⟩
  rw [← List.append_assoc, ← trace]
  exact extended.trace

/-! ## Advice -/

variable (prompt : weaver.Prompt)
include prompt

/-- The body of advice has no advice of its own. -/
theorem perform_refuse_continues (context : Context) (caller : Caller) (action : Action α) (visits : Visits) :
    weaver.Continues begun own (fun _ => own)
      ((Activity.perform (weaver.invoke caller) (Activity.refuse context) action).run visits) := by
  induction action generalizing visits with
  | done result => exact Continues.pure rfl
  | emit line next ih => exact (Continues.emit line).bind fun _ => ih visits
  | relation next ih => exact Continues.chain.bind fun chain => ih chain.current visits
  | call request next ih => exact (continues_call prompt caller request).bind fun result => ih result visits
  | join name args next ih => exact ih _ visits
  | allocate type next ih => exact (Continues.allocate type).bind fun object => ih object visits
  | poll next ih => exact Continues.chain.bind fun chain => ih chain.cancelled visits
  | cancel next ih => exact Continues.cancel.bind fun _ => ih visits

theorem runAdviceBody_continues (pointcut : PointcutEntry) (point : JoinPoint) (result : Option Value) :
    weaver.Continues begun own (fun _ => own) (weaver.runAdviceBody weaver.invoke pointcut point result) :=
  fun machine => perform_refuse_continues prompt _ _ _ {} machine

omit prompt in
theorem adviceReturn_continues (pointcut : PointcutEntry) (site : Site) (ending : Ending) :
    weaver.Continues begun own (fun _ => own) (adviceReturn pointcut site ending).run := by
  have gives (value : Value) : weaver.Continues begun own (fun _ => own)
      (do if pointcut.returns.isNone then throw (.illegalAdviceReturn pointcut.source)
          Execution.record (.shortCircuit pointcut.id site)
          pure (some value) : Attempt (Option Value)).run := by
    cases pointcut.returns.isNone with
    | true => exact Continues.pure rfl
    | false => exact fun machine logged => logged.record_other rfl
  match ending with
  | .ok .next => exact Continues.pure rfl
  | .ok (.give value) => exact gives value
  | .error (.give value) => exact gives value
  | .error (.fault fault) => exact Continues.pure rfl

theorem watchAdvice_continues (point : JoinPoint) (result : Option Value) (id : PointcutId) :
    weaver.Continues begun own (fun reached => own ++ weaver.stepEvents point.site reached.1)
      (weaver.watchAdvice weaver.invoke point result id) := by
  intro machine logged
  change weaver.Logged begun (own ++ weaver.stepEvents point.site (if (!machine.chain.cancelled &&
      (weaver.registry.pointcut? id).isSome) = true then
        [⟨id, ((weaver.runAdvice weaver.invoke point result id).run.run machine).1⟩] else []))
    ((weaver.runAdvice weaver.invoke point result id).run.run machine).2
  cases cancelled : machine.chain.cancelled with
  | true =>
    rw [run_runAdvice_of_cancelled _ _ cancelled]
    simpa using logged
  | false =>
    cases known : weaver.registry.pointcut? id with
    | none =>
      have nothing : (weaver.runAdvice weaver.invoke point result id).run.run machine = (.ok none, machine) := by
        change (if machine.chain.cancelled = true then _ else _ : Attempt (Option Value)).run.run machine = _
        rw [cancelled, known]
        rfl
      rw [nothing]
      simpa using logged
    | some pointcut =>
      have begins := logged.record_advice (.advice pointcut.id pointcut.advice point.site)
      have ran := runAdviceBody_continues prompt pointcut point result _ begins
      have events (ending : Except Fault (Option Value)) :
          weaver.stepEvents point.site [⟨id, ending⟩] = [.advice pointcut.id pointcut.advice point.site] := by
        simp [stepEvents, known]
      rw [run_runAdvice_of_known _ _ cancelled known]
      simp only [Bool.not_false, Option.isSome_some, Bool.and_self, if_true, events]
      exact adviceReturn_continues pointcut point.site _ _ ran

theorem watchList_continues (point : JoinPoint) (result : Option Value) (ids : List PointcutId) :
    weaver.Continues begun own (fun reached => own ++ weaver.stepEvents point.site reached.1)
      (weaver.watchList weaver.invoke point result ids) := by
  induction ids generalizing own with
  | nil => exact Continues.pure (List.append_nil _)
  | cons id ids ih =>
    refine (watchAdvice_continues prompt point result id).bind fun (step, ending) => ?_
    match ending with
    | .ok none => exact ih.bind fun (steps, ending) => Continues.pure (by simp)
    | .ok (some value) => exact Continues.pure rfl
    | .error fault => exact Continues.pure rfl

/-! ## Activations -/

namespace Watched

/-- Work in a body continues an account with what it has put on the account of its arrivals. -/
def Continues (weaver : Weaver) (begun front : List Event) (member : MemberId) (work : Watched α) : Prop :=
  ∀ account visits, weaver.Continues begun (front ++ weaver.pointEvents member account.reverse)
    (fun reached => front ++ weaver.pointEvents member reached.1.2.reverse) ((work.run account).run visits)

variable {front : List Event} {member : MemberId}

omit prompt in
theorem Continues.bind {work : Watched α} {rest : α → Watched β} (start : Continues weaver begun front member work)
    (each : ∀ a, Continues weaver begun front member (rest a)) :
    Continues weaver begun front member (work >>= rest) := by
  intro account visits
  change weaver.Continues begun _ _ ((work.run account).run visits >>= fun reached =>
    ((rest reached.1.1).run reached.1.2).run reached.2)
  exact (start account visits).bind fun reached => each reached.1.1 reached.1.2 reached.2

omit prompt in
/-- What the machine is asked for leaves the account alone. -/
theorem continues_ask {account : List PointRun} {visits : Visits} {work : Execution α} {rest : α → Watched β}
    {other : (β × List PointRun) × Visits → List Event} (first : weaver.Continues begun own reached work)
    (each : ∀ a, weaver.Continues begun (reached a) other (((rest a).run account).run visits)) :
    weaver.Continues begun own other (((liftM work >>= rest : Watched β).run account).run visits) := by
  change weaver.Continues begun own other (work >>= fun a => ((rest a).run account).run visits)
  exact first.bind each

omit prompt in
theorem Continues.ask {work : Execution α} {rest : α → Watched β}
    (still : ∀ own, weaver.Continues begun own (fun _ => own) work)
    (each : ∀ a, Continues weaver begun front member (rest a)) :
    Continues weaver begun front member (liftM work >>= rest) :=
  fun account visits => continues_ask (still _) fun a => each a account visits

end Watched

theorem watchArrive_continues (front : List Event) (context : Context) (name : String) (args : List Value) :
    Watched.Continues weaver begun front context.member (weaver.watchArrive weaver.invoke context name args) := by
  unfold watchArrive
  cases context.point? name with
  | none => exact fun account visits => Continues.pure rfl
  | some index =>
    intro account visits
    refine Watched.continues_ask (watchList_continues prompt _ none _) fun (steps, ending) => ?_
    match ending with
    | .ok none => exact Continues.pure (by simp)
    | .ok (some value) => exact Continues.pure (by simp)
    | .error fault => exact Continues.pure (by simp)

theorem perform_continues (front : List Event) (context : Context) (caller : Caller) (action : Action α) :
    Watched.Continues weaver begun front context.member
      (Activity.perform (weaver.invoke caller) (weaver.watchArrive weaver.invoke context) action) := by
  induction action with
  | done result => exact fun account visits => Continues.pure rfl
  | emit line next ih => exact Watched.Continues.ask (fun _ => Continues.emit line) fun _ => ih
  | relation next ih => exact Watched.Continues.ask (fun _ => Continues.chain) fun chain => ih chain.current
  | call request next ih => exact Watched.Continues.ask (fun _ => continues_call prompt caller request) ih
  | join name args next ih => exact (watchArrive_continues prompt front context name args).bind ih
  | allocate type next ih => exact Watched.Continues.ask (fun _ => Continues.allocate type) ih
  | poll next ih => exact Watched.Continues.ask (fun _ => Continues.chain) fun chain => ih chain.cancelled
  | cancel next ih => exact Watched.Continues.ask (fun _ => Continues.cancel) fun _ => ih

theorem watchSettle_continues (activation : Activation) (value : Value) (arrivals : List Arrival) :
    weaver.Continues begun own (fun reached => own ++ weaver.pointEvents activation.member.id reached.1)
      (weaver.watchSettle weaver.invoke activation value arrivals) := by
  induction arrivals generalizing own with
  | nil => exact Continues.pure (List.append_nil _)
  | cons arrival arrivals ih =>
    refine (watchList_continues prompt _ _ _).bind fun (steps, ending) => ?_
    match ending with
    | .ok none => exact ih.bind fun (behind, verdict) => Continues.pure (by simp [Activation.point])
    | .ok (some other) => exact Continues.pure (by simp [Activation.point])
    | .error fault => exact Continues.pure (by simp [Activation.point])

theorem watchJudge_continues (activation : Activation) (ending : Ending) (visits : Visits) :
    weaver.Continues begun own (fun reached => own ++ weaver.pointEvents activation.member.id reached.1)
      (weaver.watchJudge weaver.invoke activation ending visits) := by
  unfold watchJudge
  cases visits.returned with
  | some value => exact Continues.pure (List.append_nil _)
  | none =>
    cases ending.result with
    | ok value => exact watchSettle_continues prompt activation value visits.arrivals
    | error fault => exact Continues.pure (List.append_nil _)

theorem watchBody_continues (activation : Activation) :
    weaver.Continues begun own (fun reached => own ++ weaver.bodyEvents activation.member.id reached.1)
      (weaver.watchBody weaver.invoke activation) := by
  have start : own = own ++ weaver.pointEvents activation.member.id [].reverse := (List.append_nil own).symm
  rw [start]
  refine (perform_continues prompt own _ _ _ [] {}).bind fun ((ending, account), visits) => ?_
  exact (watchJudge_continues prompt activation ending visits).bind fun (behind, verdict) =>
    Continues.pure (by simp [bodyEvents])

theorem watchInside_continues (activation : Activation) :
    weaver.Continues begun own
      (fun reached => own ++ weaver.stepEvents (.entry activation.member.id) reached.1.1 ++
        (reached.1.2.map (weaver.bodyEvents activation.member.id)).getD [])
      (weaver.watchInside weaver.invoke activation) := by
  refine (watchList_continues prompt activation.entry none _).bind fun (entry, ending) => ?_
  match ending with
  | .ok none =>
    exact (watchBody_continues prompt activation).bind fun (body, verdict) => Continues.pure rfl
  | .ok (some value) => exact Continues.pure (List.append_nil _)
  | .error fault => exact Continues.pure (List.append_nil _)

theorem watchExit_continues (activation : Activation) (value : Value) :
    weaver.Continues begun own
      (fun reached => own ++ weaver.stepEvents (.exit activation.member.id) (reached.1.getD []))
      (weaver.watchExit weaver.invoke activation value) :=
  (watchList_continues prompt activation.exit _ _).bind fun _ => Continues.pure rfl

theorem watchFault_continues (activation : Activation) (fault : Fault) :
    weaver.Continues begun own
      (fun reached => own ++ weaver.stepEvents (.exit activation.member.id) (reached.1.getD []))
      (weaver.watchFault weaver.invoke activation fault) := by
  refine (watchList_continues prompt activation.exit _ _).bind fun (steps, ending) => ?_
  cases ending with
  | ok _ => exact Continues.pure rfl
  | error dropped => exact fun machine logged => logged.record_other rfl

theorem watchConclude_continues (activation : Activation) (verdict : Verdict) :
    weaver.Continues begun own
      (fun reached => own ++ weaver.stepEvents (.exit activation.member.id) (reached.1.getD []))
      (weaver.watchConclude weaver.invoke activation verdict) := by
  cases verdict with
  | completed value => exact watchExit_continues prompt activation value
  | returned value =>
    unfold watchConclude
    dsimp only
    split
    · exact watchExit_continues prompt activation value
    · exact Continues.pure (List.append_nil _)
  | failed fault ofBody =>
    unfold watchConclude
    dsimp only
    split
    · exact watchFault_continues prompt activation fault
    · exact Continues.pure (List.append_nil _)

theorem watch_continues (activation : Activation) :
    weaver.Continues begun own (fun reached => own ++ weaver.courseEvents activation.member.id reached.1)
      (weaver.watch weaver.invoke activation) := by
  refine (watchInside_continues prompt activation).bind fun ((entry, body), verdict) => ?_
  exact (watchConclude_continues prompt activation verdict).bind fun (exit, outcome) =>
    Continues.pure (by simp [courseEvents])

omit prompt

/-- **A course is in the trace.** In an accepted program of scripts, on a chain that is traced, what an activation
adds to the trace are the events of the steps of its course, in their order, and between them no advice of its own
but events of other kinds and whole segments of the calls that its code makes. -/
theorem watch_recorded {model : Model}
    (accepted : Program.build model.toDeclarations model.bindings = .ok weaver.toProgram)
    (activation : Activation) {machine : Machine} (tracing : machine.chain.tracing = true) :
    ∃ course outcome after events,
      (weaver.watch weaver.invoke activation).run machine = ((course, outcome), after) ∧
      (weaver.run weaver.invoke activation).run.run machine = (outcome, after) ∧
      after.chain.trace = machine.chain.trace ++ events ∧
      weaver.Recounts (weaver.courseEvents activation.member.id course) events := by
  have begins : weaver.Logged machine.chain.trace [] machine :=
    ⟨tracing, [], (List.append_nil _).symm, .start⟩
  obtain ⟨-, events, trace, recounts⟩ :=
    watch_continues (Program.prompt_of_build accepted) activation machine begins
  have erased := congrFun (weaver.watch_erases weaver.invoke activation) machine
  exact ⟨_, _, _, events, rfl, erased.symm, trace, recounts⟩

end Weaver

end Weaving
