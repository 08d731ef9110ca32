import Weaving.Proofs.Courses
import Weaving.Proofs.Planning
import Weaving.Proofs.Scripts

/-!
Passages through explicit join points. The script of a member goes its way step by step, and where it comes to
an explicit join point the advice before it runs there and then. What runs behind the join points is one list:
the advice for the last arrival, then that for the one before it and so on, each piece on an occasion of its
own with the arguments of the arrival and the value of the body. It runs if the body has come to its end with
a value, and it ends for good with the first piece that returns or faults (`Weaver.runBody_passes`).
-/

namespace Weaving

variable {α β : Type}

/-! ## What happens -/

/-- A piece of advice with the join point that it is run for, and the result there if it runs behind it. -/
structure Occasion where
  pointcut : PointcutId
  point : JoinPoint
  result : Option Value

/-- What the end of a body means by itself. -/
def Verdict.ofEnding (ending : Ending) : Verdict :=
  match ending.result with
  | .ok value => .completed value
  | .error fault => .failed fault true

/-- What becomes of the value of a body by the advice behind its join points. -/
def Verdict.behind (value : Value) : Except Fault (Option Value) → Verdict
  | .ok none => .completed value
  | .ok (some other) => .returned other
  | .error fault => .failed fault false

namespace Weaver

variable (weaver : Weaver) (calling : Calling)

/-- What the body of advice knows on an occasion. -/
def outlook (pointcut : PointcutEntry) (occasion : Occasion) : Context where
  registry := weaver.registry
  role := .advice pointcut.id occasion.point.site
  member := occasion.point.site.member
  this := occasion.point.this
  args := occasion.point.args
  result := occasion.result

/-- A piece of advice runs once it has been recorded, and the end of its body says what it comes to. -/
inductive Advised (occasion : Occasion) (machine : Machine) : Except Fault (Option Value) → Machine → Prop
  | runs {pointcut : PointcutEntry} {ending : Ending} {between after : Machine}
      {stop : Except Fault (Option Value)}
      (known : weaver.registry.pointcut? occasion.pointcut = some pointcut)
      (body : StateT.run ((Activity.perform (calling (weaver.registry.adviceCaller pointcut.owner))
          (Activity.refuse (weaver.outlook pointcut occasion))
          (weaver.body pointcut.body (weaver.outlook pointcut occasion))).run' {})
        (machine.record (.advice pointcut.id pointcut.advice occasion.point.site)) = (ending, between))
      (means : (adviceReturn pointcut occasion.point.site ending).run.run between = (stop, after)) :
      Advised occasion machine stop after

/-- Advice runs on its occasions in order. The first piece that returns or faults is the last to run. -/
inductive Heard : List Occasion → Machine → Except Fault (Option Value) → Machine → Prop
  | nothing {machine : Machine} : Heard [] machine (.ok none) machine
  | passed {occasion : Occasion} {occasions : List Occasion} {machine between after : Machine}
      {stop : Except Fault (Option Value)}
      (advice : weaver.Advised calling occasion machine (.ok none) between)
      (rest : Heard occasions between stop after) : Heard (occasion :: occasions) machine stop after
  | stopped {occasion : Occasion} {occasions : List Occasion} {machine after : Machine}
      {stop : Except Fault (Option Value)} (advice : weaver.Advised calling occasion machine stop after)
      (stops : stop ≠ .ok none) : Heard (occasion :: occasions) machine stop after

/-- The advice before an explicit join point on an arrival there. -/
def ahead (activation : Activation) (arrival : Arrival) : List Occasion :=
  (weaver.pointPlan activation.member.id arrival.index).before.map
    fun id => ⟨id, activation.point arrival, none⟩

/-- The advice behind an explicit join point, for an arrival there and the value of the body. -/
def behind (activation : Activation) (value : Value) (arrival : Arrival) : List Occasion :=
  (weaver.pointPlan activation.member.id arrival.index).after.map
    fun id => ⟨id, activation.point arrival, some value⟩

/-- What the body of an activation knows. -/
def ownContext (activation : Activation) : Context where
  registry := weaver.registry
  role := .member
  member := activation.member.id
  this := activation.this
  args := activation.args

/-- A body does something other than come to an explicit join point of its member. -/
inductive Strides (activation : Activation) : Action Ending → Machine → Action Ending → Machine → Prop
  | emit {line : String} {next : Action Ending} {machine : Machine} :
      Strides activation (.emit line next) machine next ((Execution.emit line).run machine).2
  | relation {next : RelationClass → Action Ending} {machine : Machine} :
      Strides activation (.relation next) machine (next machine.chain.current) machine
  | call {request : Call} {next : Except Fault Value → Action Ending} {machine after : Machine}
      {result : Except Fault Value}
      (called : (calling (weaver.registry.callerInMember activation.member.id activation.this)
        request).run.run machine = (result, after)) :
      Strides activation (.call request next) machine (next result) after
  | allocate {type : TypeId} {next : ObjectRef → Action Ending} {machine after : Machine} {object : ObjectRef}
      (allocated : (Execution.allocate type).run machine = (object, after)) :
      Strides activation (.allocate type next) machine (next object) after
  | poll {next : Bool → Action Ending} {machine : Machine} :
      Strides activation (.poll next) machine (next machine.chain.cancelled) machine
  | undeclared {name : String} {args : List Value} {next : Except Interrupt Unit → Action Ending}
      {machine : Machine} (unknown : (weaver.ownContext activation).point? name = none) :
      Strides activation (.join name args next) machine
        (next (.error (.fault (.undeclaredJoinPoint (weaver.ownContext activation).ownerName name)))) machine

/-- The way of a body to its end, with its arrivals at explicit join points in order. It goes on from an
arrival if all advice there falls through, and otherwise this is the end. -/
inductive Walks (activation : Activation) :
    Action Ending → Machine → List Arrival → Verdict → Machine → Prop
  | ended {ending : Ending} {machine : Machine} :
      Walks activation (.done ending) machine [] (.ofEnding ending) machine
  | strode {action next : Action Ending} {machine between after : Machine} {arrivals : List Arrival}
      {verdict : Verdict} (stride : weaver.Strides calling activation action machine next between)
      (rest : Walks activation next between arrivals verdict after) :
      Walks activation action machine arrivals verdict after
  | passed {name : String} {args : List Value} {next : Except Interrupt Unit → Action Ending} {index : Nat}
      {machine between after : Machine} {arrivals : List Arrival} {verdict : Verdict}
      (known : (weaver.ownContext activation).point? name = some index)
      (before : weaver.Heard calling (weaver.ahead activation ⟨index, args⟩) machine (.ok none) between)
      (rest : Walks activation (next (.ok ())) between arrivals verdict after) :
      Walks activation (.join name args next) machine (⟨index, args⟩ :: arrivals) verdict after
  | returned {name : String} {args : List Value} {next : Except Interrupt Unit → Action Ending} {index : Nat}
      {machine after : Machine} {value : Value}
      (known : (weaver.ownContext activation).point? name = some index)
      (before : weaver.Heard calling (weaver.ahead activation ⟨index, args⟩) machine (.ok (some value))
        after) :
      Walks activation (.join name args next) machine [⟨index, args⟩] (.returned value) after
  | faulted {name : String} {args : List Value} {next : Except Interrupt Unit → Action Ending} {index : Nat}
      {machine after : Machine} {fault : Fault}
      (known : (weaver.ownContext activation).point? name = some index)
      (before : weaver.Heard calling (weaver.ahead activation ⟨index, args⟩) machine (.error fault) after) :
      Walks activation (.join name args next) machine [⟨index, args⟩] (.failed fault false) after

end Weaver

/-! ## Chains that stay cancelled -/

/-- Work that agrees with itself on cancelled chains does not take back that they are cancelled: a chain that
is not cancelled afterwards has not been before. -/
theorem Execution.Agree.going {work : Execution α} (agree : Agree (Bond.flagged true) work work)
    {machine after : Machine} {a : α} (ran : work.run machine = (a, after))
    (going : after.chain.cancelled = false) : machine.chain.cancelled = false := by
  cases before : machine.chain.cancelled with
  | false => rfl
  | true =>
    obtain ⟨-, -, still⟩ := agree machine machine ⟨rfl, before⟩
    rw [ran, going] at still
    cases still

namespace Weaver

variable {weaver : Weaver} {calling : Calling}

theorem bodies_stay_cancelled (weaver : Weaver) : weaver.BodiesAgree (Bond.flagged true) weaver.bodies :=
  fun id context _ _ _ _ hosts =>
    Activity.perform_agree (Bond.flagged_kept true) hosts (weaver.body id context)
      (Or.inr fun _ _ bonded => ⟨by rw [bonded.1], rfl⟩)

theorem code_stays_cancelled (weaver : Weaver) :
    weaver.CodeAgrees (Bond.flagged true) weaver.registry.plans weaver.bodies :=
  (bodies_stay_cancelled weaver).code (Bond.flagged_kept true)

theorem calls_stay_cancelled (weaver : Weaver) (room : Nat) :
    CallsAgree (Bond.flagged true) (weaver.invokeWithin room) (weaver.invokeWithin room) :=
  invokeWithin_agree (flagged_nested true) (fun _ => code_stays_cancelled weaver) room ()

/-! ## Advice in order -/

theorem Heard.append {first second : List Occasion} {machine between after : Machine}
    {stop : Except Fault (Option Value)} (one : weaver.Heard calling first machine (.ok none) between)
    (other : weaver.Heard calling second between stop after) :
    weaver.Heard calling (first ++ second) machine stop after := by
  generalize ends : Except.ok none = falls at one
  induction one with
  | nothing => exact other
  | passed advice _ ih => exact .passed advice (ih other ends)
  | stopped _ stops => exact absurd ends.symm stops

/-- What stops some advice keeps all that would run behind it from running. -/
theorem Heard.cut {first : List Occasion} {machine after : Machine} {stop : Except Fault (Option Value)}
    (one : weaver.Heard calling first machine stop after) (stops : stop ≠ .ok none)
    (second : List Occasion) : weaver.Heard calling (first ++ second) machine stop after := by
  induction one with
  | nothing => exact absurd rfl stops
  | passed advice _ ih => exact .passed advice (ih stops)
  | stopped advice stops => exact .stopped advice stops

theorem advised_of_runAdvice {occasion : Occasion}
    (known : (weaver.registry.pointcut? occasion.pointcut).isSome = true) {machine after : Machine}
    {stop : Except Fault (Option Value)} (begins : machine.chain.cancelled = false)
    (ran : (weaver.runAdvice calling occasion.point occasion.result occasion.pointcut).run.run machine =
      (stop, after)) :
    weaver.Advised calling occasion machine stop after := by
  obtain ⟨pointcut, found⟩ := Option.isSome_iff_exists.mp known
  exact .runs found rfl ((run_runAdvice_of_known weaver calling begins found).symm.trans ran)

section Running

variable (calls : CallsAgree (Bond.flagged true) calling calling)
include calls

/-- Advice has run on its occasions if the chain is not cancelled by the end. -/
theorem heard_of_runAdviceList {point : JoinPoint} {result : Option Value} {ids : List PointcutId}
    (known : ∀ id ∈ ids, (weaver.registry.pointcut? id).isSome = true) {machine after : Machine}
    {stop : Except Fault (Option Value)}
    (ran : (weaver.runAdviceList calling point result ids).run.run machine = (stop, after))
    (going : after.chain.cancelled = false) :
    weaver.Heard calling (ids.map (⟨·, point, result⟩)) machine stop after := by
  induction ids generalizing machine with
  | nil =>
    cases ran
    exact .nothing
  | cons id ids ih =>
    obtain ⟨first, others⟩ := List.forall_mem_cons.mp known
    have each := runAdvice_agree (Bond.flagged_kept true) (bodies_stay_cancelled weaver) calls point result
    have begins := (runAdviceList_agree_of_each each (id :: ids)).going ran going
    cases one : (weaver.runAdvice calling point result id).run.run machine with
    | mk ended between =>
      have advice : weaver.Advised calling ⟨id, point, result⟩ machine ended between :=
        advised_of_runAdvice first begins one
      rw [runAdviceList, Attempt.run_bind, one] at ran
      match ended with
      | .ok none => exact .passed advice (ih others ran)
      | .ok (some value) =>
        cases ran
        exact .stopped advice nofun
      | .error fault =>
        cases ran
        exact .stopped advice nofun

variable (known : ∀ site, ∀ id ∈ (weaver.registry.plan site).all, (weaver.registry.pointcut? id).isSome = true)
  (activation : Activation)
include known

theorem heard_of_runBefore {arrival : Arrival} {machine after : Machine} {stop : Except Fault (Option Value)}
    (ran : (weaver.runBefore calling (activation.point arrival)).run.run machine = (stop, after))
    (going : after.chain.cancelled = false) :
    weaver.Heard calling (weaver.ahead activation arrival) machine stop after :=
  heard_of_runAdviceList calls (fun id held => known _ id (List.mem_append_left _ held)) ran going

theorem heard_of_runAfter {value : Value} {arrival : Arrival} {machine after : Machine}
    {stop : Except Fault (Option Value)}
    (ran : (weaver.runAfter calling (activation.point arrival) value).run.run machine = (stop, after))
    (going : after.chain.cancelled = false) :
    weaver.Heard calling (weaver.behind activation value arrival) machine stop after :=
  heard_of_runAdviceList calls (fun id held => known _ id (List.mem_append_right _ held)) ran going

/-- The advice behind all arrivals runs as one list. -/
theorem heard_of_settle {value : Value} {arrivals : List Arrival} {machine after : Machine} {verdict : Verdict}
    (ran : (weaver.settle calling activation value arrivals).run machine = (verdict, after))
    (going : after.chain.cancelled = false) :
    ∃ stop, verdict = .behind value stop ∧
      weaver.Heard calling (arrivals.flatMap (weaver.behind activation value)) machine stop after := by
  induction arrivals generalizing machine with
  | nil =>
    cases ran
    exact ⟨.ok none, rfl, .nothing⟩
  | cons arrival arrivals ih =>
    cases one : (weaver.runAfter calling (activation.point arrival) value).run.run machine with
    | mk ended between =>
      rw [settle, Execution.run_bind, one] at ran
      rw [List.flatMap_cons]
      have heard := heard_of_runAfter calls known activation one
      match ended with
      | .ok none =>
        have onward :=
          (settle_agree (code_stays_cancelled weaver) calls activation value arrivals).going ran going
        obtain ⟨stop, comes, rest⟩ := ih ran
        exact ⟨stop, comes, (heard onward).append rest⟩
      | .ok (some other) =>
        cases ran
        exact ⟨.ok (some other), rfl, (heard going).cut nofun _⟩
      | .error fault =>
        cases ran
        exact ⟨.error fault, rfl, (heard going).cut nofun _⟩

end Running

/-! ## Bodies on their way -/

/-- What an arrival is answered when the advice before the join point has run. -/
def answer : Except Fault (Option Value) → Except Interrupt Unit
  | .ok none => .ok ()
  | .ok (some value) => .error (.give value)
  | .error fault => .error (.fault fault)

/-- What is kept of an arrival when the advice before the join point has run. -/
def noted (visits : Visits) (arrival : Arrival) : Except Fault (Option Value) → Visits
  | .ok none => { visits with arrivals := arrival :: visits.arrivals }
  | .ok (some value) => { visits with returned := some value }
  | .error fault => { visits with fault := some fault }

variable (weaver calling) in
/-- The work of a body. -/
def perform (activation : Activation) (action : Action Ending) : Activity Ending :=
  Activity.perform (calling (weaver.registry.callerInMember activation.member.id activation.this))
    (weaver.arrive calling (weaver.ownContext activation)) action

variable (weaver calling) in
/-- What is left to do for a verdict on a body: the advice behind its join points if it has a value. -/
def await (activation : Activation) (arrivals : List Arrival) : Verdict → Execution Verdict
  | .completed value => weaver.settle calling activation value arrivals
  | .returned value => pure (.returned value)
  | .failed fault ofBody => pure (.failed fault ofBody)

variable (weaver calling) in
/-- A body has gone some way to its end, and what its join points have brought about is judged accordingly. -/
def Accounted (activation : Activation) (action : Action Ending) (visits : Visits) (machine : Machine)
    (ending : Ending) (visited : Visits) (after : Machine) : Prop :=
  ∃ arrivals verdict, weaver.Walks calling activation action machine arrivals verdict after ∧
    weaver.judge calling activation ending visited =
      weaver.await calling activation (arrivals.reverse ++ visits.arrivals) verdict

section Walking

variable {activation : Activation} {visits visited : Visits} {machine after : Machine} {ending : Ending}

theorem Accounted.of_stride {action next : Action Ending} {between : Machine}
    (stride : weaver.Strides calling activation action machine next between)
    (rest : weaver.Accounted calling activation next visits between ending visited after) :
    weaver.Accounted calling activation action visits machine ending visited after := by
  obtain ⟨arrivals, verdict, walks, judged⟩ := rest
  exact ⟨arrivals, verdict, .strode stride walks, judged⟩

theorem Accounted.of_done (returned : visits.returned = none) (fault : visits.fault = none) :
    weaver.Accounted calling activation (.done ending) visits machine ending visits machine := by
  refine ⟨[], _, .ended, ?_⟩
  rw [judge, returned, fault, Verdict.ofEnding]
  cases ending.result <;> rfl

theorem run_lift_bind (work : Execution α) (next : α → Activity β) :
    ((liftM work >>= next : Activity β).run visits).run machine =
      ((next (work.run machine).1).run visits).run (work.run machine).2 := rfl

section Join

variable {name : String} {args : List Value} {next : Except Interrupt Unit → Action Ending}

theorem perform_join_of_unknown (unknown : (weaver.ownContext activation).point? name = none) :
    weaver.perform calling activation (.join name args next) = weaver.perform calling activation
      (next (.error (.fault (.undeclaredJoinPoint (weaver.ownContext activation).ownerName name)))) := by
  have refused : weaver.arrive calling (weaver.ownContext activation) name args =
      Activity.refuse (weaver.ownContext activation) name args := by
    unfold arrive
    rw [unknown]
  rw [perform, Activity.perform, refused]
  rfl

/-- At a join point that is declared the body is answered what the advice before it has come to. -/
theorem run_perform_join {index : Nat} {between : Machine} {stop : Except Fault (Option Value)}
    (known : (weaver.ownContext activation).point? name = some index)
    (ran : (weaver.runBefore calling (activation.point ⟨index, args⟩)).run.run machine = (stop, between)) :
    ((weaver.perform calling activation (.join name args next)).run visits).run machine =
      ((weaver.perform calling activation (next (answer stop))).run
        (noted visits ⟨index, args⟩ stop)).run between := by
  have asks : weaver.perform calling activation (.join name args next) =
      (weaver.arrive calling (weaver.ownContext activation) name args >>= fun answer =>
        weaver.perform calling activation (next answer)) := rfl
  have there : JoinPoint.mk (.point (weaver.ownContext activation).member index)
      (weaver.ownContext activation).this args = activation.point ⟨index, args⟩ := rfl
  rw [asks]
  unfold arrive
  rw [known]
  dsimp only
  rw [there, bind_assoc, run_lift_bind, ran]
  match stop with
  | .ok none => rfl
  | .ok (some value) => rfl
  | .error fault => rfl

end Join

variable (calls : CallsAgree (Bond.flagged true) calling calling)
include calls

theorem perform_stays_cancelled (activation : Activation) (action : Action Ending) :
    Activity.Agree (Bond.flagged true) (weaver.perform calling activation action)
      (weaver.perform calling activation action) :=
  Activity.perform_agree (Bond.flagged_kept true)
    (arrive_agree (code_stays_cancelled weaver) calls (weaver.ownContext activation) _)
    action (Or.inr fun _ _ bonded => ⟨by rw [bonded.1], rfl⟩)

variable (known : ∀ site, ∀ id ∈ (weaver.registry.plan site).all, (weaver.registry.pointcut? id).isSome = true)
include known

/-- From a join point a body goes on if all advice before it falls through, and otherwise this is its end. -/
theorem accounted_of_arrival {name : String} {args : List Value} {next : Except Interrupt Unit → Action Ending}
    {index : Nat} (declared : (weaver.ownContext activation).point? name = some index)
    (prompt : (Action.join name args next).Prompt)
    (onward : ∀ {visits machine}, visits.returned = none → visits.fault = none →
      ((weaver.perform calling activation (next (.ok ()))).run visits).run machine =
        ((ending, visited), after) →
      weaver.Accounted calling activation (next (.ok ())) visits machine ending visited after)
    (returned : visits.returned = none) (fault : visits.fault = none)
    (ran : ((weaver.perform calling activation (.join name args next)).run visits).run machine =
      ((ending, visited), after))
    (going : after.chain.cancelled = false) :
    weaver.Accounted calling activation (.join name args next) visits machine ending visited after := by
  cases one : (weaver.runBefore calling (activation.point ⟨index, args⟩)).run.run machine with
  | mk stop between =>
    rw [run_perform_join declared one] at ran
    have heard := heard_of_runBefore calls known activation one
    match stop with
    | .ok none =>
      have still := (perform_stays_cancelled calls activation (next (.ok ())) _).going ran going
      have kept : (noted visits ⟨index, args⟩ (.ok none)).returned = none := returned
      obtain ⟨arrivals, verdict, walks, judged⟩ := onward kept fault ran
      refine ⟨⟨index, args⟩ :: arrivals, verdict, .passed declared (heard still) walks, ?_⟩
      rw [judged, List.reverse_cons, List.append_assoc]
      rfl
    | .ok (some value) =>
      rw [answer, prompt.2] at ran
      cases ran
      exact ⟨[⟨index, args⟩], _, .returned declared (heard going), rfl⟩
    | .error stop =>
      rw [answer, prompt.2] at ran
      cases ran
      refine ⟨[⟨index, args⟩], _, .faulted declared (heard going), ?_⟩
      simp [judge, noted, returned, await, Ending.result]

/-- A body that stops where a join point stops it has gone its way if the chain is not cancelled by the end. -/
theorem accounted_of_perform {action : Action Ending} (prompt : action.Prompt)
    (returned : visits.returned = none) (fault : visits.fault = none)
    (ran : ((weaver.perform calling activation action).run visits).run machine = ((ending, visited), after))
    (going : after.chain.cancelled = false) :
    weaver.Accounted calling activation action visits machine ending visited after := by
  induction action generalizing visits machine with
  | done ending =>
    cases ran
    exact .of_done returned fault
  | emit line next ih => exact .of_stride .emit (ih prompt returned fault ran)
  | relation next ih => exact .of_stride .relation (ih _ (prompt _) returned fault ran)
  | call request next ih => exact .of_stride (.call rfl) (ih _ (prompt.after_call _) returned fault ran)
  | allocate type next ih => exact .of_stride (.allocate rfl) (ih _ (prompt _) returned fault ran)
  | poll next ih => exact .of_stride .poll (ih _ (prompt _) returned fault ran)
  | cancel next ih => exact prompt.elim
  | join name args next ih =>
    cases declared : (weaver.ownContext activation).point? name with
    | none =>
      rw [perform_join_of_unknown declared] at ran
      refine .of_stride (.undeclared declared) (ih _ ?_ returned fault ran)
      rw [prompt.2]
      trivial
    | some index =>
      exact accounted_of_arrival calls known declared prompt (ih _ prompt.1) returned fault ran going

end Walking

theorem run_runBody {activation : Activation} {machine between : Machine} {ending : Ending} {visited : Visits}
    (body : ((weaver.perform calling activation (weaver.body activation.body
      (weaver.ownContext activation))).run {}).run machine = ((ending, visited), between)) :
    (weaver.runBody calling activation).run machine =
      (weaver.judge calling activation ending visited).run between := by
  have whole : (weaver.runBody calling activation).run machine =
      let reached := ((weaver.perform calling activation
        (weaver.body activation.body (weaver.ownContext activation))).run {}).run machine
      (weaver.judge calling activation reached.1.1 reached.1.2).run reached.2 := rfl
  rw [whole, body]

/-- **Passages and what runs behind them.** In an accepted program the script of a member goes its way with the
advice before each explicit join point run on the arrival there, and no further than advice that returns or
faults. If it comes to its end with a value, the advice behind the join points runs from the last arrival back
to the first, oldest first at each, with the arguments of the arrival and this value, and up to the first piece
that returns or faults. Otherwise nothing more happens. This is so whatever else runs in between, with whatever
room there is for invocations inside, on a chain that is not cancelled by the end. -/
theorem runBody_passes {declared : Declarations} {bindings : Bindings}
    (accepted : Program.build declared bindings = .ok weaver.toProgram) (room : Nat) {activation : Activation}
    {script : Script} (scripted : weaver.body activation.body = Script.body script)
    {machine after : Machine} {outcome : Verdict}
    (ran : (weaver.runBody (weaver.invokeWithin room) activation).run machine = (outcome, after))
    (going : after.chain.cancelled = false) :
    ∃ arrivals verdict between,
      weaver.Walks (weaver.invokeWithin room) activation (Script.body script (weaver.ownContext activation))
        machine arrivals verdict between ∧
      (∀ value, verdict = .completed value → ∃ stop, outcome = .behind value stop ∧
        weaver.Heard (weaver.invokeWithin room) (arrivals.reverse.flatMap (weaver.behind activation value))
          between stop after) ∧
      ((∀ value, verdict ≠ .completed value) → outcome = verdict ∧ after = between) ∧
      ∀ index, (weaver.pointPlan activation.member.id index).after.Pairwise
        fun first second => first.index < second.index := by
  have registered := Program.registry_of_build accepted
  have known : ∀ site, ∀ id ∈ (weaver.registry.plan site).all,
      (weaver.registry.pointcut? id).isSome = true :=
    fun _ _ held => Registry.pointcut?_isSome_of_mem_plan registered held
  have calls := calls_stay_cancelled weaver room
  cases body : ((weaver.perform (weaver.invokeWithin room) activation
      (weaver.body activation.body (weaver.ownContext activation))).run {}).run machine with
  | mk reached between =>
    obtain ⟨ending, visited⟩ := reached
    rw [run_runBody body] at ran
    rw [scripted] at body
    have onward := (judge_agree (code_stays_cancelled weaver) calls activation ending visited).going ran going
    obtain ⟨arrivals, verdict, walks, judged⟩ := accounted_of_perform calls known
      (Script.body_prompt (weaver.ownContext activation) script) rfl rfl body onward
    rw [judged, List.append_nil] at ran
    refine ⟨arrivals, verdict, between, walks, ?_, fun bare => ?_, fun index =>
      (Registry.scanned_of_build registered _).oldestFirst⟩
    · rintro value rfl
      exact heard_of_settle calls known activation ran going
    · cases verdict with
      | completed value => exact absurd rfl (bare value)
      | returned value =>
        cases ran
        exact ⟨rfl, rfl⟩
      | failed fault ofBody =>
        cases ran
        exact ⟨rfl, rfl⟩

/-- Two sheets are stamped, the one after the other. -/
def stampTwice : Script :=
  [.join "Stamp" [.literal (.int 1)], .join "Stamp" [.literal (.int 2)], .give (.literal (.text "done"))]

/-- A press whose stamp is lifted before a sheet and dropped behind it. -/
def press : Model where
  modules := [⟨"works"⟩]
  types := [{ name := "Press", module := "works" }]
  members :=
    [{ owner := "Press", name := "Run", returns := "string", isStatic := true, body := some "run"
       points := [⟨"Stamp", ["sheet"]⟩] }]
  aspects := [{ name := "Hand", module := "works" }]
  pointcuts :=
    [{ advice := .before, pattern := "point *.Run.Stamp", body := "lift", owner := .aspect "Hand" },
      { advice := .after, pattern := "point *.Run.Stamp", body := "drop", owner := .aspect "Hand" }]
  scripts := [("run", stampTwice), ("lift", [.emit "lift {0}"]), ("drop", [.emit "drop {0} {result}"])]

/-- The stamp is lifted for each sheet as it comes, and dropped on the last one first. -/
theorem runBody_passes_press :
    ∃ (weaver : Weaver) (activation : Activation) (after : Machine),
      Program.build press.toDeclarations press.bindings = .ok weaver.toProgram ∧
      weaver.body activation.body = Script.body stampTwice ∧
      (weaver.runBody (weaver.invokeWithin 4) activation).run { chain := { tracing := true } } =
        (.completed (.text "done"), after) ∧
      after.output = ["lift 1", "lift 2", "drop 2 done", "drop 1 done"] ∧
      ∃ arrivals between,
        weaver.Walks (weaver.invokeWithin 4) activation
          (Script.body stampTwice (weaver.ownContext activation)) { chain := { tracing := true } } arrivals
          (.completed (.text "done")) between ∧
        weaver.Heard (weaver.invokeWithin 4)
          (arrivals.reverse.flatMap (weaver.behind activation (.text "done"))) between (.ok none) after := by
  have runs : (Program.build press.toDeclarations press.bindings).toOption.bind
      (fun program => (program.registry.member? ⟨0⟩).map fun member =>
        let reached := (runBody ⟨program, {}⟩ (invokeWithin ⟨program, {}⟩ 4) ⟨member, ⟨0⟩, none, []⟩).run
          { chain := { tracing := true } }
        (reached.1, reached.2.output, reached.2.chain.cancelled)) =
      some (.completed (.text "done"), ["lift 1", "lift 2", "drop 2 done", "drop 1 done"], false) := by
    decide +kernel
  obtain ⟨program, accepted, runs⟩ := Program.exists_of_run? runs
  obtain ⟨member, -, runs⟩ := Option.map_eq_some_iff.mp runs
  simp only [Prod.mk.injEq] at runs
  obtain ⟨completed, output, going⟩ := runs
  let weaver : Weaver := ⟨program, {}⟩
  have inWeaver : Program.build press.toDeclarations press.bindings = .ok weaver.toProgram := accepted
  have scripted : weaver.body ⟨0⟩ = Script.body stampTwice := Program.body_of_build inWeaver ⟨0⟩
  obtain ⟨arrivals, verdict, between, walks, completes, stops, -⟩ :=
    runBody_passes inWeaver 4 scripted (Prod.ext completed rfl) going
  refine ⟨weaver, _, _, inWeaver, scripted, Prod.ext completed rfl, output, arrivals, between, ?_⟩
  cases verdict with
  | returned value => cases (stops (by simp)).1
  | failed fault ofBody => cases (stops (by simp)).1
  | completed value =>
    obtain ⟨_ | _ | other, comes, heard⟩ := completes value rfl
    · cases comes
    · cases comes
      exact ⟨walks, heard⟩
    · cases comes

end Weaver

end Weaving
