import Weaving.Weaver.Invocation

/-!
Watched activations. The course of an activation is the account of its own steps: the advice that ran at its
entry, at the explicit join points that its body came to, behind them and at its exit, each with how it
ended. What runs in other activations inside it is no part of it. Watching an activation changes nothing
about it (`watch_erases`).
-/

namespace Weaving

variable {α β γ δ : Type}

/-- A piece of advice that ran, and how it ended: by falling through, with a value, or in a fault. -/
structure AdviceStep where
  pointcut : PointcutId
  ending : Except Fault (Option Value)

/-- The advice that ran on one side of an explicit join point. -/
structure PointRun where
  arrival : Arrival
  steps : List AdviceStep

/-- What happened in a body and behind the explicit join points that it passed. -/
structure BodyRun where
  /-- The arrivals with the advice that ran before them, the last one first. -/
  visits : List PointRun
  ending : Ending
  /-- The arrivals with the advice that ran behind them after the body, in that order. -/
  behind : List PointRun

/-- The own steps of an activation. -/
structure Course where
  entry : List AdviceStep
  /-- Nothing if the body did not run. -/
  body : Option BodyRun
  /-- Nothing if the advice at the exit was not started. -/
  exit : Option (List AdviceStep)

namespace Weaver

variable (weaver : Weaver) (calling : Calling)

/-! ## Watching -/

/-- One piece of advice. It runs unless the chain is cancelled or there is no such pointcut. -/
def watchAdvice (point : JoinPoint) (result : Option Value) (id : PointcutId) :
    Execution (List AdviceStep × Except Fault (Option Value)) := do
  let runs := !(← Execution.chain).cancelled && (weaver.registry.pointcut? id).isSome
  let ending ← (weaver.runAdvice calling point result id).run
  pure (if runs then [⟨id, ending⟩] else [], ending)

def watchList (point : JoinPoint) (result : Option Value) :
    List PointcutId → Execution (List AdviceStep × Except Fault (Option Value))
  | [] => pure ([], .ok none)
  | id :: ids => do
    let (step, ending) ← weaver.watchAdvice calling point result id
    match ending with
    | .ok none => do
      let (steps, ending) ← watchList point result ids
      pure (step ++ steps, ending)
    | .ok (some value) => pure (step, .ok (some value))
    | .error fault => pure (step, .error fault)

def watchBefore (point : JoinPoint) : Execution (List AdviceStep × Except Fault (Option Value)) :=
  weaver.watchList calling point none (weaver.registry.plan point.site).before

def watchAfter (point : JoinPoint) (result : Value) :
    Execution (List AdviceStep × Except Fault (Option Value)) :=
  weaver.watchList calling point (some result) (weaver.registry.plan point.site).after

/-- The work of a body that keeps account of its arrivals. -/
abbrev Watched := StateT (List PointRun) Activity

/-- An arrival at an explicit join point, which is put on the account. -/
def watchArrive (context : Context) (name : String) (args : List Value) :
    Watched (Except Interrupt Unit) := do
  match context.point? name with
  | none => liftM (Activity.refuse context name args)
  | some index =>
    let point : JoinPoint := ⟨.point context.member index, context.this, args⟩
    let (steps, ending) ← (weaver.watchBefore calling point : Execution _)
    modify (⟨⟨index, args⟩, steps⟩ :: ·)
    match ending with
    | .ok none =>
      liftM (modify fun visits => { visits with arrivals := ⟨index, args⟩ :: visits.arrivals } :
        Activity Unit)
      pure (.ok ())
    | .ok (some value) =>
      liftM (modify fun visits => { visits with returned := some value } : Activity Unit)
      pure (.error (.give value))
    | .error fault =>
      liftM (modify fun visits => { visits with fault := some fault } : Activity Unit)
      pure (.error (.fault fault))

def watchSettle (activation : Activation) (value : Value) :
    List Arrival → Execution (List PointRun × Verdict)
  | [] => pure ([], .completed value)
  | arrival :: arrivals => do
    let (steps, ending) ← weaver.watchAfter calling (activation.point arrival) value
    match ending with
    | .ok none => do
      let (behind, verdict) ← watchSettle activation value arrivals
      pure (⟨arrival, steps⟩ :: behind, verdict)
    | .ok (some value) => pure ([⟨arrival, steps⟩], .returned value)
    | .error fault => pure ([⟨arrival, steps⟩], .failed fault false)

def watchJudge (activation : Activation) (ending : Ending) (visits : Visits) :
    Execution (List PointRun × Verdict) :=
  match visits.returned with
  | some value => pure ([], .returned value)
  | none =>
    match ending.result with
    | .ok value => weaver.watchSettle calling activation value visits.arrivals
    | .error fault => pure ([], .failed fault (visits.fault ≠ some fault))

def watchBody (activation : Activation) : Execution (BodyRun × Verdict) := do
  let context : Context :=
    { registry := weaver.registry
      role := .member
      member := activation.member.id
      this := activation.this
      args := activation.args }
  let caller := weaver.registry.callerInMember activation.member.id activation.this
  let ((ending, account), visits) ←
    ((Activity.perform (calling caller) (weaver.watchArrive calling context)
      (weaver.body activation.body context)).run []).run {}
  let (behind, verdict) ← weaver.watchJudge calling activation ending visits
  pure (⟨account, ending, behind⟩, verdict)

def watchInside (activation : Activation) :
    Execution ((List AdviceStep × Option BodyRun) × Verdict) := do
  let (entry, ending) ← weaver.watchBefore calling activation.entry
  match ending with
  | .ok none => do
    let (body, verdict) ← weaver.watchBody calling activation
    pure ((entry, some body), verdict)
  | .ok (some value) => pure ((entry, none), .returned value)
  | .error fault => pure ((entry, none), .failed fault false)

def watchExit (activation : Activation) (value : Value) :
    Execution (Option (List AdviceStep) × Except Fault Value) := do
  let (steps, ending) ← weaver.watchAfter calling activation.exit value
  pure (some steps, ending.map (·.getD value))

def watchFault (activation : Activation) (fault : Fault) :
    Execution (Option (List AdviceStep) × Except Fault Value) := do
  let (steps, ending) ← weaver.watchAfter calling activation.exit .null
  match ending with
  | .ok _ => pure (some steps, .error fault)
  | .error dropped => do
    Execution.record (.fault activation.member.id dropped.message)
    pure (some steps, .error fault)

def watchConclude (activation : Activation) :
    Verdict → Execution (Option (List AdviceStep) × Except Fault Value)
  | .completed value => weaver.watchExit calling activation value
  | .returned value =>
    if weaver.settings.afterOnShortCircuit then weaver.watchExit calling activation value
    else pure (none, .ok value)
  | .failed fault ofBody =>
    if ofBody && weaver.settings.afterOnFault then weaver.watchFault calling activation fault
    else pure (none, .error fault)

/-- An activation with its course. -/
def watch (activation : Activation) : Execution (Course × Except Fault Value) := do
  let ((entry, body), verdict) ← weaver.watchInside calling activation
  let (exit, outcome) ← weaver.watchConclude calling activation verdict
  pure (⟨entry, body, exit⟩, outcome)

end Weaver

/-! ## Watching changes nothing -/

namespace Execution

/-- Watched work does what the work does, and part of its result is the result of the work. -/
def Erases (part : β → α) (watched : Execution β) (work : Execution α) : Prop := part <$> watched = work

theorem Erases.bind {part : β → α} {other : δ → γ} {watched : Execution β} {work : Execution α}
    {next : β → Execution δ} {rest : α → Execution γ} (start : Erases part watched work)
    (each : ∀ b, Erases other (next b) (rest (part b))) :
    Erases other (watched >>= next) (work >>= rest) := by
  unfold Erases at start each ⊢
  rw [← start, map_bind, bind_map_left]
  exact bind_congr each

/-- More may be put beside the result. -/
theorem Erases.beside {part : β → α} {other : γ → α} {watched : Execution β} {work : Execution α}
    {change : β → γ} (start : Erases part watched work) (same : ∀ b, other (change b) = part b) :
    Erases other (watched >>= fun b => pure (change b)) work := by
  unfold Erases at start ⊢
  rw [← start, bind_pure_comp, ← comp_map]
  exact congrArg (· <$> watched) (funext same)

end Execution

namespace Weaver.Watched

/-- The same for work that keeps an account. -/
def Erases (part : β → α) (watched : Watched β) (work : Activity α) : Prop :=
  ∀ account visits, Execution.Erases (fun reached => (part reached.1.1, reached.2))
    ((watched.run account).run visits) (work.run visits)

theorem Erases.lift {part : β → α} {watched : Execution β} {work : Execution α}
    (same : Execution.Erases part watched work) : Erases part (liftM watched) (liftM work) := by
  intro account visits
  change Execution.Erases _ ((watched >>= fun b => pure (b, visits)) >>= fun reached =>
    pure ((reached.1, account), reached.2)) (work >>= fun a => pure (a, visits))
  rw [bind_assoc]
  exact same.bind fun _ => rfl

theorem Erases.bind {part : β → α} {other : δ → γ} {watched : Watched β} {work : Activity α}
    {next : β → Watched δ} {rest : α → Activity γ} (start : Erases part watched work)
    (each : ∀ b, Erases other (next b) (rest (part b))) :
    Erases other (watched >>= next) (work >>= rest) := by
  intro account visits
  change Execution.Erases _ ((watched.run account).run visits >>= fun reached =>
    ((next reached.1.1).run reached.1.2).run reached.2) (work.run visits >>= fun reached =>
    (rest reached.1).run reached.2)
  exact (start account visits).bind fun reached => each reached.1.1 reached.1.2 reached.2

/-- An action is carried out the same if its arrivals are put on an account. -/
theorem perform_erases {call : Call → Attempt Value}
    {join : String → List Value → Watched (Except Interrupt Unit)} {other : Activity.Join}
    (arrivals : ∀ name args, Erases id (join name args) (other name args)) (action : Action α) :
    Erases id (Activity.perform call join action) (Activity.perform call other action) := by
  have lifts {β : Type} (work : Execution β) :
      Erases id (liftM work : Watched β) (liftM work : Activity β) := Erases.lift (id_map work)
  induction action with
  | done result => exact fun _ _ => rfl
  | emit line next ih => exact (lifts _).bind fun _ => ih
  | relation next ih => exact (lifts _).bind fun chain => ih chain.current
  | call request next ih => exact (lifts _).bind ih
  | join name args next ih => exact (arrivals name args).bind ih
  | allocate type next ih => exact (lifts _).bind ih
  | poll next ih => exact (lifts _).bind fun chain => ih chain.cancelled
  | cancel next ih => exact (lifts _).bind fun _ => ih

end Weaver.Watched

namespace Weaver

open Execution (Erases)

variable (weaver : Weaver) (calling : Calling)

theorem watchAdvice_erases (point : JoinPoint) (result : Option Value) (id : PointcutId) :
    Erases Prod.snd (weaver.watchAdvice calling point result id)
      (weaver.runAdvice calling point result id).run := rfl

theorem watchList_erases (point : JoinPoint) (result : Option Value) (ids : List PointcutId) :
    Erases Prod.snd (weaver.watchList calling point result ids)
      (weaver.runAdviceList calling point result ids).run := by
  induction ids with
  | nil => rfl
  | cons id ids ih =>
    change Erases Prod.snd (weaver.watchAdvice calling point result id >>= _)
      ((weaver.runAdvice calling point result id).run >>= ExceptT.bindCont _)
    refine (weaver.watchAdvice_erases calling point result id).bind fun (step, ending) => ?_
    match ending with
    | .ok none => exact ih.beside fun _ => rfl
    | .ok (some value) => rfl
    | .error fault => rfl

theorem watchArrive_erases (context : Context) (name : String) (args : List Value) :
    Watched.Erases id (weaver.watchArrive calling context name args)
      (weaver.arrive calling context name args) := by
  unfold watchArrive arrive
  cases context.point? name with
  | none => exact fun _ _ => rfl
  | some index =>
    refine (Watched.Erases.lift (weaver.watchList_erases calling _ none _)).bind fun (steps, ending) => ?_
    match ending with
    | .ok none => exact fun _ _ => rfl
    | .ok (some value) => exact fun _ _ => rfl
    | .error fault => exact fun _ _ => rfl

theorem watchSettle_erases (activation : Activation) (value : Value) (arrivals : List Arrival) :
    Erases Prod.snd (weaver.watchSettle calling activation value arrivals)
      (weaver.settle calling activation value arrivals) := by
  induction arrivals with
  | nil => rfl
  | cons arrival arrivals ih =>
    refine (weaver.watchList_erases calling _ _ _).bind fun (steps, ending) => ?_
    match ending with
    | .ok none => exact ih.beside fun _ => rfl
    | .ok (some value) => rfl
    | .error fault => rfl

theorem watchJudge_erases (activation : Activation) (ending : Ending) (visits : Visits) :
    Erases Prod.snd (weaver.watchJudge calling activation ending visits)
      (weaver.judge calling activation ending visits) := by
  unfold watchJudge judge
  cases visits.returned with
  | some value => rfl
  | none =>
    cases ending.result with
    | ok value => exact weaver.watchSettle_erases calling activation value visits.arrivals
    | error fault => rfl

theorem watchBody_erases (activation : Activation) :
    Erases Prod.snd (weaver.watchBody calling activation) (weaver.runBody calling activation) := by
  refine (Watched.perform_erases (weaver.watchArrive_erases calling _) _ [] {}).bind
    fun ((ending, account), visits) => ?_
  exact (weaver.watchJudge_erases calling activation ending visits).beside fun _ => rfl

theorem watchInside_erases (activation : Activation) :
    Erases Prod.snd (weaver.watchInside calling activation) (weaver.runInside calling activation) := by
  refine (weaver.watchList_erases calling _ none _).bind fun (entry, ending) => ?_
  match ending with
  | .ok none => exact (weaver.watchBody_erases calling activation).beside fun _ => rfl
  | .ok (some value) => rfl
  | .error fault => rfl

theorem watchExit_erases (activation : Activation) (value : Value) :
    Erases Prod.snd (weaver.watchExit calling activation value)
      (weaver.runExit calling activation value).run := by
  change Erases Prod.snd (weaver.watchAfter calling activation.exit value >>= _)
    ((weaver.runAfter calling activation.exit value).run >>= ExceptT.bindCont _)
  refine (weaver.watchList_erases calling _ _ _).bind fun (steps, ending) => ?_
  cases ending <;> rfl

theorem watchFault_erases (activation : Activation) (fault : Fault) :
    Erases Prod.snd (weaver.watchFault calling activation fault)
      (do weaver.observeFault calling activation; pure (.error fault)) := by
  change Erases Prod.snd (weaver.watchAfter calling activation.exit .null >>= _)
    (((weaver.runAfter calling activation.exit .null).run >>= _) >>= _)
  rw [bind_assoc]
  refine (weaver.watchList_erases calling _ _ _).bind fun (steps, ending) => ?_
  cases ending <;> rfl

theorem watchConclude_erases (activation : Activation) (verdict : Verdict) :
    Erases Prod.snd (weaver.watchConclude calling activation verdict)
      (weaver.conclude calling activation verdict).run := by
  cases verdict with
  | completed value => exact weaver.watchExit_erases calling activation value
  | returned value =>
    unfold watchConclude conclude
    dsimp only
    split
    · exact weaver.watchExit_erases calling activation value
    · rfl
  | failed fault ofBody =>
    unfold watchConclude conclude
    dsimp only
    split
    · exact weaver.watchFault_erases calling activation fault
    · rfl

/-- An activation that is watched runs as it does by itself. -/
theorem watch_erases (activation : Activation) :
    Erases Prod.snd (weaver.watch calling activation) (weaver.run calling activation).run := by
  change Erases Prod.snd (weaver.watchInside calling activation >>= _)
    (weaver.runInside calling activation >>= fun verdict => (weaver.conclude calling activation verdict).run)
  refine (weaver.watchInside_erases calling activation).bind fun ((entry, body), verdict) => ?_
  exact (weaver.watchConclude_erases calling activation verdict).beside fun _ => rfl

end Weaver

end Weaving
