import Weaving.Proofs.Process
import Weaving.Proofs.Scripts

/-!
Prompt activations. Where all bodies are prompt, so is the code of activations: once a call from it has failed,
it does nothing more and ends with the fault of that call (`Weaver.insideProcess_prompt`). Only what is done
about a fault in the end, by advice that observes it, is not part of that.
-/

namespace Weaving

variable {α β : Type}

namespace Process

/-- The code comes to results of some kind, and ends at once when a call from it fails, with a result that tells
the fault. -/
def Prompt (post : α → Prop) (stop : Fault → α → Prop) : Process α → Prop
  | .done result => post result
  | .emit _ next => next.Prompt post stop
  | .record _ next => next.Prompt post stop
  | .relation next => ∀ relation, (next relation).Prompt post stop
  | .poll next => ∀ cancelled, (next cancelled).Prompt post stop
  | .allocate _ next => ∀ object, (next object).Prompt post stop
  | .cancel next => next.Prompt post stop
  | .call _ _ next =>
    (∀ value, (next (.ok value)).Prompt post stop) ∧
      ∀ fault, ∃ result, next (.error fault) = .done result ∧ stop fault result

variable {post : α → Prop} {stop : Fault → α → Prop} {goal : β → Prop} {halt : Fault → β → Prop}
  {process : Process α}

/-- Code may go on with a result, unless the result tells of a call that has failed. -/
theorem Prompt.bind {rest : α → Process β} (start : process.Prompt post stop)
    (each : ∀ a, post a → (rest a).Prompt goal halt)
    (passes : ∀ fault a, stop fault a → ∃ b, rest a = .done b ∧ halt fault b) :
    (process >>= rest).Prompt goal halt := by
  change (process.bind rest).Prompt goal halt
  induction process with
  | done result => exact each result start
  | emit line process ih => exact ih start
  | record event process ih => exact ih start
  | relation process ih => exact fun relation => ih relation (start relation)
  | poll process ih => exact fun cancelled => ih cancelled (start cancelled)
  | allocate type process ih => exact fun object => ih object (start object)
  | cancel process ih => exact ih start
  | call caller request process ih =>
    refine ⟨fun value => ih _ (start.1 value), fun fault => ?_⟩
    obtain ⟨result, ended, stopped⟩ := start.2 fault
    dsimp only
    rw [ended]
    exact passes fault result stopped

/-- A failing call makes the whole attempt fail with its fault. -/
abbrev PromptTrial (trial : Trial α) : Prop :=
  trial.run.Prompt (fun _ => True) fun fault result => result = .error fault

theorem PromptTrial.bind {trial : Trial α} {rest : α → Trial β} (start : PromptTrial trial)
    (each : ∀ a, PromptTrial (rest a)) : PromptTrial (trial >>= rest) := by
  change (trial.run >>= ExceptT.bindCont rest).Prompt _ _
  refine Prompt.bind start (fun result _ => ?_) fun fault result failed => ?_
  · cases result with
    | ok a => exact each a
    | error fault => trivial
  · subst failed
    exact ⟨.error fault, rfl, rfl⟩

/-- An attempt may begin with code that cannot fail itself, if the fault of a call is thrown then. -/
theorem Prompt.lift {rest : α → Trial β} (start : process.Prompt post stop) (each : ∀ a, PromptTrial (rest a))
    (throws : ∀ fault a, stop fault a → (rest a).run = .done (.error fault)) :
    PromptTrial ((liftM process : Trial α) >>= rest) := by
  change (ExceptT.lift process >>= rest).run.Prompt _ _
  rw [ExceptT.run_bind_lift]
  exact start.bind (fun a _ => each a) fun fault a stopped => ⟨_, throws fault a stopped, rfl⟩

/-- What becomes of the fault of a call is told by the fault in the end. -/
theorem PromptTrial.after {trial : Trial α} {rest : Except Fault α → Process β} (start : PromptTrial trial)
    (each : ∀ a, (rest (.ok a)).Prompt goal halt)
    (stopped : ∀ fault, ∃ b, rest (.error fault) = .done b ∧ goal b ∧ halt fault b) :
    (trial.run >>= rest).Prompt goal halt := by
  refine Prompt.bind start (fun result _ => ?_) fun fault result failed => ?_
  · cases result with
    | ok a => exact each a
    | error fault =>
      obtain ⟨b, ended, holds, -⟩ := stopped fault
      rw [ended]
      exact holds
  · subst failed
    obtain ⟨b, ended, -, tells⟩ := stopped fault
    exact ⟨b, ended, tells⟩

end Process

/-! ## Code -/

namespace Process

/-- A body ends with the fault of a call, no value having been returned in its place. -/
def StopsBody (fault : Fault) (ended : Ending × Visits) : Prop :=
  ended.1 = .error (.fault fault) ∧ ended.2.returned = none

/-- An arrival at a join point that does not stop the code has not returned a value. -/
def Continues (reached : Except Interrupt Unit × Visits) : Prop :=
  reached.1 = .ok () → reached.2.returned = none

/-- An arrival stops the code with the fault of a call. -/
def StopsArrival (fault : Fault) (reached : Except Interrupt Unit × Visits) : Prop :=
  reached.1 = .error (.fault fault) ∧ reached.2.returned = none

theorem ofAction_prompt {caller : Caller} {join : String → List Value → Passage (Except Interrupt Unit)}
    (joins : ∀ name args visits, visits.returned = none →
      ((join name args).run visits).Prompt Continues StopsArrival)
    {action : Action Ending} (prompt : action.Prompt) {visits : Visits} (going : visits.returned = none) :
    ((ofAction caller join action).run visits).Prompt (fun _ => True) StopsBody := by
  -- while the code goes on, no join point has returned a value: it could hide the fault of a later call
  induction action generalizing visits with
  | done result => trivial
  | emit line next ih => exact ih prompt going
  | relation next ih => exact fun relation => ih relation (prompt relation) going
  | call request next ih =>
    refine ⟨fun value => ih _ (prompt.1 value) going, fun fault => ?_⟩
    dsimp only
    rw [prompt.2 fault]
    exact ⟨_, rfl, rfl, going⟩
  | join name args next ih =>
    refine (joins name args visits going).bind (fun reached continues => ?_) fun fault reached stops => ?_
    · obtain ⟨result, visits⟩ := reached
      cases result with
      | ok _ => exact ih _ prompt.1 (continues rfl)
      | error interrupt =>
        dsimp only
        rw [prompt.2 interrupt]
        trivial
    · obtain ⟨result, visits⟩ := reached
      obtain ⟨failed, going⟩ := stops
      obtain rfl : result = .error (.fault fault) := failed
      dsimp only
      rw [prompt.2 (.fault fault)]
      exact ⟨_, rfl, rfl, going⟩
  | allocate type next ih => exact fun object => ih object (prompt object) going
  | poll next ih => exact fun cancelled => ih cancelled (prompt cancelled) going
  | cancel next ih => exact prompt.elim

theorem refuse_prompt {context : Context} {name : String} {args : List Value} {visits : Visits} :
    ((refuse context name args).run visits).Prompt Continues StopsArrival := nofun

theorem ofPlain_prompt {caller : Caller} {context : Context} {action : Action Ending} (prompt : action.Prompt) :
    (ofPlain caller context action).Prompt (fun _ => True) fun fault ending =>
      ending = .error (.fault fault) := by
  refine Prompt.bind (ofAction_prompt (fun _ _ _ _ => refuse_prompt) prompt rfl) (fun _ _ => trivial) ?_
  intro fault ended stops
  exact ⟨ended.1, rfl, stops.1⟩

end Process

namespace Weaver

open Process (Prompt PromptTrial Continues StopsArrival StopsBody)

variable {weaver : Weaver}

theorem adviceReturnProcess_prompt (pointcut : PointcutEntry) (site : Site) (ending : Ending) :
    PromptTrial (adviceReturnProcess pointcut site ending) := by
  have gives (value : Value) : PromptTrial (adviceReturnProcess pointcut site (.ok (.give value))) := by
    unfold adviceReturnProcess
    dsimp only
    split <;> trivial
  match ending with
  | .ok .next => trivial
  | .ok (.give value) => exact gives value
  | .error (.give value) => exact gives value
  | .error (.fault fault) => trivial

/-- A verdict that tells the fault of a call. -/
def Fails (fault : Fault) (verdict : Verdict) : Prop := ∃ ofBody, verdict = .failed fault ofBody

section Prompt

variable (prompt : weaver.Prompt)
include prompt

/-! ## Advice -/

theorem adviceProcess_prompt (point : JoinPoint) (result : Option Value) (id : PointcutId) :
    PromptTrial (weaver.adviceProcess point result id) := by
  unfold adviceProcess
  cases weaver.registry.pointcut? id with
  | none =>
    intro cancelled
    cases cancelled <;> trivial
  | some pointcut =>
    intro cancelled
    cases cancelled with
    | true => trivial
    | false =>
      have body : (weaver.adviceBodyProcess pointcut point result).Prompt (fun _ => True)
          fun fault ending => ending = .error (.fault fault) := Process.ofPlain_prompt (prompt _ _)
      refine body.lift (fun ending => adviceReturnProcess_prompt pointcut point.site ending) ?_
      rintro fault _ rfl
      rfl

theorem adviceListProcess_prompt (point : JoinPoint) (result : Option Value) (ids : List PointcutId) :
    PromptTrial (weaver.adviceListProcess point result ids) := by
  induction ids with
  | nil => trivial
  | cons id ids ih =>
    refine (adviceProcess_prompt prompt point result id).bind fun returned => ?_
    cases returned with
    | none => exact ih
    | some value => trivial

theorem beforeProcess_prompt (point : JoinPoint) : PromptTrial (weaver.beforeProcess point) :=
  adviceListProcess_prompt prompt point none _

theorem afterProcess_prompt (point : JoinPoint) (result : Value) :
    PromptTrial (weaver.afterProcess point result) :=
  adviceListProcess_prompt prompt point (some result) _

/-! ## Activations -/

theorem arrivalProcess_prompt (context : Context) (name : String) (args : List Value) {visits : Visits}
    (going : visits.returned = none) :
    ((weaver.arrivalProcess context name args).run visits).Prompt Continues StopsArrival := by
  unfold arrivalProcess
  cases context.point? name with
  | none => exact Process.refuse_prompt
  | some index =>
    refine (beforeProcess_prompt prompt _).after (fun returned => ?_) fun fault =>
      ⟨_, rfl, nofun, rfl, going⟩
    cases returned with
    | none => exact fun _ => going
    | some value => exact nofun

theorem settlingProcess_prompt (activation : Activation) (value : Value) (arrivals : List Arrival) :
    (weaver.settlingProcess activation value arrivals).Prompt (fun _ => True) Fails := by
  induction arrivals with
  | nil => trivial
  | cons arrival arrivals ih =>
    refine (afterProcess_prompt prompt (activation.point arrival) value).after (fun returned => ?_)
      fun fault => ⟨_, rfl, trivial, false, rfl⟩
    cases returned with
    | none => exact ih
    | some value => trivial

theorem judgingProcess_prompt (activation : Activation) (ending : Ending) (visits : Visits) :
    (weaver.judgingProcess activation ending visits).Prompt (fun _ => True) Fails := by
  unfold judgingProcess
  cases visits.returned with
  | some value => trivial
  | none =>
    cases ending.result with
    | ok value => exact settlingProcess_prompt prompt activation value visits.arrivals
    | error fault => trivial

theorem bodyProcess_prompt (activation : Activation) :
    (weaver.bodyProcess activation).Prompt (fun _ => True) Fails := by
  have joins (context : Context) (name : String) (args : List Value) (visits : Visits)
      (going : visits.returned = none) :
      ((weaver.arrivalProcess context name args).run visits).Prompt Continues StopsArrival :=
    arrivalProcess_prompt prompt context name args going
  refine Prompt.bind (Process.ofAction_prompt (joins _) (prompt _ _) rfl)
    (fun ended _ => judgingProcess_prompt prompt activation ended.1 ended.2) ?_
  rintro fault ⟨ending, visits⟩ ⟨failed, going⟩
  obtain rfl : ending = .error (.fault fault) := failed
  obtain ⟨arrivals, returned, told⟩ := visits
  obtain rfl : returned = none := going
  exact ⟨_, rfl, _, rfl⟩

/-- **Activations are prompt** until they are concluded: after a call that fails they come to its fault. -/
theorem insideProcess_prompt (activation : Activation) :
    (weaver.insideProcess activation).Prompt (fun _ => True) Fails := by
  refine (beforeProcess_prompt prompt activation.entry).after (fun returned => ?_)
    fun fault => ⟨_, rfl, trivial, false, rfl⟩
  cases returned with
  | none => exact bodyProcess_prompt prompt activation
  | some value => trivial

theorem exitProcess_prompt (activation : Activation) (value : Value) :
    PromptTrial (weaver.exitProcess activation value) :=
  (afterProcess_prompt prompt activation.exit value).bind fun _ => trivial

/-! ## Parameters -/

theorem defaultProcess_prompt (member : MemberId) (this : Option ObjectRef) (bound : List Value)
    (default : Default) : PromptTrial (weaver.defaultProcess member this bound default) := by
  cases default with
  | const value => trivial
  | computed body =>
    refine Prompt.lift (Process.ofPlain_prompt (prompt _ _)) (fun _ => trivial) ?_
    rintro fault _ rfl
    rfl

theorem paramProcess_prompt (member : MemberId) (this : Option ObjectRef) (bound : List Value) (param : Param)
    (binding : Binding) : PromptTrial (weaver.paramProcess member this bound param binding) := by
  cases binding with
  | supplied value => trivial
  | masked default => exact defaultProcess_prompt prompt member this bound default
  | omitted default => exact defaultProcess_prompt prompt member this bound default

theorem paramsProcess_prompt (member : MemberId) (this : Option ObjectRef) (bound : List Value)
    (params : List (Param × Binding)) : PromptTrial (weaver.paramsProcess member this bound params) := by
  induction params generalizing bound with
  | nil => trivial
  | cons first rest ih =>
    exact (paramProcess_prompt prompt member this bound first.1 first.2).bind fun value => ih (bound ++ [value])

end Prompt

end Weaver

end Weaving
