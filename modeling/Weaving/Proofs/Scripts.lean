import Weaving.Program
import Weaving.Proofs.Agreement

/-!
What scripts cannot do. A script ends where a join point or a call that fails stops it, with what stopped it,
and it never cancels its chain (`Script.body_prompt`). Where all bodies are scripts, a chain that is not
cancelled stays so.
-/

namespace Weaving

variable {α β : Type}

/-- Code that ends as soon as a join point or a failing call stops it, with what stopped it, and never cancels
its chain. -/
def Action.Prompt : Action (Except Interrupt α) → Prop
  | .done _ => True
  | .emit _ next => next.Prompt
  | .relation next => ∀ relation, (next relation).Prompt
  | .call _ next =>
    (∀ value, (next (.ok value)).Prompt) ∧ ∀ fault, next (.error fault) = .done (.error (.fault fault))
  | .join _ _ next =>
    (next (.ok ())).Prompt ∧ ∀ interrupt, next (.error interrupt) = .done (.error interrupt)
  | .allocate _ next => ∀ object, (next object).Prompt
  | .poll next => ∀ cancelled, (next cancelled).Prompt
  | .cancel _ => False

theorem Action.Prompt.after_call {request : Call} {next : Except Fault Value → Action (Except Interrupt α)}
    (prompt : (Action.call request next).Prompt) (result : Except Fault Value) : (next result).Prompt := by
  cases result with
  | ok value => exact prompt.1 value
  | error fault =>
    rw [prompt.2 fault]
    trivial

theorem Action.Prompt.steady {action : Action (Except Interrupt α)} (prompt : action.Prompt) :
    action.Steady := by
  induction action with
  | done result => trivial
  | emit line next ih => exact ih prompt
  | relation next ih => exact fun relation => ih relation (prompt relation)
  | call request next ih => exact fun result => ih result (prompt.after_call result)
  | join name args next ih =>
    intro result
    cases result with
    | ok _ => exact ih _ prompt.1
    | error interrupt =>
      rw [prompt.2 interrupt]
      trivial
  | allocate type next ih => exact fun object => ih object (prompt object)
  | poll next ih => exact fun cancelled => ih cancelled (prompt cancelled)
  | cancel next ih => exact prompt.elim

/-- Code goes on promptly with what it has come to, or ends with what has interrupted it. -/
theorem Action.Prompt.bind {action : Action (Except Interrupt α)} (prompt : action.Prompt)
    {next : α → Action (Except Interrupt β)} (rest : ∀ a, (next a).Prompt) :
    (Action.bind action (ExceptT.bindCont (m := Action) next)).Prompt := by
  induction action with
  | done result =>
    cases result with
    | ok a => exact rest a
    | error interrupt => trivial
  | emit line next ih => exact ih prompt
  | relation next ih => exact fun relation => ih relation (prompt relation)
  | call request next ih =>
    refine ⟨fun value => ih _ (prompt.1 value), fun fault => ?_⟩
    dsimp only
    rw [prompt.2 fault]
    rfl
  | join name args next ih =>
    refine ⟨ih _ prompt.1, fun interrupt => ?_⟩
    dsimp only
    rw [prompt.2 interrupt]
    rfl
  | allocate type next ih => exact fun object => ih object (prompt object)
  | poll next ih => exact fun cancelled => ih cancelled (prompt cancelled)
  | cancel next ih => exact prompt.elim

namespace Script

namespace Run

/-- Steps are prompt whatever the variables are. -/
def Prompt (run : Run α) : Prop :=
  ∀ vars, Action.Prompt (run vars : Action (Except Interrupt (α × Variables)))

theorem Prompt.pure (a : α) : Prompt (pure a) := fun _ => trivial

theorem Prompt.stop (interrupt : Interrupt) : Prompt (stop interrupt : Run α) := fun _ => trivial

theorem Prompt.bind {run : Run α} {next : α → Run β} (prompt : Prompt run)
    (rest : ∀ a, Prompt (next a)) : Prompt (run >>= next) := fun vars =>
  (prompt vars).bind fun reached => rest reached.1 reached.2

end Run

open Run (Prompt)

variable (context : Context)

theorem render_prompt (template : String) : Prompt (render context template) :=
  fun _ _ => trivial

theorem invoke_prompt (request : Except Fault Call) : Prompt (invoke request) := by
  cases request with
  | error fault => exact Prompt.stop _
  | ok call => exact fun _ => ⟨fun _ => trivial, fun _ => rfl⟩

theorem keep_prompt (into : Option String) (value : Value) : Prompt (keep into value) := by
  cases into with
  | none => exact Prompt.pure ()
  | some name => exact fun _ => trivial

mutual

theorem runStep_prompt (step : Step) : Prompt (runStep context step) := by
  cases step with
  | emit template =>
    unfold runStep
    exact (render_prompt context template).bind fun _ =>
      Prompt.bind (fun _ => trivial) fun _ => Prompt.pure _
  | give value =>
    unfold runStep
    exact fun _ => trivial
  | fault template =>
    unfold runStep
    exact (render_prompt context template).bind fun _ => Prompt.stop _
  | join point args =>
    unfold runStep
    exact fun _ => ⟨trivial, fun _ => rfl⟩
  | call member on isVirtual args into =>
    unfold runStep
    refine Prompt.bind (fun _ => trivial) fun vars => Prompt.bind (fun _ => trivial) fun args => ?_
    exact (invoke_prompt _).bind fun value => (keep_prompt into value).bind fun _ => Prompt.pure _
  | allocate type into =>
    unfold runStep
    cases context.registry.findType? type with
    | none => exact Prompt.stop _
    | some id => exact fun _ _ => trivial
  | guard relations permitted otherwise =>
    unfold runStep
    refine Prompt.bind (fun _ _ => trivial) fun relation => ?_
    split
    · exact runSteps_prompt permitted
    · exact runSteps_prompt otherwise
  | checkpoint =>
    unfold runStep
    refine Prompt.bind (fun _ _ => trivial) fun cancelled => ?_
    cases cancelled with
    | true => exact Prompt.stop _
    | false => exact Prompt.pure _

theorem runSteps_prompt (steps : List Step) : Prompt (runSteps context steps) := by
  cases steps with
  | nil =>
    unfold runSteps
    exact Prompt.pure _
  | cons step steps =>
    unfold runSteps
    refine (runStep_prompt step).bind fun flow => ?_
    cases flow with
    | next => exact runSteps_prompt steps
    | give value => exact Prompt.pure _

end

/-- The body of a script is prompt. -/
theorem body_prompt (script : Script) : (body script context).Prompt :=
  (runSteps_prompt context script []).bind fun _ => trivial

end Script

/-! ## Scripted programs -/

/-- All bodies of a program are prompt. -/
def Program.Prompt (program : Program) : Prop := ∀ id context, (program.body id context).Prompt

theorem Program.prompt_of_build {model : Model} {program : Program}
    (accepted : Program.build model.toDeclarations model.bindings = .ok program) : program.Prompt := by
  intro id context
  rw [body_of_build accepted]
  exact Script.body_prompt context _

/-! ## Chains that nobody cancels -/

/-- Both runs are on the same machine, whose chain is cancelled or not. -/
def Bond.flagged (flag : Bool) : Bond := fun left right => left = right ∧ left.chain.cancelled = flag

theorem Bond.flagged_kept (flag : Bool) : (Bond.flagged flag).Kept where
  cancelled bonded := by rw [bonded.1]
  current bonded := by rw [bonded.1]
  nextObject bonded := by rw [bonded.1]
  record := by
    rintro left _ ⟨rfl, same⟩ event
    exact ⟨rfl, (left.chain.cancelled_record event).trans same⟩
  emit := by rintro left _ ⟨rfl, same⟩ line; exact ⟨rfl, same⟩
  allocate := by rintro left _ ⟨rfl, same⟩ type; exact ⟨rfl, same⟩

/-- Both runs are on the same machine, whose chain is not cancelled. -/
def Bond.steady : Bond := fun left right => left = right ∧ left.chain.cancelled = false

theorem Bond.steady_kept : Bond.steady.Kept := Bond.flagged_kept false

/-- On a chain that is not cancelled, work gives results of some kind and does not cancel it. -/
def Execution.Yields (post : α → Prop) (work : Execution α) : Prop :=
  ∀ machine, machine.chain.cancelled = false →
    post (work.run machine).1 ∧ (work.run machine).2.chain.cancelled = false

namespace Execution

variable {post : α → Prop} {next : β → Prop}

theorem Yields.pure {a : α} (holds : post a) : Yields post (pure a) := fun _ going => ⟨holds, going⟩

theorem Yields.bind {work : Execution α} {rest : α → Execution β} (start : Yields post work)
    (each : ∀ a, post a → Yields next (rest a)) : Yields next (work >>= rest) := by
  intro machine going
  obtain ⟨holds, still⟩ := start machine going
  rw [run_bind]
  exact each _ holds _ still

theorem Yields.mono {other : α → Prop} {work : Execution α} (yields : Yields post work)
    (weaker : ∀ a, post a → other a) : Yields other work :=
  fun machine going => ⟨weaker _ (yields machine going).1, (yields machine going).2⟩

/-- Work that agrees with itself does not cancel its chain. -/
theorem Agree.yields {work : Execution α} (agree : Agree Bond.steady work work) :
    Yields (fun _ => True) work :=
  fun machine going => ⟨trivial, (agree machine machine ⟨rfl, going⟩).2.2⟩

end Execution

namespace Weaver

variable {weaver : Weaver}

theorem flagged_nested (flag : Bool) : Nested (fun _ : Unit => Bond.flagged flag) (fun _ _ _ => ()) where
  kept _ := Bond.flagged_kept flag
  depth bonded := by rw [bonded.1]
  enter := by rintro _ left _ ⟨rfl, same⟩ relation passthru; exact ⟨rfl, same⟩
  leave := by rintro _ left _ relation passthru ⟨rfl, same⟩; exact ⟨rfl, same⟩

theorem bodies_steady (prompt : weaver.Prompt) : weaver.BodiesAgree Bond.steady weaver.bodies :=
  fun id context _ _ _ _ hosts =>
    Activity.perform_agree Bond.steady_kept hosts (weaver.body id context)
      (Or.inl (prompt id context).steady)

theorem invoke_steady (prompt : weaver.Prompt) : CallsAgree Bond.steady weaver.invoke weaver.invoke :=
  invoke_agree (flagged_nested false) (fun _ => (bodies_steady prompt).code Bond.steady_kept) ()

end Weaver

end Weaving
