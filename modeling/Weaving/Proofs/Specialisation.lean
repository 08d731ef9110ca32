import Weaving.Proofs.Frames
import Weaving.Script.Meaning

/-!
Specialised scripts. The relation in force does not change while a script runs, so that its code security
blocks are decided before it starts: each may be replaced by the branch that it will take. Where the script is
told the relation, the specialised script is the same code (`Script.answering_body`); and since frames are
balanced, code that asks for the relation does what code does that is told it, wherever the script is used
(`Weaver.specialised_eq`).
-/

namespace Weaving

variable {α β : Type}

/-! ## Specialising -/

mutual

/-- The steps that are left of a step under a relation. -/
def Step.specialise (relation : RelationClass) : Step → Script
  | .guard relations permitted otherwise =>
    if relations.contains relation then Script.specialise relation permitted
    else Script.specialise relation otherwise
  | step => [step]

/-- The script in which every code security block is replaced by the branch that it takes under a relation. -/
def Script.specialise (relation : RelationClass) : Script → Script
  | [] => []
  | step :: steps => step.specialise relation ++ Script.specialise relation steps

end

/-! ## Code that is told the relation -/

theorem Action.answering_bind (relation : RelationClass) (action : Action α) (next : α → Action β) :
    (action.bind next).answering relation =
      (action.answering relation).bind fun a => (next a).answering relation := by
  induction action with
  | relation rest ih => exact ih relation
  | _ => simp only [Action.bind, Action.answering, *]

namespace Script

open Run

variable (relation : RelationClass) (context : Context)

/-- Steps that are told the relation. -/
def Run.answering (run : Run α) : Run α := fun vars => Action.answering relation (run vars)

theorem Run.answering_bind (run : Run α) (next : α → Run β) :
    (run >>= next).answering relation =
      run.answering relation >>= fun a => (next a).answering relation := by
  funext vars
  change Action.answering relation (Action.bind (run vars)
      (ExceptT.bindCont (m := Action) fun reached => next reached.1 reached.2)) =
    Action.bind (Action.answering relation (run vars))
      (ExceptT.bindCont (m := Action) fun reached => (next reached.1).answering relation reached.2)
  rw [Action.answering_bind]
  congr 1
  funext reached
  cases reached <;> rfl

/-- Once the first steps are through, the others go on with the variables that those have left. -/
theorem runSteps_append (first second : List Step) :
    runSteps context (first ++ second) = (do
      match ← runSteps context first with
      | .next => runSteps context second
      | .give value => pure (.give value)) := by
  induction first with
  | nil =>
    rw [List.nil_append, runSteps, pure_bind]
  | cons step steps ih =>
    rw [List.cons_append, runSteps, runSteps, bind_assoc]
    apply bind_congr
    intro flow
    cases flow with
    | next => exact ih
    | give value => rw [pure_bind]

theorem runSteps_singleton (step : Step) : runSteps context [step] = runStep context step := by
  have ends : ∀ flow : Flow, (match flow with
      | .next => runSteps context []
      | .give value => pure (.give value)) = (pure flow : Run Flow) := by
    intro flow
    cases flow with
    | next => rw [runSteps]
    | give value => rfl
  rw [runSteps]
  exact (bind_congr ends).trans (bind_pure _)

mutual

/-- A step that is told the relation does what is left of it. -/
theorem answering_runStep (step : Step) :
    (runStep context step).answering relation =
      (runSteps context (step.specialise relation)).answering relation := by
  cases step with
  | guard relations permitted otherwise =>
    rw [Step.specialise, runStep]
    change (if relations.contains relation then runSteps context permitted
      else runSteps context otherwise).answering relation = _
    split
    · exact answering_runSteps permitted
    · exact answering_runSteps otherwise
  | _ =>
    rw [Step.specialise, runSteps_singleton]
    nofun

theorem answering_runSteps (steps : List Step) :
    (runSteps context steps).answering relation =
      (runSteps context (Script.specialise relation steps)).answering relation := by
  cases steps with
  | nil => rw [Script.specialise]
  | cons step steps =>
    rw [Script.specialise, runSteps, runSteps_append, Run.answering_bind, Run.answering_bind,
      answering_runStep step]
    apply bind_congr
    intro flow
    cases flow with
    | next => exact answering_runSteps steps
    | give value => rfl

end

/-- **A script that is told the relation** is the specialised script that is told it. -/
theorem answering_body (script : Script) :
    (body script context).answering relation =
      (body (script.specialise relation) context).answering relation := by
  have same := congrFun (answering_runSteps relation context script) []
  have told : ∀ steps : Script, (body steps context).answering relation =
      Action.bind ((runSteps context steps).answering relation [])
        (fun reached => .done (reached.map (·.1))) := by
    intro steps
    change Action.answering relation (Action.bind (runSteps context steps []) _) = _
    rw [Action.answering_bind]
    apply congrArg
    funext reached
    cases reached <;> rfl
  rw [told, told, same]

end Script

/-! ## On machines with the same frames -/

section Within

variable {frames : SecurityStack} {history : List Event}

theorem Execution.Agree.symm_within {first second : Execution α}
    (same : Agree (Bond.within frames history) first second) :
    Agree (Bond.within frames history) second first := by
  rw [agree_within_iff] at same ⊢
  intro machine framed older
  obtain ⟨run, kept⟩ := same machine framed older
  rw [run] at kept
  exact ⟨run.symm, kept⟩

theorem Execution.Agree.trans_within {first second third : Execution α}
    (one : Agree (Bond.within frames history) first second)
    (other : Agree (Bond.within frames history) second third) :
    Agree (Bond.within frames history) first third := by
  rw [agree_within_iff] at one other ⊢
  intro machine framed older
  obtain ⟨run, kept⟩ := one machine framed older
  exact ⟨run.trans (other machine framed older).1, kept⟩

namespace Activity

theorem HostsAgree.right_within {call other : Call → Attempt Value} {join arrive : Join}
    (hosts : HostsAgree (Bond.within frames history) call other join arrive) :
    HostsAgree (Bond.within frames history) other other arrive arrive where
  call request := (hosts.call request).symm_within.trans_within (hosts.call request)
  join name args visits :=
    (hosts.join name args visits).symm_within.trans_within (hosts.join name args visits)

end Activity

end Within

/-- What may stand for a body under a relation: the body itself, or what is left of its script. -/
inductive Body.Specialises (relation : RelationClass) : Body → Body → Prop
  | same (body : Body) : Specialises relation body body
  | script (script : Script) :
    Specialises relation (Script.body script) (Script.body (script.specialise relation))

/-- Code does the same as what stands for it under the relation in force. -/
theorem Activity.perform_specialised_agree {frames : SecurityStack} {history : List Event}
    {call other : Call → Attempt Value} {join arrive : Join}
    (hosts : HostsAgree (Bond.within frames history) call other join arrive) {body residue : Body}
    (specialises : body.Specialises frames.current residue) (context : Context) :
    Agree (Bond.within frames history) (perform call join (body context))
      (perform other arrive (residue context)) := by
  cases specialises with
  | same =>
    exact perform_agree (Bond.within_kept frames history) hosts (body context)
      (Or.inr (Bond.within_cancel frames history))
  | script script =>
    -- both scripts are compared with the code that they come to when they are told the relation
    have told := perform_answering_agree hosts (Script.body script context)
    have rest := perform_answering_agree hosts.right_within
      (Script.body (script.specialise frames.current) context)
    rw [Script.answering_body] at told
    intro visits
    exact (told visits).trans_within (rest visits).symm_within

namespace Weaver

variable (weaver : Weaver)

theorem specialised_bodies_agree {frames : SecurityStack} {history : List Event} {others : List Body}
    (specialised : ∀ id, (weaver.body id).Specialises frames.current
      ((weaver.withBodies others).body id)) :
    weaver.BodiesAgree (Bond.within frames history) others :=
  fun id context _ _ _ _ hosts => Activity.perform_specialised_agree hosts (specialised id) context

/-- **Code security blocks are decided by the relation in force.** A script, and the same script specialised
to the relation in force, come to the same end on the same machine, having passed the same join points, with
the same value returned or fault raised there, whether it may come to join points or not. And so do all uses
of scripts: bodies of members, advice, computed defaults, and activations in which any of the scripts are
specialised. -/
theorem specialised_eq (machine : Machine) :
    (∀ caller context script visits,
      ((Activity.perform (weaver.invoke caller) (weaver.arrive weaver.invoke context)
          (Script.body script context)).run visits).run machine =
        ((Activity.perform (weaver.invoke caller) (weaver.arrive weaver.invoke context)
          (Script.body (script.specialise machine.chain.current) context)).run visits).run machine ∧
      ((Activity.perform (weaver.invoke caller) (Activity.refuse context)
          (Script.body script context)).run visits).run machine =
        ((Activity.perform (weaver.invoke caller) (Activity.refuse context)
          (Script.body (script.specialise machine.chain.current) context)).run visits).run machine) ∧
    ∀ others, (∀ id, (weaver.body id).Specialises machine.chain.current
        ((weaver.withBodies others).body id)) →
      (∀ activation, (weaver.runBody weaver.invoke activation).run machine =
        ((weaver.withBodies others).runBody weaver.invoke activation).run machine) ∧
      (∀ pointcut point result, (weaver.runAdviceBody weaver.invoke pointcut point result).run machine =
        ((weaver.withBodies others).runAdviceBody weaver.invoke pointcut point result).run machine) ∧
      (∀ member this bound default,
        (weaver.evalDefault weaver.invoke member this bound default).run.run machine =
          ((weaver.withBodies others).evalDefault weaver.invoke member this bound default).run.run
            machine) ∧
      ∀ member classified call, (weaver.runMember weaver.invoke member classified call).run.run machine =
        ((weaver.withBodies others).runMember weaver.invoke member classified call).run.run machine := by
  have kept := Bond.within_kept machine.chain.frames machine.chain.history
  have calls : CallsAgree (Bond.within machine.chain.frames machine.chain.history) weaver.invoke
      weaver.invoke := weaver.invoke_balanced_agree
  constructor
  · intro caller context script visits
    have arrivals := arrive_agree weaver.code_agrees calls context caller
    have refusals := refuse_agree calls caller context
    exact ⟨(Activity.perform_specialised_agree arrivals (.script script) context visits).run_eq,
      (Activity.perform_specialised_agree refusals (.script script) context visits).run_eq⟩
  · intro others specialised
    have bodies : weaver.BodiesAgree (Bond.within machine.chain.frames machine.chain.history) others :=
      weaver.specialised_bodies_agree specialised
    have code := bodies.code kept
    refine ⟨fun activation => ?_, fun pointcut point result => ?_, fun member this bound default => ?_,
      fun member classified call => ?_⟩
    · exact (runBody_agree code calls activation).run_eq
    · exact ((bodies _ _ (refuse_agree calls _ _)).run' {}).run_eq
    · exact Execution.Agree.run_eq (evalDefault_agree code calls member this bound default)
    · exact Execution.Agree.run_eq (runMember_agree kept code calls member classified call)

/-- A gate that lets in callers from outside if its watch does not object, and says more to those from its own
module. -/
def gate : Weaver where
  registry :=
    { modules := [⟨⟨0⟩, "castle"⟩]
      types := [⟨⟨0⟩, "Gate", [], "Gate", ⟨0⟩, none, [], .everywhere, [⟨0⟩]⟩]
      members :=
        [{ id := ⟨0⟩, owner := ⟨0⟩, kind := .function, name := "Pass", params := [], returns := "text"
           visibility := .everywhere, isStatic := true, passthru := false
           variants := [⟨.all, ⟨0⟩⟩], points := [⟨"Watch", []⟩] }]
      aspects := []
      pointcuts := []
      bodyNames := ["pass"]
      plans := [] }
  bodies :=
    [Script.body
      [.allocate "Gate" "gate",
        .guard (.only .external) [.join "Watch" [.var "gate"], .guard (.only .sameModule) [.emit "{relation}"]
          [.give (.var "gate")]] [.fault "closed"],
        .fault "unreached"]]
  settings := {}

/-- To callers from outside the gate is a straight one. -/
theorem specialised_eq_gate :
    let machine : Machine := { chain := gate.chain.enter .external false }
    let straight : List Body := [Script.body
      [.allocate "Gate" "gate", .join "Watch" [.var "gate"], .give (.var "gate"), .fault "unreached"]]
    let activation : Activation := ⟨gate.registry.members[0], ⟨0⟩, none, []⟩
    (∀ id, (gate.body id).Specialises machine.chain.current ((gate.withBodies straight).body id)) ∧
    (gate.runBody gate.invoke activation).run machine =
      ((gate.withBodies straight).runBody gate.invoke activation).run machine ∧
    ((gate.runBody gate.invoke activation).run machine).1 = .completed (.object ⟨1, ⟨0⟩⟩) := by
  intro machine straight activation
  have specialised : ∀ id,
      (gate.body id).Specialises machine.chain.current ((gate.withBodies straight).body id) := by
    rintro ⟨index⟩
    cases index with
    | zero => exact @Body.Specialises.script .external _
    | succ index => exact .same _
  exact ⟨specialised, ((gate.specialised_eq machine).2 straight specialised).1 activation, by decide +kernel⟩

end Weaver

end Weaving
