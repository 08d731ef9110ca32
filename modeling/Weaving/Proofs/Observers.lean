import Weaving.Proofs.Acceptance
import Weaving.Proofs.Records

/-!
Observers can be taken away. Advice whose script only emits lines and looks for cancellation, under whatever code
security blocks, always falls through. If it is taken out of every plan, runs come to the same results with the
same frames and objects; only its own events and lines are missing (`Weaver.invoke_without`).
-/

namespace Weaving

variable {α β : Type}

/-! ## Observing -/

mutual

/-- A step that does nothing but emit lines and look for cancellation. -/
def Step.observes : Step → Bool
  | .emit _ | .checkpoint => true
  | .guard _ permitted otherwise => Script.observes permitted && Script.observes otherwise
  | .give _ | .fault _ | .join _ _ | .call _ _ _ _ _ | .allocate _ _ => false

def Script.observes : Script → Bool
  | [] => true
  | step :: steps => step.observes && Script.observes steps

end

/-- On a chain that is not cancelled, the code does nothing but emit lines, and comes to a result of some kind. -/
def Action.Observes (post : α → Prop) : Action α → Prop
  | .done result => post result
  | .emit _ next => next.Observes post
  | .relation next => ∀ relation, (next relation).Observes post
  | .poll next => (next false).Observes post
  | .call _ _ | .join _ _ _ | .allocate _ _ | .cancel _ => False

theorem Action.Observes.bind {post : α → Prop} {goal : β → Prop} {action : Action α} {next : α → Action β}
    (observes : action.Observes post) (rest : ∀ a, post a → (next a).Observes goal) :
    (action.bind next).Observes goal := by
  induction action with
  | done result => exact rest result observes
  | emit line action ih => exact ih observes
  | relation action ih => exact fun relation => ih relation (observes relation)
  | poll action ih => exact ih false observes
  | call request action => exact observes.elim
  | join name args action => exact observes.elim
  | allocate type action => exact observes.elim
  | cancel action => exact observes.elim

namespace Script

/-- Steps that observe, whatever the variables are. -/
def Run.Observes (post : α → Prop) (run : Run α) : Prop :=
  ∀ vars, Action.Observes (fun result => ∃ a vars, result = .ok (a, vars) ∧ post a)
    (run vars : Action (Except Interrupt (α × Variables)))

open Run

theorem Run.Observes.bind {post : α → Prop} {goal : β → Prop} {run : Run α} {next : α → Run β}
    (observes : Observes post run) (rest : ∀ a, post a → Observes goal (next a)) :
    Observes goal (run >>= next) := by
  intro vars
  refine Action.Observes.bind (observes vars) fun result reached => ?_
  obtain ⟨a, vars, rfl, holds⟩ := reached
  exact rest a holds vars

variable (context : Context)

mutual

theorem runStep_observes (step : Step) (observes : step.observes = true) :
    Observes (· = .next) (runStep context step) := by
  cases step with
  | emit template =>
    rw [runStep]
    intro vars relation
    exact ⟨.next, vars, rfl, rfl⟩
  | checkpoint =>
    rw [runStep]
    intro vars
    exact ⟨.next, vars, rfl, rfl⟩
  | guard relations permitted otherwise =>
    rw [Step.observes, Bool.and_eq_true] at observes
    rw [runStep]
    intro vars relation
    change Action.Observes _ ((if relations.contains relation then runSteps context permitted
      else runSteps context otherwise) vars)
    split
    · exact runSteps_observes permitted observes.1 vars
    · exact runSteps_observes otherwise observes.2 vars
  | _ => cases observes

theorem runSteps_observes (steps : List Step) (observes : Script.observes steps = true) :
    Observes (· = .next) (runSteps context steps) := by
  cases steps with
  | nil =>
    rw [runSteps]
    exact fun vars => ⟨.next, vars, rfl, rfl⟩
  | cons step steps =>
    rw [Script.observes, Bool.and_eq_true] at observes
    rw [runSteps]
    refine (runStep_observes step observes.1).bind fun flow fell => ?_
    subst fell
    exact runSteps_observes steps observes.2

end

/-- A script that observes falls through. -/
theorem body_observes {script : Script} (observes : script.observes = true) :
    (body script context).Observes (· = .ok .next) := by
  refine Action.Observes.bind (runSteps_observes context script observes []) fun result reached => ?_
  obtain ⟨flow, vars, rfl, rfl⟩ := reached
  rfl

end Script

/-! ## Machines with more on them -/

/-- Whether an event is not that of advice of a pointcut. -/
def Event.Spares (id : PointcutId) (event : Event) : Bool := event.startedAdvice? ≠ some id

/-- Two runs have begun on one machine, which is not cancelled. The first may have recorded more events of a
pointcut and emitted more lines than the second; otherwise the machines are alike. -/
structure Bond.Thinned (id : PointcutId) (origin left right : Machine) : Prop where
  frames : left.chain.frames = right.chain.frames
  tracing : left.chain.tracing = right.chain.tracing
  going : left.chain.cancelled = false
  still : right.chain.cancelled = false
  nextObject : left.nextObject = right.nextObject
  history : ∃ events others, left.chain.history = events ++ origin.chain.history ∧
    right.chain.history = others ++ origin.chain.history ∧
    others.filter (Event.Spares id) = events.filter (Event.Spares id)
  lines : ∃ lines others, left.lines = lines ++ origin.lines ∧ right.lines = others ++ origin.lines ∧
    others.Sublist lines

/-- What recording an event adds to the history. -/
def Chain.noted (event : Event) (chain : Chain) : List Event := if chain.tracing then [event] else []

theorem Chain.history_record (event : Event) (chain : Chain) :
    (chain.record event).history = chain.noted event ++ chain.history := by
  unfold record noted
  split <;> rfl

namespace Bond

variable {id : PointcutId} {origin left right : Machine}

theorem Thinned.refl (going : origin.chain.cancelled = false) : Thinned id origin origin origin where
  frames := rfl
  tracing := rfl
  going := going
  still := going
  nextObject := rfl
  history := ⟨[], [], rfl, rfl, rfl⟩
  lines := ⟨[], [], rfl, rfl, .slnil⟩

theorem thinned_kept (id : PointcutId) (origin : Machine) : Bond.Kept (Thinned id origin) where
  cancelled bonded := bonded.going.trans bonded.still.symm
  current bonded := congrArg SecurityStack.current bonded.frames
  nextObject bonded := bonded.nextObject
  record := by
    intro left right bonded event
    obtain ⟨events, others, first, second, same⟩ := bonded.history
    have noted : right.chain.noted event = left.chain.noted event := by
      rw [Chain.noted, Chain.noted, bonded.tracing]
    exact { bonded with
      frames := ((left.chain.frames_record event).trans bonded.frames).trans
        (right.chain.frames_record event).symm
      tracing := ((left.chain.tracing_record event).trans bonded.tracing).trans
        (right.chain.tracing_record event).symm
      going := (left.chain.cancelled_record event).trans bonded.going
      still := (right.chain.cancelled_record event).trans bonded.still
      history := by
        refine ⟨left.chain.noted event ++ events, right.chain.noted event ++ others, ?_, ?_, ?_⟩
        · rw [Machine.record, Chain.history_record, first, List.append_assoc]
        · rw [Machine.record, Chain.history_record, second, List.append_assoc]
        · rw [noted, List.filter_append, List.filter_append, same] }
  emit := by
    intro left right bonded line
    obtain ⟨lines, others, first, second, fewer⟩ := bonded.lines
    exact { bonded with
      lines := ⟨line :: lines, line :: others, congrArg (line :: ·) first, congrArg (line :: ·) second,
        fewer.cons_cons line⟩ }
  allocate := by
    intro left right bonded type
    exact { bonded with nextObject := congrArg (· + 1) bonded.nextObject }

/-- The first run may record an event of the pointcut alone. -/
theorem Thinned.record_left (bonded : Thinned id origin left right) {event : Event}
    (dropped : event.Spares id = false) : Thinned id origin (left.record event) right := by
  obtain ⟨events, others, first, second, same⟩ := bonded.history
  exact { bonded with
    frames := (left.chain.frames_record event).trans bonded.frames
    tracing := (left.chain.tracing_record event).trans bonded.tracing
    going := (left.chain.cancelled_record event).trans bonded.going
    history := by
      have silent : (left.chain.noted event).filter (Event.Spares id) = [] := by
        unfold Chain.noted
        split <;> simp [dropped]
      refine ⟨left.chain.noted event ++ events, others, ?_, second, ?_⟩
      · rw [Machine.record, Chain.history_record, first, List.append_assoc]
      · rw [List.filter_append, silent, same, List.nil_append] }

/-- The first run may emit a line alone. -/
theorem Thinned.emit_left (bonded : Thinned id origin left right) (line : String) :
    Thinned id origin ((Execution.emit line).run left).2 right := by
  obtain ⟨lines, others, first, second, fewer⟩ := bonded.lines
  exact { bonded with
    lines := ⟨line :: lines, others, congrArg (line :: ·) first, second, fewer.cons line⟩ }

/-- If the second run has recorded nothing of the pointcut, its trace is that of the first without it. -/
theorem Thinned.trace (bonded : Thinned id origin left right) {recorded : List Event}
    (told : right.chain.trace = origin.chain.trace ++ recorded)
    (spared : ∀ event ∈ recorded, event.Spares id = true) :
    ∃ events, left.chain.trace = origin.chain.trace ++ events ∧
      right.chain.trace = origin.chain.trace ++ events.filter (Event.Spares id) := by
  obtain ⟨events, others, first, second, same⟩ := bonded.history
  have rest : right.chain.trace = origin.chain.trace ++ others.reverse := by
    rw [Chain.trace, second, List.reverse_append]
    rfl
  have listed : recorded = others.reverse := List.append_cancel_left (told.symm.trans rest)
  have left_alone : others.filter (Event.Spares id) = others := by
    rw [List.filter_eq_self]
    intro event held
    exact spared event (listed ▸ List.mem_reverse.mpr held)
  refine ⟨events.reverse, ?_, ?_⟩
  · rw [Chain.trace, first, List.reverse_append]
    rfl
  · rw [List.filter_reverse, ← same, left_alone]
    exact rest

theorem Thinned.output (bonded : Thinned id origin left right) :
    ∃ lines others, left.output = origin.output ++ lines ∧ right.output = origin.output ++ others ∧
      others.Sublist lines := by
  obtain ⟨lines, others, first, second, fewer⟩ := bonded.lines
  refine ⟨lines.reverse, others.reverse, ?_, ?_, fewer.reverse⟩
  · rw [Shared.output, first, List.reverse_append]
    rfl
  · rw [Shared.output, second, List.reverse_append]
    rfl

theorem thinned_nested (id : PointcutId) (origin : Machine) :
    Weaver.Nested (fun _ : Unit => Thinned id origin) (fun _ _ _ => ()) where
  kept _ := thinned_kept id origin
  depth bonded := congrArg List.length bonded.frames
  enter bonded relation passthru :=
    { bonded with frames := congrArg (SecurityStack.push · relation passthru) bonded.frames }
  leave bonded := { bonded with frames := congrArg List.tail bonded.frames }

end Bond

/-- Code that observes may be left out of the second run. -/
theorem Action.Observes.thinned {post : α → Prop} {action : Action α} (observes : action.Observes post)
    {id : PointcutId} {origin left right : Machine} (bonded : Bond.Thinned id origin left right)
    (call : Call → Attempt Value) (join : Activity.Join) (visits : Visits) :
    let ended := ((Activity.perform call join action : Activity α).run visits).run left
    post ended.1.1 ∧ Bond.Thinned id origin ended.2 right := by
  induction action generalizing left with
  | done result => exact ⟨observes, bonded⟩
  | emit line next ih => exact ih observes (bonded.emit_left line)
  | relation next ih => exact ih left.chain.current (observes _) bonded
  | poll next ih =>
    have answer : left.chain.cancelled = false := bonded.going
    change let ended := ((Activity.perform call join (next left.chain.cancelled) : Activity α).run visits).run left
      post ended.1.1 ∧ Bond.Thinned id origin ended.2 right
    rw [answer]
    exact ih false observes bonded
  | call request next => exact observes.elim
  | join name args next => exact observes.elim
  | allocate type next => exact observes.elim
  | cancel next => exact observes.elim

/-! ## Taking advice away -/

def Plan.without (plan : Plan) (id : PointcutId) : Plan :=
  ⟨plan.before.filter (· ≠ id), plan.after.filter (· ≠ id)⟩

/-- The registry in which a pointcut is planned nowhere. -/
def Registry.without (registry : Registry) (id : PointcutId) : Registry :=
  { registry with plans := registry.plans.map fun (site, plan) => (site, plan.without id) }

theorem Registry.plan_without (registry : Registry) (id : PointcutId) (site : Site) :
    (registry.without id).plan site = (registry.plan site).without id := by
  have looks (plans : List (Site × Plan)) :
      (plans.map fun (site, plan) => (site, plan.without id)).lookup site =
        (plans.lookup site).map (·.without id) := by
    induction plans with
    | nil => rfl
    | cons row plans ih =>
      obtain ⟨other, plan⟩ := row
      rw [List.map_cons, List.lookup_cons, List.lookup_cons, ih]
      cases site == other <;> rfl
  unfold plan without
  dsimp only
  rw [looks]
  cases registry.plans.lookup site <;> rfl

/-- The weaver that never runs the advice of a pointcut. -/
def Weaver.without (weaver : Weaver) (id : PointcutId) : Weaver :=
  { weaver with registry := weaver.registry.without id }

/-! ## Scripts do not see plans -/

namespace Script

mutual

theorem runStep_withPlans (plans : List (Site × Plan)) (context : Context) (step : Step) :
    runStep (context.withPlans plans) step = runStep context step := by
  cases step with
  | guard relations permitted otherwise =>
    rw [runStep, runStep, runSteps_withPlans plans context permitted, runSteps_withPlans plans context otherwise]
  | _ =>
    unfold runStep
    rfl

theorem runSteps_withPlans (plans : List (Site × Plan)) (context : Context) (steps : List Step) :
    runSteps (context.withPlans plans) steps = runSteps context steps := by
  cases steps with
  | nil => rw [runSteps, runSteps]
  | cons step steps =>
    rw [runSteps, runSteps, runStep_withPlans plans context step, runSteps_withPlans plans context steps]

end

theorem body_withPlans (script : Script) (plans : List (Site × Plan)) (context : Context) :
    body script (context.withPlans plans) = body script context := by
  unfold body
  rw [runSteps_withPlans]

end Script

/-- All bodies of a program are scripts. -/
def Program.Scripted (program : Program) : Prop := ∀ id, ∃ script, program.body id = Script.body script

namespace Weaver

variable {weaver : Weaver} {id : PointcutId} {pointcut : PointcutEntry} {script : Script}
  {origin left right : Machine}

section Observer

variable (scripted : weaver.Scripted) (numbered : weaver.registry.Numbered)
  (known : weaver.registry.pointcut? id = some pointcut) (code : weaver.body pointcut.body = Script.body script)
  (observes : script.observes = true)

include numbered known code observes in
/-- Advice that observes falls through, and it may be left out of the second run. -/
theorem runAdvice_thinned (calling : Calling) (point : JoinPoint) (result : Option Value)
    (bonded : Bond.Thinned id origin left right) :
    let ended := (weaver.runAdvice calling point result id).run.run left
    ended.1 = .ok none ∧ Bond.Thinned id origin ended.2 right := by
  have same : pointcut.id = id := numbered.pointcuts _ _ known
  have dropped : Event.Spares id (.advice pointcut.id pointcut.advice point.site) = false := by
    simp [Event.Spares, Event.startedAdvice?, same]
  have observed :
      let ended := (weaver.runAdviceBody calling pointcut point result).run
        (left.record (.advice pointcut.id pointcut.advice point.site));
      ended.1 = .ok .next ∧ Bond.Thinned id origin ended.2 right := by
    unfold runAdviceBody
    dsimp only
    rw [code]
    exact (Script.body_observes _ observes).thinned (bonded.record_left dropped) _ _ {}
  rw [run_runAdvice_of_known weaver calling bonded.going known]
  rcases body : (weaver.runAdviceBody calling pointcut point result).run
    (left.record (.advice pointcut.id pointcut.advice point.site)) with ⟨ending, after⟩
  rw [body] at observed
  obtain ⟨rfl, still⟩ := observed
  exact ⟨rfl, still⟩

include scripted in
/-- Code of the same script does the same in both runs. -/
theorem body_without_agree (body : BodyId) (context : Context) {call other : Call → Attempt Value}
    {join arrive : Activity.Join} (hosts : Activity.HostsAgree (Bond.Thinned id origin) call other join arrive) :
    Activity.Agree (Bond.Thinned id origin) (Activity.perform call join (weaver.body body context))
      (Activity.perform other arrive
        ((weaver.without id).body body (context.withPlans (weaver.without id).registry.plans))) := by
  obtain ⟨script, code⟩ := scripted body
  have same : (weaver.without id).body body = weaver.body body := rfl
  rw [same, code, Script.body_withPlans]
  exact Activity.perform_agree (Bond.thinned_kept id origin) hosts _
    (Or.inl (Script.body_prompt context script).steady)

include scripted in
/-- The advice that is left does the same in both runs. -/
theorem runAdvice_without_agree {calling other : Calling}
    (calls : CallsAgree (Bond.Thinned id origin) calling other) (point : JoinPoint) (result : Option Value)
    (left : PointcutId) :
    Attempt.Agree (Bond.Thinned id origin) (weaver.runAdvice calling point result left)
      ((weaver.without id).runAdvice other point result left) := by
  have kept := Bond.thinned_kept id origin
  have alters : weaver.without id = weaver.altered (weaver.without id).registry.plans weaver.bodies := rfl
  rw [alters]
  refine runAdvice_agree_of_return kept fun pointcut _ => ?_
  let context : Context :=
    ⟨weaver.registry, .advice pointcut.id point.site, point.site.member, point.this, point.args, result⟩
  have bodies := body_without_agree scripted pointcut.body context
    (refuse_agree calls (weaver.registry.adviceCaller pointcut.owner) context)
  refine (Attempt.Agree.lift (bodies.run' {})).bind fun ending => ?_
  exact adviceReturn_agree kept pointcut point.site ending

include scripted numbered known code observes

/-- A list of advice does the same as what is left of it. -/
theorem runAdviceList_thinned_agree {calling other : Calling}
    (calls : CallsAgree (Bond.Thinned id origin) calling other) (point : JoinPoint) (result : Option Value)
    (ids : List PointcutId) :
    Attempt.Agree (Bond.Thinned id origin) (weaver.runAdviceList calling point result ids)
      ((weaver.without id).runAdviceList other point result (ids.filter (· ≠ id))) := by
  induction ids with
  | nil => exact Attempt.Agree.pure _
  | cons first ids ih =>
    by_cases same : first = id
    · subst same
      have left : (first :: ids).filter (· ≠ first) = ids.filter (· ≠ first) := by simp
      rw [left]
      intro machine second bonded
      obtain ⟨falls, still⟩ := runAdvice_thinned numbered known code observes calling point result bonded
      rcases run : (weaver.runAdvice calling point result first).run.run machine with ⟨returned, after⟩
      rw [run] at falls still
      cases falls
      rw [runAdviceList, Attempt.run_bind, run]
      exact ih after second still
    · have left : (first :: ids).filter (· ≠ id) = first :: ids.filter (· ≠ id) := by simp [same]
      rw [left]
      refine (runAdvice_without_agree scripted calls point result first).bind fun returned => ?_
      cases returned with
      | none => exact ih
      | some value => exact Attempt.Agree.pure _

/-- The code of both runs agrees. -/
theorem code_without_agree :
    weaver.CodeAgrees (Bond.Thinned id origin) (weaver.without id).registry.plans weaver.bodies where
  before calls point := by
    have planned : ((weaver.without id).registry.plan point.site).before =
        (weaver.registry.plan point.site).before.filter (· ≠ id) :=
      congrArg Plan.before (weaver.registry.plan_without id point.site)
    have agree := runAdviceList_thinned_agree scripted numbered known code observes calls point none
      (weaver.registry.plan point.site).before
    rw [← planned] at agree
    exact agree
  after calls point result := by
    have planned : ((weaver.without id).registry.plan point.site).after =
        (weaver.registry.plan point.site).after.filter (· ≠ id) :=
      congrArg Plan.after (weaver.registry.plan_without id point.site)
    have agree := runAdviceList_thinned_agree scripted numbered known code observes calls point (some result)
      (weaver.registry.plan point.site).after
    rw [← planned] at agree
    exact agree
  body _ _ _ _ _ _ _ hosts := body_without_agree scripted _ _ hosts

end Observer

/-! ## Runs without an observer -/

/-- The advice that is taken away records nothing in the second run. -/
theorem trace_without (numbered : weaver.registry.Numbered) (id : PointcutId) (caller : Caller) (call : Call)
    (machine : Machine) :
    ∃ events, (((weaver.without id).invoke caller call).run.run machine).2.chain.trace =
      machine.chain.trace ++ events ∧ ∀ event ∈ events, event.Spares id = true := by
  have permits (member : MemberId) : (weaver.without id).Permits (fun event => event.Spares id = true) member := by
    refine ⟨fun _ => rfl, fun site _ planned held => ⟨fun pointcut known => ?_, fun _ _ _ => rfl⟩⟩
    have same : pointcut.id = planned := numbered.pointcuts _ _ known
    have other : planned ≠ id := by
      have left : (weaver.without id).registry.plan site = (weaver.registry.plan site).without id :=
        weaver.registry.plan_without id site
      rw [left, Plan.all, List.mem_append] at held
      rcases held with before | after
      · simpa using (List.mem_filter.mp before).2
      · simpa using (List.mem_filter.mp after).2
    simp [Event.Spares, Event.startedAdvice?, same, other]
  have invocations (caller : Caller) (call : Call) (member : MemberEntry) :
      ((weaver.without id).invocationProcess caller call member).Records (fun event => event.Spares id = true) :=
    invocationProcess_records (permits member.id) (fun _ _ _ => rfl) rfl (fun _ => rfl) caller call
  exact trace_of_leads invocations (recording_start caller call machine) (leads_invoke _ caller call machine)

/-- **Observers cannot change the program.** Take a pointcut of an accepted program of scripts whose own script
only emits lines and looks for cancellation, under any code security blocks. Where it is planned nowhere, every
invocation on a chain that is not cancelled comes to the same result with the same frames and the same objects;
its trace is that of the original one without the advice of the pointcut, and some lines may be missing from its
output. -/
theorem invoke_without {model : Model}
    (accepted : Program.build model.toDeclarations model.bindings = .ok weaver.toProgram) {name : String}
    (known : weaver.registry.pointcut? id = some pointcut)
    (isScript : model.scripts[pointcut.body.index]? = some (name, script)) (observes : script.observes = true)
    (caller : Caller) (call : Call) (machine : Machine) (going : machine.chain.cancelled = false) :
    let (result, after) := (weaver.invoke caller call).run.run machine
    let (other, thinned) := ((weaver.without id).invoke caller call).run.run machine
    other = result ∧ thinned.chain.frames = after.chain.frames ∧ thinned.nextObject = after.nextObject ∧
      (∃ events, after.chain.trace = machine.chain.trace ++ events ∧
        thinned.chain.trace = machine.chain.trace ++ events.filter (·.startedAdvice? ≠ some id)) ∧
      ∃ lines others, after.output = machine.output ++ lines ∧ thinned.output = machine.output ++ others ∧
        others.Sublist lines := by
  have numbered := Registry.numbered_of_build (Program.registry_of_build accepted)
  have scripted : weaver.Scripted := fun body => ⟨_, Program.body_of_build accepted body⟩
  have code : weaver.body pointcut.body = Script.body script := by
    rw [Program.body_of_build accepted, isScript]
    rfl
  have agree := invoke_agree (Bond.thinned_nested id machine)
    (fun _ => code_without_agree scripted numbered known code observes) () caller call
  obtain ⟨same, thinned⟩ := agree machine machine (.refl going)
  obtain ⟨recorded, told, spared⟩ := trace_without numbered id caller call machine
  exact ⟨same.symm, thinned.frames.symm, thinned.nextObject.symm, thinned.trace told spared, thinned.output⟩

/-- A workshop where somebody looks on when the glue has dried. Nothing else waits for that. -/
def workshop : Model where
  modules := [⟨"yard"⟩]
  types := [{ name := "Workshop", module := "yard" }]
  members :=
    [{ owner := "Workshop", name := "Build", isStatic := true, returns := "string", body := some "build"
       points := [{ name := "Glue" }] }]
  aspects := [{ name := "Visit", module := "yard" }]
  pointcuts :=
    [{ advice := .after, pattern := "point *.Build.Glue", body := "look", owner := .aspect "Visit" },
      { advice := .after, pattern := "Build", returns := some "string", body := "paint", owner := .aspect "Visit" }]
  scripts :=
    [("build", [.join "Glue" [], .give (.literal (.text "chair"))]),
      ("look", [.checkpoint, .guard (.only .external) [.emit "a {result}"] []]),
      ("paint", [.emit "paint", .give (.literal (.text "red chair"))])]

/-- The chair is painted in any case. -/
theorem invoke_without_workshop :
    ∃ program, Program.build workshop.toDeclarations workshop.bindings = .ok program ∧
      let weaver : Weaver := ⟨program, {}⟩
      let (result, after) := (weaver.invoke .external ⟨⟨0⟩, none, []⟩).run.run { chain := { tracing := true } }
      let (other, thinned) :=
        ((weaver.without ⟨0⟩).invoke .external ⟨⟨0⟩, none, []⟩).run.run { chain := { tracing := true } }
      result = .ok (.text "red chair") ∧ other = result ∧ after.output = ["a chair", "paint"] ∧
        after.chain.trace =
          [.enter ⟨0⟩ .external .external 0, .advice ⟨0⟩ .after (.point ⟨0⟩ 0), .advice ⟨1⟩ .after (.exit ⟨0⟩),
            .shortCircuit ⟨1⟩ (.exit ⟨0⟩), .exit ⟨0⟩] ∧
        thinned.chain.trace =
          [.enter ⟨0⟩ .external .external 0, .advice ⟨1⟩ .after (.exit ⟨0⟩), .shortCircuit ⟨1⟩ (.exit ⟨0⟩),
            .exit ⟨0⟩] := by
  have runs : (Program.build workshop.toDeclarations workshop.bindings).toOption.bind (fun program =>
      (program.registry.pointcut? ⟨0⟩).bind fun pointcut =>
        let invoked := (invoke ⟨program, {}⟩ .external ⟨⟨0⟩, none, []⟩).run.run { chain := { tracing := true } }
        if pointcut.body.index = 1 ∧ invoked.1 = .ok (.text "red chair") ∧
            invoked.2.output = ["a chair", "paint"] ∧ invoked.2.chain.trace =
              [.enter ⟨0⟩ .external .external 0, .advice ⟨0⟩ .after (.point ⟨0⟩ 0),
                .advice ⟨1⟩ .after (.exit ⟨0⟩), .shortCircuit ⟨1⟩ (.exit ⟨0⟩), .exit ⟨0⟩] then
          some ()
        else none) = some () := by
    decide +kernel
  obtain ⟨program, built, runs⟩ := Program.exists_of_run? runs
  obtain ⟨pointcut, known, runs⟩ := Option.bind_eq_some_iff.mp runs
  obtain ⟨⟨body, result, output, trace⟩, -⟩ := Option.ite_none_right_eq_some.mp runs
  have accepted : Program.build workshop.toDeclarations workshop.bindings =
      .ok (Weaver.toProgram ⟨program, {}⟩) := built
  have isScript : workshop.scripts[pointcut.body.index]? =
      some ("look", [.checkpoint, .guard (.only .external) [.emit "a {result}"] []]) := by
    rw [body]
    rfl
  obtain ⟨same, -, -, ⟨events, whole, rest⟩, -⟩ := invoke_without accepted known isScript (by decide) .external
    ⟨⟨0⟩, none, []⟩ { chain := { tracing := true } } rfl
  have listed : events = _ := whole.symm.trans trace
  rw [listed] at rest
  exact ⟨program, built, result, same, output, trace, rest⟩

/-- Only arrivals with advice behind them need to be remembered: the others change nothing when the body has come
to its end. -/
theorem settle_remembered (weaver : Weaver) (calling : Calling) (activation : Activation) (value : Value)
    (arrivals : List Arrival) :
    weaver.settle calling activation value
        (arrivals.filter fun arrival => !(weaver.registry.plan (activation.point arrival).site).after.isEmpty) =
      weaver.settle calling activation value arrivals := by
  induction arrivals with
  | nil => rfl
  | cons arrival arrivals ih =>
    cases planned : (weaver.registry.plan (activation.point arrival).site).after with
    | nil =>
      have forgotten : (weaver.runAfter calling (activation.point arrival) value).run = pure (.ok none) := by
        rw [runAfter, planned]
        rfl
      rw [List.filter_cons_of_neg (by simp [planned]), ih, settle, forgotten, pure_bind]
    | cons id ids => rw [List.filter_cons_of_pos (by simp [planned]), settle, settle, ih]

end Weaver

end Weaving
