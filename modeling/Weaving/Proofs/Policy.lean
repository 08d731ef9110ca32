import Weaving.Proofs.Courses
import Weaving.Proofs.Planning
import Weaving.Proofs.Scripts

/-!
Order and policy. In a program of scripts every activation on a chain that nobody cancels takes a course that
obeys its plans and settings (`Weaver.watch_obeys`). Scripts end where a join point stops them, and plans
hold no pointcuts but those that exist; what each part of an activation then yields is shown part by part,
as the activation is put together.
-/

namespace Weaving

/-! ## Work with an account -/

namespace Weaver.Watched

variable {α β : Type} {start : List PointRun → Visits → Prop} {next : β → List PointRun → Visits → Prop}

/-- Work with an account that starts in one way ends in another, on a chain that is not cancelled. -/
def Yields (start : List PointRun → Visits → Prop) (post : α → List PointRun → Visits → Prop)
    (work : Watched α) : Prop :=
  ∀ account visits, start account visits →
    Execution.Yields (fun reached => post reached.1.1 reached.1.2 reached.2)
      ((work.run account).run visits)

theorem Yields.bind {post : α → List PointRun → Visits → Prop} {work : Watched α}
    {rest : α → Watched β} (first : Yields start post work) (each : ∀ a, Yields (post a) next (rest a)) :
    Yields start next (work >>= rest) := by
  intro account visits holds
  change Execution.Yields _ ((work.run account).run visits >>= fun reached =>
    ((rest reached.1.1).run reached.1.2).run reached.2)
  exact (first account visits holds).bind fun reached between =>
    each reached.1.1 reached.1.2 reached.2 between

/-- What the machine is asked for leaves the account alone. -/
theorem Yields.ask {post : α → Prop} {work : Execution α} {rest : α → Watched β}
    (first : Execution.Yields post work) (each : ∀ a, post a → Yields start next (rest a)) :
    Yields start next (liftM work >>= rest) := by
  intro account visits holds
  change Execution.Yields _ (work >>= fun a => ((rest a).run account).run visits)
  exact first.bind fun a got => each a got account visits holds

end Weaver.Watched

/-- What a weaver needs for its activations to be orderly: bodies that are prompt, and plans of pointcuts
that exist. -/
structure Weaver.Orderly (weaver : Weaver) : Prop where
  prompt : weaver.Prompt
  known : ∀ site, ∀ id ∈ (weaver.registry.plan site).all, (weaver.registry.pointcut? id).isSome = true

namespace Weaver

open Execution (Yields)

variable {weaver : Weaver} (orderly : weaver.Orderly)
include orderly

theorem watchAdvice_yields (point : JoinPoint) (result : Option Value) {id : PointcutId}
    (known : (weaver.registry.pointcut? id).isSome = true) :
    Yields (fun reached => reached.1 = [⟨id, reached.2⟩])
      (weaver.watchAdvice weaver.invoke point result id) := by
  have steady : Yields (fun _ => True) (weaver.runAdvice weaver.invoke point result id).run :=
    (runAdvice_agree Bond.steady_kept (bodies_steady orderly.prompt) (invoke_steady orderly.prompt)
      point result id).yields
  intro machine going
  obtain ⟨-, still⟩ := steady machine going
  have runs : (!machine.chain.cancelled && (weaver.registry.pointcut? id).isSome) = true := by
    rw [going, known]
    rfl
  exact ⟨if_pos runs, still⟩

theorem watchList_yields (point : JoinPoint) (result : Option Value) {ids : List PointcutId}
    (known : ∀ id ∈ ids, (weaver.registry.pointcut? id).isSome = true) :
    Yields (fun reached => Ran ids reached.1 reached.2)
      (weaver.watchList weaver.invoke point result ids) := by
  induction ids with
  | nil => exact Yields.pure Ran.nothing
  | cons id ids ih =>
    refine (watchAdvice_yields orderly point result (known id List.mem_cons_self)).bind
      fun (step, ending) ran => ?_
    obtain rfl : step = [⟨id, ending⟩] := ran
    match ending with
    | .ok none =>
      refine (ih fun id held => known id (List.mem_cons_of_mem _ held)).bind fun (steps, ending) rest => ?_
      exact Yields.pure (Ran.passed rest)
    | .ok (some value) => exact Yields.pure (Ran.stopped (by simp))
    | .error fault => exact Yields.pure (Ran.stopped (by simp))

theorem watchBefore_yields (point : JoinPoint) :
    Yields (fun reached => Ran (weaver.registry.plan point.site).before reached.1 reached.2)
      (weaver.watchBefore weaver.invoke point) :=
  watchList_yields orderly point none fun id held =>
    orderly.known point.site id (List.mem_append_left _ held)

theorem watchAfter_yields (point : JoinPoint) (result : Value) :
    Yields (fun reached => Ran (weaver.registry.plan point.site).after reached.1 reached.2)
      (weaver.watchAfter weaver.invoke point result) :=
  watchList_yields orderly point (some result) fun id held =>
    orderly.known point.site id (List.mem_append_right _ held)

/-- An arrival is passed, or it stops the body. -/
theorem watchArrive_yields (context : Context) (name : String) (args : List Value) :
    Watched.Yields (Passed (weaver.pointPlan context.member))
      (fun result account visits => match result with
        | .ok _ => Passed (weaver.pointPlan context.member) account visits
        | .error interrupt =>
          Arrived (weaver.pointPlan context.member) account (.error interrupt) visits)
      (weaver.watchArrive weaver.invoke context name args) := by
  unfold watchArrive
  cases context.point? name with
  | none => exact fun account visits passed => Yields.pure (Arrived.finished passed _)
  | some index =>
    refine Watched.Yields.ask (watchBefore_yields orderly _) fun (steps, ending) before => ?_
    intro account visits passed
    match ending with
    | .ok none =>
      refine Yields.pure ⟨?_, passed.returned, passed.fault, ?_⟩
      · exact congrArg (⟨index, args⟩ :: ·) passed.arrivals
      · intro run held
        rcases List.mem_cons.mp held with rfl | held
        · exact before
        · exact passed.before run held
    | .ok (some value) => exact Yields.pure (Arrived.returned passed before)
    | .error fault => exact Yields.pure (Arrived.faulted passed before)

/-- A prompt body ends where an arrival stops it. -/
theorem perform_yields (context : Context) (caller : Caller) {action : Action Ending}
    (prompt : action.Prompt) :
    Watched.Yields (Passed (weaver.pointPlan context.member))
      (fun ending account visits => Arrived (weaver.pointPlan context.member) account ending visits)
      (Activity.perform (weaver.invoke caller) (weaver.watchArrive weaver.invoke context) action) := by
  have looks : Yields (fun _ => True) Execution.chain := fun _ going => ⟨trivial, going⟩
  induction action with
  | done ending => exact fun account visits passed => Yields.pure (Arrived.finished passed ending)
  | emit line next ih =>
    exact Watched.Yields.ask (Execution.emit_agree Bond.steady_kept line).yields fun _ _ => ih prompt
  | relation next ih => exact Watched.Yields.ask looks fun chain _ => ih _ (prompt chain.current)
  | call request next ih =>
    exact Watched.Yields.ask (invoke_steady orderly.prompt caller request).yields fun result _ =>
      ih result (prompt.after_call result)
  | join name args next ih =>
    refine (watchArrive_yields orderly context name args).bind fun result => ?_
    cases result with
    | ok _ => exact ih _ prompt.1
    | error interrupt =>
      rw [prompt.2 interrupt]
      exact fun account visits arrived => Yields.pure arrived
  | allocate type next ih =>
    exact Watched.Yields.ask (Execution.allocate_agree Bond.steady_kept type).yields fun object _ =>
      ih object (prompt object)
  | poll next ih => exact Watched.Yields.ask looks fun chain _ => ih _ (prompt chain.cancelled)
  | cancel next ih => exact prompt.elim

theorem watchSettle_yields (activation : Activation) (value : Value) (arrivals : List Arrival) :
    Yields (fun reached => Settled (weaver.pointPlan activation.member.id) value arrivals reached.1
        reached.2)
      (weaver.watchSettle weaver.invoke activation value arrivals) := by
  induction arrivals with
  | nil => exact Yields.pure Settled.nothing
  | cons arrival arrivals ih =>
    refine (watchAfter_yields orderly (activation.point arrival) value).bind
      fun (steps, ending) after => ?_
    match ending with
    | .ok none => exact ih.bind fun (behind, verdict) rest => Yields.pure (Settled.passed after rest)
    | .ok (some other) => exact Yields.pure (Settled.returned after)
    | .error fault => exact Yields.pure (Settled.faulted after)

/-- What a body has come to, with its advice, is judged by what happened in it. -/
theorem watchJudge_yields (activation : Activation) {account : List PointRun} {ending : Ending}
    {visits : Visits}
    (arrived : Arrived (weaver.pointPlan activation.member.id) account ending visits) :
    Yields (fun reached => BodyRun.Judged (weaver.pointPlan activation.member.id)
        ⟨account, ending, reached.1⟩ reached.2)
      (weaver.watchJudge weaver.invoke activation ending visits) := by
  unfold watchJudge
  cases arrived with
  | returned passed before => exact Yields.pure (passed.judged_of_returned before)
  | faulted passed before =>
    rw [passed.returned]
    simp only [Ending.result, ne_eq, not_true_eq_false, decide_false]
    exact Yields.pure (passed.judged_of_faulted before)
  | finished passed =>
    rw [passed.returned, passed.fault]
    cases ends : ending.result with
    | error fault => exact Yields.pure (passed.judged_of_fault ends)
    | ok value =>
      intro machine going
      obtain ⟨settled, still⟩ := watchSettle_yields orderly activation value visits.arrivals machine going
      exact ⟨passed.judged_of_settled ends settled, still⟩

theorem watchBody_yields (activation : Activation) :
    Yields (fun reached => reached.1.Judged (weaver.pointPlan activation.member.id) reached.2)
      (weaver.watchBody weaver.invoke activation) := by
  have start : Passed (weaver.pointPlan activation.member.id) [] {} := ⟨rfl, rfl, rfl, by simp⟩
  refine (perform_yields orderly _ _ (orderly.prompt activation.body _) [] {} start).bind
    fun ((ending, account), visits) arrived => ?_
  exact (watchJudge_yields orderly activation arrived).bind fun _ judged => Yields.pure judged

/-- The advice at the entry and the body are judged by what happened in them. -/
theorem watchInside_yields (activation : Activation) :
    Yields (fun reached => ∀ exit, Course.Judged weaver activation ⟨reached.1.1, reached.1.2, exit⟩
        reached.2)
      (weaver.watchInside weaver.invoke activation) := by
  refine (watchBefore_yields orderly activation.entry).bind fun (entry, ending) ran => ?_
  match ending with
  | .ok none =>
    refine (watchBody_yields orderly activation).bind fun (body, verdict) judged => ?_
    exact Yields.pure fun exit => Course.judged_of_body ran judged exit
  | .ok (some value) =>
    exact Yields.pure (Course.judged_of_stopped ran (by simp) (by simp) (by simp))
  | .error fault =>
    exact Yields.pure (Course.judged_of_stopped ran (by simp) (by simp) (by simp [eq_comm]))

theorem watchExit_yields (activation : Activation) (value : Value) :
    Yields (fun reached => ∃ steps, reached.1 = some steps ∧ Replaces steps value reached.2 ∧
        Follows (weaver.registry.plan (.exit activation.member.id)).after steps)
      (weaver.watchExit weaver.invoke activation value) :=
  (watchAfter_yields orderly activation.exit value).bind fun (steps, _) ran =>
    Yields.pure ⟨steps, rfl, ran.replaces value, ran.follows⟩

theorem watchFault_yields (activation : Activation) (fault : Fault) :
    Yields (fun reached => ∃ steps, reached.1 = some steps ∧ reached.2 = .error fault ∧
        Follows (weaver.registry.plan (.exit activation.member.id)).after steps)
      (weaver.watchFault weaver.invoke activation fault) := by
  refine (watchAfter_yields orderly activation.exit .null).bind fun (steps, ending) ran => ?_
  cases ending with
  | ok _ => exact Yields.pure ⟨steps, rfl, rfl, ran.follows⟩
  | error dropped =>
    exact (Execution.record_agree Bond.steady_kept _).yields.bind fun _ _ =>
      Yields.pure ⟨steps, rfl, rfl, ran.follows⟩

theorem watchConclude_yields (activation : Activation) (verdict : Verdict) :
    Yields (fun reached => Concluded weaver activation verdict reached.1 reached.2)
      (weaver.watchConclude weaver.invoke activation verdict) := by
  match verdict with
  | .completed value =>
    refine (watchExit_yields orderly activation value).mono ?_
    rintro ⟨_, outcome⟩ ⟨steps, rfl, replaces, follows⟩
    exact Concluded.of_exit (Or.inl rfl) replaces follows
  | .returned value =>
    unfold watchConclude
    dsimp only
    split
    · rename_i runs
      refine (watchExit_yields orderly activation value).mono ?_
      rintro ⟨_, outcome⟩ ⟨steps, rfl, replaces, follows⟩
      exact Concluded.of_exit (Or.inr ⟨rfl, runs⟩) replaces follows
    · rename_i skips
      exact Yields.pure ⟨by simp, by simp [skips], by simpa using Replaces.nil value, by simp⟩
  | .failed fault ofBody =>
    unfold watchConclude
    dsimp only
    split
    · rename_i runs
      rw [Bool.and_eq_true] at runs
      refine (watchFault_yields orderly activation fault).mono ?_
      rintro ⟨_, outcome⟩ ⟨steps, rfl, rfl, follows⟩
      refine ⟨?_, by simp [runs], by simp, by simp⟩
      rintro _ ⟨rfl⟩
      exact follows
    · rename_i skips
      rw [Bool.and_eq_true] at skips
      exact Yields.pure ⟨by simp, by simpa using skips, by simp, by simp⟩

/-- The course of an activation obeys. -/
theorem watch_yields (activation : Activation) :
    Yields (fun reached => reached.1.Obeys weaver activation reached.2)
      (weaver.watch weaver.invoke activation) := by
  refine (watchInside_yields orderly activation).bind fun ((entry, body), verdict) judged => ?_
  refine (watchConclude_yields orderly activation verdict).bind fun (exit, outcome) concluded => ?_
  exact Yields.pure ((judged exit).obeys concluded)

omit orderly

/-- An accepted program of scripts is orderly, whatever the settings are. -/
theorem orderly_of_build {model : Model}
    (accepted : Program.build model.toDeclarations model.bindings = .ok weaver.toProgram) :
    weaver.Orderly where
  prompt := Program.prompt_of_build accepted
  known _ _ held := Registry.pointcut?_isSome_of_mem_plan (Program.registry_of_build accepted) held

/-- **Order and policy of an activation.** In an accepted program of scripts, on a chain that is not
cancelled, every activation takes a course that obeys the plans and the settings. -/
theorem watch_obeys {model : Model}
    (accepted : Program.build model.toDeclarations model.bindings = .ok weaver.toProgram)
    (activation : Activation) {machine : Machine} (going : machine.chain.cancelled = false) :
    ∃ course outcome after,
      (weaver.watch weaver.invoke activation).run machine = ((course, outcome), after) ∧
      (weaver.run weaver.invoke activation).run.run machine = (outcome, after) ∧
      course.Obeys weaver activation outcome := by
  obtain ⟨obeys, -⟩ := watch_yields (orderly_of_build accepted) activation machine going
  have erased := congrFun (weaver.watch_erases weaver.invoke activation) machine
  exact ⟨_, _, _, rfl, erased.symm, obeys⟩

/-- A vault with advice at its entry, at a join point inside it and at its exit, which replaces the result. -/
def guardedVault : Model where
  modules := [⟨"bank"⟩]
  types := [{ name := "Vault", module := "bank" }]
  members :=
    [{ owner := "Vault", name := "Open", returns := "string", isStatic := true, body := some "open"
       points := [⟨"Turn", []⟩] }]
  aspects := [{ name := "Guard", module := "bank" }]
  pointcuts :=
    [{ advice := .before, pattern := "Open", body := "look", owner := .aspect "Guard" },
      { advice := .before, pattern := "point *.Open.Turn", body := "look", owner := .aspect "Guard" },
      { advice := .after, pattern := "Open", returns := some "string", body := "swap",
        owner := .aspect "Guard" }]
  scripts :=
    [("look", [.emit "{relation}"]),
      ("open", [.join "Turn" [], .give (.literal (.text "gold"))]),
      ("swap", [.give (.literal (.text "lead"))])]

theorem watch_obeys_guardedVault :
    ∃ (program : Program) (member : MemberEntry),
      Program.build guardedVault.toDeclarations guardedVault.bindings = .ok program ∧
      program.registry.member? ⟨0⟩ = some member ∧
      ∃ course outcome after,
        (watch ⟨program, {}⟩ (invoke ⟨program, {}⟩) ⟨member, ⟨1⟩, none, []⟩).run
          { chain := { tracing := true } } = ((course, outcome), after) ∧
        (run ⟨program, {}⟩ (invoke ⟨program, {}⟩) ⟨member, ⟨1⟩, none, []⟩).run.run
          { chain := { tracing := true } } = (outcome, after) ∧
        course.Obeys ⟨program, {}⟩ ⟨member, ⟨1⟩, none, []⟩ outcome ∧
        outcome = .ok (.text "lead") := by
  have runs : (Program.build guardedVault.toDeclarations guardedVault.bindings).toOption.bind
      (fun program => (program.registry.member? ⟨0⟩).bind fun member =>
        ((run ⟨program, {}⟩ (invoke ⟨program, {}⟩) ⟨member, ⟨1⟩, none, []⟩).run.run
          { chain := { tracing := true } }).1.toOption) = some (.text "lead") := by
    decide +kernel
  obtain ⟨program, isProgram, runs⟩ := Option.bind_eq_some_iff.mp runs
  obtain ⟨member, isMember, runs⟩ := Option.bind_eq_some_iff.mp runs
  have accepted : Program.build guardedVault.toDeclarations guardedVault.bindings = .ok program := by
    cases built : Program.build guardedVault.toDeclarations guardedVault.bindings with
    | ok other =>
      rw [built] at isProgram
      cases isProgram
      rfl
    | error problems =>
      rw [built] at isProgram
      cases isProgram
  have inWeaver : Program.build guardedVault.toDeclarations guardedVault.bindings =
      .ok (Weaver.toProgram ⟨program, {}⟩) := accepted
  have going : Chain.cancelled (Machine.chain { chain := { tracing := true } }) = false := rfl
  obtain ⟨course, outcome, after, watched, ran, obeys⟩ :=
    watch_obeys inWeaver ⟨member, ⟨1⟩, none, []⟩ going
  refine ⟨program, member, accepted, isMember, course, outcome, after, watched, ran, obeys, ?_⟩
  rw [ran] at runs
  cases outcome with
  | ok value => exact congrArg Except.ok (Option.some.inj runs)
  | error fault => cases runs

end Weaver

end Weaving
