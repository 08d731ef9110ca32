import Weaving.Proofs.Acceptance
import Weaving.Proofs.Records

/-!
The authority of advice. In an accepted program advice runs only where it is planned, and it stands in for a
member only if it declares a type that fits what the member returns. Advice that declares none may run, but not
return: a value from it ends the advice of the join point with a fault, and nothing that happens depends on what
the value was (`Weaver.invoke_lawful`).
-/

namespace Weaving

variable {α β : Type}

/-! ## Lawful events -/

/-- What the events of advice say is as the registry plans it. -/
def Event.Lawful (registry : Registry) : Event → Prop
  | .advice id .before site => id ∈ (registry.plan site).before
  | .advice id .after site => id ∈ (registry.plan site).after
  | .shortCircuit id site => id ∈ (registry.plan site).all ∧
    ∃ pointcut given member, registry.pointcut? id = some pointcut ∧ pointcut.returns = some given ∧
      registry.member? site.member = some member ∧ registry.isAssignable given member.returns = true
  | .enter _ _ _ _ | .masked _ _ | .exit _ | .fault _ _ => True

/-- Advice is planned on the side of a site that it is for. -/
theorem Event.lawful_advice {registry : Registry} {site : Site}
    (scanned : registry.Scanned site (registry.plan site)) {id : PointcutId}
    (planned : id ∈ (registry.plan site).all) {pointcut : PointcutEntry}
    (known : registry.pointcut? id = some pointcut) :
    Event.Lawful registry (.advice id pointcut.advice site) := by
  rcases List.mem_append.mp planned with before | after
  · obtain ⟨-, other, again, kind, -⟩ := (scanned.before id).mp before
    obtain rfl : other = pointcut := Option.some.inj (again.symm.trans known)
    rw [kind]
    exact before
  · obtain ⟨-, other, again, kind, -⟩ := (scanned.after id).mp after
    obtain rfl : other = pointcut := Option.some.inj (again.symm.trans known)
    rw [kind]
    exact after

namespace Weaver

variable {weaver : Weaver} {declared : Declarations} {bodies : List String}

/-- The events of an activation are lawful, since the advice of an accepted registry has been checked. -/
theorem permits_lawful (accepted : Registry.build declared bodies = .ok weaver.registry) (member : MemberId) :
    weaver.Permits (Event.Lawful weaver.registry) member where
  masked _ := trivial
  advice site _ id planned := by
    have numbered := Registry.numbered_of_build accepted
    constructor
    · intro pointcut known
      have same : pointcut.id = id := numbered.pointcuts _ _ known
      rw [same]
      exact Event.lawful_advice (Registry.scanned_of_build accepted site) planned known
    · intro pointcut known declares
      have same : pointcut.id = id := numbered.pointcuts _ _ known
      obtain ⟨given, isGiven⟩ := Option.isSome_iff_exists.mp declares
      obtain ⟨owner, isMember, fits⟩ := Registry.returns_of_build accepted planned known isGiven
      rw [same]
      exact ⟨planned, pointcut, given, owner, known, isGiven, isMember, fits⟩

end Weaver

/-! ## Values that are not returned -/

/-- A body ends with a value for its join point. -/
def Ending.Gives (value : Value) (ending : Ending) : Prop :=
  ending = .ok (.give value) ∨ ending = .error (.give value)

namespace Weaver

variable {weaver : Weaver} (calling : Calling)

/-- Advice that falls through makes way for the advice behind it. -/
theorem run_runAdviceList_append {point : JoinPoint} {result : Option Value} {earlier : List PointcutId}
    {machine between : Machine}
    (falls : (weaver.runAdviceList calling point result earlier).run.run machine = (.ok none, between))
    (rest : List PointcutId) :
    (weaver.runAdviceList calling point result (earlier ++ rest)).run.run machine =
      (weaver.runAdviceList calling point result rest).run.run between := by
  induction earlier generalizing machine with
  | nil =>
    cases falls
    rfl
  | cons id earlier ih =>
    rw [runAdviceList, Attempt.run_bind] at falls
    rw [List.cons_append, runAdviceList, Attempt.run_bind]
    rcases first : (weaver.runAdvice calling point result id).run.run machine with ⟨returned, after⟩
    rw [first] at falls
    match returned with
    | .ok none => exact ih falls
    | .ok (some value) => cases falls
    | .error fault => cases falls

/-- Advice whose turn it is at a join point, after the advice before it in the plan has fallen through, gives a
value although it declares no return type. -/
structure Oversteps (weaver : Weaver) (calling : Calling) (point : JoinPoint) (result : Option Value)
    (earlier : List PointcutId) (id : PointcutId) (pointcut : PointcutEntry) (machine between after : Machine) :
    Prop where
  turn : (weaver.runAdviceList calling point result earlier).run.run machine = (.ok none, between)
  going : between.chain.cancelled = false
  known : weaver.registry.pointcut? id = some pointcut
  untyped : pointcut.returns = none
  gives : ∃ ending value, Ending.Gives value ending ∧
    (weaver.runAdviceBody calling pointcut point result).run
      (between.record (.advice pointcut.id pointcut.advice point.site)) = (ending, after)

theorem adviceReturn_of_gives {pointcut : PointcutEntry} (untyped : pointcut.returns = none) (site : Site)
    {value : Value} {ending : Ending} (gives : ending.Gives value) :
    adviceReturn pointcut site ending = throw (.illegalAdviceReturn pointcut.source) := by
  rcases gives with rfl | rfl <;> simp [adviceReturn, untyped]

/-- The advice of the join point ends with a fault, when the body of the advice has come to its end. -/
theorem Oversteps.run_eq {point : JoinPoint} {result : Option Value} {earlier : List PointcutId}
    {id : PointcutId} {pointcut : PointcutEntry} {machine between after : Machine}
    (oversteps : weaver.Oversteps calling point result earlier id pointcut machine between after)
    (later : List PointcutId) :
    (weaver.runAdviceList calling point result (earlier ++ id :: later)).run.run machine =
      (.error (.illegalAdviceReturn pointcut.source), after) := by
  obtain ⟨ending, value, gives, body⟩ := oversteps.gives
  have advice : (weaver.runAdvice calling point result id).run.run between =
      (.error (.illegalAdviceReturn pointcut.source), after) := by
    rw [run_runAdvice_of_known _ calling oversteps.going oversteps.known, body]
    dsimp only
    rw [adviceReturn_of_gives oversteps.untyped point.site gives]
    rfl
  rw [run_runAdviceList_append calling oversteps.turn, runAdviceList, Attempt.run_bind, advice]

end Weaver

/-! ## Values that nothing depends on -/

/-- The same end with another value. -/
def Ending.changed (change : Value → Value) : Ending → Ending
  | .ok .next => .ok .next
  | .ok (.give value) => .ok (.give (change value))
  | .error (.give value) => .error (.give (change value))
  | .error (.fault fault) => .error (.fault fault)

/-- The code that runs is advice without a return type. -/
def Context.untyped (context : Context) : Bool :=
  match context.role with
  | .advice id _ => (context.registry.pointcut? id).any (·.returns.isNone)
  | .member | .default => false

/-- The body gives other values, where it is advice without a return type. -/
def Body.misreporting (change : Context → Value → Value) (body : Body) : Body := fun context =>
  if context.untyped then (body context).bind fun ending => .done (ending.changed (change context))
  else body context

namespace Weaver

/-- All advice without a return type gives other values. -/
def misreporting (weaver : Weaver) (change : Context → Value → Value) : Weaver :=
  weaver.withBodies (weaver.bodies.map (Body.misreporting change))

variable {weaver : Weaver} {change : Context → Value → Value}

theorem body_misreporting (id : BodyId) (context : Context) :
    (weaver.misreporting change).body id context = Body.misreporting change (weaver.body id) context := by
  simp only [Program.body, misreporting, withBodies, List.getElem?_map]
  cases weaver.bodies[id.index]? with
  | none =>
    unfold Body.misreporting
    split <;> rfl
  | some body => rfl

theorem adviceReturn_changed {pointcut : PointcutEntry} (untyped : pointcut.returns = none) (site : Site)
    (change : Value → Value) (ending : Ending) :
    adviceReturn pointcut site (ending.changed change) = adviceReturn pointcut site ending := by
  match ending with
  | .ok .next => rfl
  | .ok (.give value) =>
    rw [adviceReturn_of_gives untyped site (Or.inl rfl)]
    exact adviceReturn_of_gives untyped site (Or.inl rfl)
  | .error (.give value) =>
    rw [adviceReturn_of_gives untyped site (Or.inr rfl)]
    exact adviceReturn_of_gives untyped site (Or.inr rfl)
  | .error (.fault fault) => rfl

/-- What advice comes to does not depend on the values that are not to be returned. -/
theorem return_misreporting (calling : Calling) {pointcut : PointcutEntry}
    (known : weaver.registry.pointcut? pointcut.id = some pointcut) (point : JoinPoint)
    (result : Option Value) :
    ((liftM ((weaver.misreporting change).runAdviceBody calling pointcut point result) : Attempt Ending) >>=
      adviceReturn pointcut point.site) =
    ((liftM (weaver.runAdviceBody calling pointcut point result) : Attempt Ending) >>=
      adviceReturn pointcut point.site) := by
  have untyped (context : Context) (same : context.registry = weaver.registry)
      (plays : context.role = .advice pointcut.id point.site) :
      context.untyped = pointcut.returns.isNone := by
    simp only [Context.untyped, plays, same, known, Option.any_some]
  unfold runAdviceBody
  dsimp only
  rw [body_misreporting, Body.misreporting, untyped _ rfl rfl]
  cases declares : pointcut.returns with
  | some given => rfl
  | none =>
    have ends (activity : Activity Ending) (change : Value → Value) :
        ((liftM ((activity >>= fun ending => pure (ending.changed change)).run' {}) : Attempt Ending) >>=
          adviceReturn pointcut point.site) =
        ((liftM (activity.run' {}) : Attempt Ending) >>= adviceReturn pointcut point.site) := by
      funext machine
      exact congrFun (adviceReturn_changed declares point.site change _) _
    rw [if_pos Option.isNone_none, Activity.perform_bind]
    exact ends _ _

section Bonded

variable {frames : SecurityStack} {history : List Event} {calling other : Calling}

/-- Advice comes to the same, whatever values advice without a return type gives. -/
theorem runAdvice_misreporting_agree (numbered : weaver.registry.Numbered)
    (calls : CallsAgree (Bond.within frames history) calling other) (point : JoinPoint)
    (result : Option Value) (id : PointcutId) :
    Attempt.Agree (Bond.within frames history) (weaver.runAdvice calling point result id)
      ((weaver.misreporting change).runAdvice other point result id) := by
  have kept := Bond.within_kept frames history
  have same : weaver.misreporting change =
    weaver.altered weaver.registry.plans (weaver.bodies.map (Body.misreporting change)) := rfl
  rw [same]
  refine runAdvice_agree_of_return kept fun pointcut known => ?_
  rw [← same]
  obtain rfl : pointcut.id = id := numbered.pointcuts _ _ known
  rw [return_misreporting other known]
  refine (Attempt.Agree.lift ((weaver.bodies_agree _ _ (refuse_agree calls _ _)).run' _)).bind fun ending => ?_
  exact adviceReturn_agree kept pointcut point.site ending

theorem code_misreporting_agree (numbered : weaver.registry.Numbered) :
    weaver.CodeAgrees (Bond.within frames history) weaver.registry.plans
      (weaver.bodies.map (Body.misreporting change)) where
  before calls point := runAdviceList_agree_of_each (runAdvice_misreporting_agree numbered calls point none) _
  after calls point result :=
    runAdviceList_agree_of_each (runAdvice_misreporting_agree numbered calls point (some result)) _
  body id context own call other join arrive hosts := by
    have same : context.withPlans weaver.registry.plans = context := by
      rw [Context.withPlans, ← own.registry]
    have typed : context.untyped = false := by
      unfold Context.untyped
      split
      · rename_i plays
        exact absurd plays (own.role _ _)
      · rfl
      · rfl
    have code : (weaver.misreporting change).body id context = weaver.body id context := by
      rw [body_misreporting, Body.misreporting, typed]
      rfl
    change Activity.Agree _ _ (Activity.perform other arrive ((weaver.misreporting change).body id _))
    rw [same, code]
    exact weaver.bodies_agree id context hosts

end Bonded

/-- No run depends on the values that advice without a return type gives. -/
theorem run_misreporting (numbered : weaver.registry.Numbered) (change : Context → Value → Value)
    (caller : Caller) (call : Call) (machine : Machine) :
    ((weaver.misreporting change).invoke caller call).run.run machine =
      (weaver.invoke caller call).run.run machine := by
  have code (frames : SecurityStack) : weaver.CodeAgrees (Bond.within frames machine.chain.history)
      weaver.registry.plans (weaver.bodies.map (Body.misreporting change)) :=
    code_misreporting_agree numbered
  have agree := invoke_agree (within_nested machine.chain.history) code machine.chain.frames caller call
  exact (Execution.Agree.run_eq agree).symm

/-- A fault stands as the result, whatever the advice does that observes it. -/
theorem result_of_failed {calling : Calling} {activation : Activation} {machine after : Machine}
    {fault : Fault} {ofBody : Bool}
    (fails : (weaver.runInside calling activation).run machine = (.failed fault ofBody, after)) :
    ((weaver.run calling activation).run.run machine).1 = .error fault := by
  change ((weaver.conclude calling activation ((weaver.runInside calling activation).run machine).1).run.run
    ((weaver.runInside calling activation).run machine).2).1 = _
  rw [fails]
  unfold conclude
  dsimp only
  split <;> rfl

/-! ## Authority -/

/-- **Only planned advice acts, and only well-typed values replace results.** In an accepted program, at every
moment of every run, all events of advice in the trace are lawful: it is planned for the side of the site where
it runs, and where it returns a value it declares a type that fits what the member returns. Advice that declares
none and gives a value ends the advice of its join point with a fault, whatever advice stands behind it. What
that value was makes no difference to anything that happens, and where the advice observes a fault, that fault
is the result. -/
theorem invoke_lawful {declared : Declarations} {bindings : Bindings}
    (accepted : Program.build declared bindings = .ok weaver.toProgram) :
    (∀ caller call machine moment, weaver.Leads (.start caller call machine) moment →
      ∃ events, moment.machine.chain.trace = machine.chain.trace ++ events ∧
        ∀ event ∈ events, event.Lawful weaver.registry) ∧
    (∀ point result earlier id pointcut machine between after,
      weaver.Oversteps weaver.invoke point result earlier id pointcut machine between after → ∀ later,
      (weaver.runAdviceList weaver.invoke point result (earlier ++ id :: later)).run.run machine =
        (.error (.illegalAdviceReturn pointcut.source), after)) ∧
    (∀ change caller call machine, ((weaver.misreporting change).invoke caller call).run.run machine =
      (weaver.invoke caller call).run.run machine) ∧
    ∀ activation machine fault ofBody after,
      (weaver.runInside weaver.invoke activation).run machine = (.failed fault ofBody, after) →
      ((weaver.run weaver.invoke activation).run.run machine).1 = .error fault := by
  have built := Program.registry_of_build accepted
  refine ⟨fun caller call machine moment leads => ?_, ?_, ?_, ?_⟩
  · have invocations (caller : Caller) (call : Call) (member : MemberEntry) :
        (weaver.invocationProcess caller call member).Records (Event.Lawful weaver.registry) :=
      invocationProcess_records (permits_lawful built member.id) (fun _ _ _ => trivial) trivial
        (fun _ => trivial) caller call
    exact trace_of_leads invocations (recording_start caller call machine) leads
  · intro point result earlier id pointcut machine between after oversteps later
    exact oversteps.run_eq weaver.invoke later
  · exact run_misreporting (Registry.numbered_of_build built)
  · intro activation machine fault ofBody after fails
    exact result_of_failed fails

/-- A shop in which the price is rightly reduced, but what is left is told without a right to return it. -/
def shop : Model where
  modules := [⟨"market"⟩]
  types := [{ name := "Shop", module := "market" }]
  members :=
    [{ owner := "Shop", name := "Sell", isStatic := true, body := some "sell" },
      { owner := "Shop", name := "Price", isStatic := true, returns := "int", body := some "price" }]
  aspects := [{ name := "Sale", module := "market" }]
  pointcuts :=
    [{ advice := .after, pattern := "Price", returns := some "int", body := "reduce", owner := .aspect "Sale" },
      { advice := .after, pattern := "Sell", body := "count", owner := .aspect "Sale" }]
  scripts :=
    [("count", [.give (.literal (.int 0))]), ("price", [.give (.literal (.int 10))]),
      ("reduce", [.give (.literal (.int 8))]),
      ("sell", [.call "Price" .static false [] none, .fault "sold out"])]

/-- The reduction is in the trace. The count is a fault that is dropped, and it might be any other. -/
theorem invoke_lawful_shop :
    ∃ program, Program.build shop.toDeclarations shop.bindings = .ok program ∧
      let weaver : Weaver := ⟨program, { afterOnFault := true }⟩
      let machine : Machine := { chain := { tracing := true } }
      let invoked := (weaver.invoke .external ⟨⟨0⟩, none, []⟩).run.run machine
      invoked.1 = .error (.raised "sold out") ∧
      (∀ event ∈ invoked.2.chain.trace, event.Lawful program.registry) ∧
      invoked.2.chain.trace =
        [.enter ⟨0⟩ .external .external 0, .enter ⟨1⟩ .sameTypeDifferentInstance .sameTypeDifferentInstance 0,
          .advice ⟨0⟩ .after (.exit ⟨1⟩), .shortCircuit ⟨0⟩ (.exit ⟨1⟩), .exit ⟨1⟩,
          .advice ⟨1⟩ .after (.exit ⟨0⟩),
          .fault ⟨0⟩ "advice `Sell` returned a value but declares no return type", .fault ⟨0⟩ "sold out"] ∧
      ((weaver.misreporting fun _ _ => .text "plenty").invoke .external ⟨⟨0⟩, none, []⟩).run.run machine =
        invoked ∧
      ∃ after, (weaver.runAdviceList weaver.invoke ⟨.exit ⟨0⟩, none, []⟩ (some .null) [⟨1⟩]).run.run machine =
        (.error (.illegalAdviceReturn "Sell"), after) := by
  let point : JoinPoint := ⟨.exit ⟨0⟩, none, []⟩
  let began : Machine := { chain := { tracing := true } }
  have runs : (Program.build shop.toDeclarations shop.bindings).toOption.bind (fun program =>
      (program.registry.pointcut? ⟨1⟩).bind fun pointcut =>
        let weaver : Weaver := ⟨program, { afterOnFault := true }⟩
        let invoked := (weaver.invoke .external ⟨⟨0⟩, none, []⟩).run.run began
        let counted := (weaver.runAdviceBody weaver.invoke pointcut point (some .null)).run
          (began.record (.advice pointcut.id pointcut.advice point.site))
        if invoked.1 = .error (.raised "sold out") ∧ invoked.2.chain.trace =
            [.enter ⟨0⟩ .external .external 0,
              .enter ⟨1⟩ .sameTypeDifferentInstance .sameTypeDifferentInstance 0,
              .advice ⟨0⟩ .after (.exit ⟨1⟩), .shortCircuit ⟨0⟩ (.exit ⟨1⟩), .exit ⟨1⟩,
              .advice ⟨1⟩ .after (.exit ⟨0⟩),
              .fault ⟨0⟩ "advice `Sell` returned a value but declares no return type",
              .fault ⟨0⟩ "sold out"] ∧
            pointcut.returns = none ∧ pointcut.source = "Sell" ∧ counted.1 = .ok (.give (.int 0)) then
          some ()
        else none) = some () := by
    decide +kernel
  obtain ⟨program, built, runs⟩ := Program.exists_of_run? runs
  obtain ⟨pointcut, known, runs⟩ := Option.bind_eq_some_iff.mp runs
  obtain ⟨⟨result, recorded, untyped, named, gives⟩, -⟩ := Option.ite_none_right_eq_some.mp runs
  have accepted : Program.build shop.toDeclarations shop.bindings =
      .ok (Weaver.toProgram ⟨program, { afterOnFault := true }⟩) := built
  obtain ⟨lawful, oversteps, misreports, -⟩ := invoke_lawful accepted
  obtain ⟨events, trace, among⟩ := lawful _ _ _ _ (leads_invoke _ .external ⟨⟨0⟩, none, []⟩ began)
  refine ⟨program, built, result, ?_, recorded, misreports _ _ _ began, ?_⟩
  · have listed : _ = events := trace
    exact listed ▸ among
  · rw [← named]
    exact ⟨_, oversteps point (some .null) [] ⟨1⟩ pointcut began began _
      ⟨rfl, rfl, known, untyped, _, _, Or.inl rfl, Prod.ext gives rfl⟩ []⟩

end Weaver

end Weaving
