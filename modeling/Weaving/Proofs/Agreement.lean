import Weaving.Proofs.Invocation

/-!
Two runs side by side. A bond says what the machines of two runs have in common; two pieces of work agree
across it if they give the same result from bonded machines and leave bonded machines behind. Agreement
passes through everything that a weaver does (`runMember_agree`), so that two weavers whose advice, bodies
and nested calls agree cannot be told apart by the activations that they run, even if they do not plan the
same advice. If the bond can be carried into the frame of a call and back, all their invocations agree
(`invoke_agree`).
-/

namespace Weaving

variable {α β : Type}

/-- What the machines of two runs have in common. -/
abbrev Bond := Machine → Machine → Prop

/-! ## Agreement of work -/

namespace Execution

/-- From bonded machines both give the same result, and they leave bonded machines. -/
def Agree (bond : Bond) (first second : Execution α) : Prop :=
  ∀ left right, bond left right →
    (first.run left).1 = (second.run right).1 ∧ bond (first.run left).2 (second.run right).2

variable {bond : Bond}

theorem Agree.pure (a : α) : Agree bond (pure a) (pure a) := fun _ _ bonded => ⟨rfl, bonded⟩

theorem Agree.bind {first second : Execution α} {next other : α → Execution β}
    (start : Agree bond first second) (rest : ∀ a, Agree bond (next a) (other a)) :
    Agree bond (first >>= next) (second >>= other) := by
  intro left right bonded
  obtain ⟨same, between⟩ := start left right bonded
  rw [run_bind, run_bind, ← same]
  exact rest _ _ _ between

end Execution

namespace Attempt

def Agree (bond : Bond) (first second : Attempt α) : Prop :=
  Execution.Agree bond first.run second.run

variable {bond : Bond}

theorem Agree.pure (a : α) : Agree bond (pure a) (pure a) := Execution.Agree.pure _

theorem Agree.throw (fault : Fault) : Agree bond (throw fault : Attempt α) (throw fault) :=
  Execution.Agree.pure _

theorem Agree.lift {first second : Execution α} (same : Execution.Agree bond first second) :
    Agree bond (liftM first) (liftM second) :=
  same.bind fun _ => Execution.Agree.pure _

theorem Agree.bind {first second : Attempt α} {next other : α → Attempt β}
    (start : Agree bond first second) (rest : ∀ a, Agree bond (next a) (other a)) :
    Agree bond (first >>= next) (second >>= other) := by
  change Execution.Agree bond (first.run >>= ExceptT.bindCont next)
    (second.run >>= ExceptT.bindCont other)
  refine Execution.Agree.bind start fun result => ?_
  cases result with
  | error fault => exact Execution.Agree.pure _
  | ok a => exact rest a

end Attempt

namespace Activity

def Agree (bond : Bond) (first second : Activity α) : Prop :=
  ∀ visits, Execution.Agree bond (first.run visits) (second.run visits)

variable {bond : Bond}

theorem Agree.pure (a : α) : Agree bond (pure a) (pure a) := fun _ => Execution.Agree.pure _

theorem Agree.modify (change : Visits → Visits) : Agree bond (modify change) (modify change) :=
  fun _ => Execution.Agree.pure _

theorem Agree.lift {first second : Execution α} (same : Execution.Agree bond first second) :
    Agree bond (liftM first) (liftM second) := by
  intro visits
  change Execution.Agree bond (first >>= fun a => Pure.pure (a, visits))
    (second >>= fun a => Pure.pure (a, visits))
  exact same.bind fun a => Execution.Agree.pure (a, visits)

theorem Agree.bind {first second : Activity α} {next other : α → Activity β}
    (start : Agree bond first second) (rest : ∀ a, Agree bond (next a) (other a)) :
    Agree bond (first >>= next) (second >>= other) := by
  intro visits
  change Execution.Agree bond (first.run visits >>= fun reached => (next reached.1).run reached.2)
    (second.run visits >>= fun reached => (other reached.1).run reached.2)
  exact (start visits).bind fun reached => rest reached.1 reached.2

theorem Agree.run' {first second : Activity α} (same : Agree bond first second) (visits : Visits) :
    Execution.Agree bond (first.run' visits) (second.run' visits) :=
  (same visits).bind fun reached => Execution.Agree.pure reached.1

end Activity

/-! ## Bonds that the machine keeps -/

/-- Bonded machines look alike to running code, and stay bonded while code acts on both. -/
structure Bond.Kept (bond : Bond) : Prop where
  cancelled : ∀ {left right}, bond left right → left.chain.cancelled = right.chain.cancelled
  current : ∀ {left right}, bond left right → left.chain.current = right.chain.current
  nextObject : ∀ {left right}, bond left right → left.nextObject = right.nextObject
  record : ∀ {left right}, bond left right → ∀ event, bond (left.record event) (right.record event)
  emit : ∀ {left right}, bond left right → ∀ line,
    bond ((Execution.emit line).run left).2 ((Execution.emit line).run right).2
  allocate : ∀ {left right}, bond left right → ∀ type,
    bond ((Execution.allocate type).run left).2 ((Execution.allocate type).run right).2

section Machine

variable {bond : Bond} (kept : bond.Kept)
include kept

theorem Execution.record_agree (event : Event) : Agree bond (record event) (record event) :=
  fun _ _ bonded => ⟨rfl, kept.record bonded event⟩

theorem Execution.emit_agree (line : String) : Agree bond (emit line) (emit line) :=
  fun _ _ bonded => ⟨rfl, kept.emit bonded line⟩

theorem Execution.allocate_agree (type : TypeId) : Agree bond (allocate type) (allocate type) := by
  intro left right bonded
  refine ⟨?_, kept.allocate bonded type⟩
  change ObjectRef.mk left.nextObject type = ObjectRef.mk right.nextObject type
  rw [kept.nextObject bonded]

/-- Code that reads the chain agrees if it depends on cancellation and the relation in force alone. -/
theorem Execution.chain_agree {next other : Chain → Execution β}
    (rest : ∀ left right, left.cancelled = right.cancelled → left.current = right.current →
      Agree bond (next left) (other right)) :
    Agree bond (chain >>= next) (chain >>= other) :=
  fun left right bonded =>
    rest left.chain right.chain (kept.cancelled bonded) (kept.current bonded) left right bonded

theorem Attempt.chain_agree {next other : Chain → Attempt β}
    (rest : ∀ left right, left.cancelled = right.cancelled → left.current = right.current →
      Agree bond (next left) (other right)) :
    Agree bond (liftM Execution.chain >>= next) (liftM Execution.chain >>= other) :=
  Execution.chain_agree kept rest

theorem Activity.chain_agree {next other : Chain → Activity β}
    (rest : ∀ left right, left.cancelled = right.cancelled → left.current = right.current →
      Agree bond (next left) (other right)) :
    Agree bond (liftM Execution.chain >>= next) (liftM Execution.chain >>= other) :=
  fun visits => Execution.chain_agree kept fun left right cancelled current =>
    rest left right cancelled current visits

end Machine

/-! ## Actions -/

/-- Code that never cancels its chain. -/
def Action.Steady : Action α → Prop
  | .done _ => True
  | .emit _ next => next.Steady
  | .relation next => ∀ relation, (next relation).Steady
  | .call _ next => ∀ result, (next result).Steady
  | .join _ _ next => ∀ result, (next result).Steady
  | .allocate _ next => ∀ object, (next object).Steady
  | .poll next => ∀ cancelled, (next cancelled).Steady
  | .cancel _ => False

/-- What is done for one action after another is done for one after the other. -/
theorem Activity.perform_bind (call : Call → Attempt Value) (join : Activity.Join) (action : Action α)
    (next : α → Action β) :
    (perform call join (action.bind next) : Activity β) =
      perform call join action >>= fun a => perform call join (next a) := by
  induction action with
  | done result => rw [Action.bind, perform, pure_bind]
  | _ => simp only [Action.bind, perform, bind_assoc, *]

namespace Activity

/-- Two ways to carry out calls and arrivals agree. -/
structure HostsAgree (bond : Bond) (call other : Call → Attempt Value) (join arrive : Join) : Prop where
  call : ∀ request, Attempt.Agree bond (call request) (other request)
  join : ∀ name args, Agree bond (join name args) (arrive name args)

/-- An action agrees with itself, unless it cancels chains and that breaks the bond. -/
theorem perform_agree {bond : Bond} (kept : bond.Kept) {call other : Call → Attempt Value}
    {join arrive : Join} (hosts : HostsAgree bond call other join arrive) (action : Action α)
    (cancels : action.Steady ∨ ∀ left right, bond left right →
      bond ((Execution.onChain Chain.cancel).run left).2
        ((Execution.onChain Chain.cancel).run right).2) :
    Agree bond (perform call join action) (perform other arrive action) := by
  induction action with
  | done result => exact Agree.pure result
  | emit line next ih =>
    exact (Agree.lift (Execution.emit_agree kept line)).bind fun _ => ih cancels
  | relation next ih =>
    refine chain_agree kept fun left right _ current => ?_
    rw [current]
    exact ih _ (cancels.imp_left fun steady => steady _)
  | call request next ih =>
    exact (Agree.lift (hosts.call request)).bind fun result =>
      ih result (cancels.imp_left fun steady => steady result)
  | join name args next ih =>
    exact (hosts.join name args).bind fun result =>
      ih result (cancels.imp_left fun steady => steady result)
  | allocate type next ih =>
    exact (Agree.lift (Execution.allocate_agree kept type)).bind fun object =>
      ih object (cancels.imp_left fun steady => steady object)
  | poll next ih =>
    refine chain_agree kept fun left right cancelled _ => ?_
    rw [cancelled]
    exact ih _ (cancels.imp_left fun steady => steady _)
  | cancel next ih =>
    have closed := cancels.resolve_left id
    have cancels : Agree bond (liftM (Execution.onChain Chain.cancel))
        (liftM (Execution.onChain Chain.cancel)) :=
      Agree.lift fun left right bonded => ⟨rfl, closed left right bonded⟩
    exact cancels.bind fun _ => ih (Or.inr closed)

end Activity

/-! ## What a weaver runs -/

/-- The same knowledge, but of a registry with other plans. -/
def Context.withPlans (plans : List (Site × Plan)) (context : Context) : Context :=
  { context with registry := { context.registry with plans } }

/-- The code that runs is a member's own, its body or a default. -/
structure Context.Own (registry : Registry) (context : Context) : Prop where
  registry : context.registry = registry
  role : ∀ pointcut site, context.role ≠ .advice pointcut site

namespace Weaver

/-- The same program with other code behind its bodies. -/
def withBodies (weaver : Weaver) (others : List Body) : Weaver := { weaver with bodies := others }

/-- The same program with other plans of advice as well. -/
def altered (weaver : Weaver) (plans : List (Site × Plan)) (others : List Body) : Weaver :=
  { weaver with registry := { weaver.registry with plans }, bodies := others }

/-- Code of the same body agrees wherever calls and arrivals do. -/
def BodiesAgree (bond : Bond) (weaver : Weaver) (others : List Body) : Prop :=
  ∀ (id : BodyId) (context : Context) {call other : Call → Attempt Value} {join arrive : Activity.Join},
    Activity.HostsAgree bond call other join arrive →
    Activity.Agree bond (Activity.perform call join (weaver.body id context))
      (Activity.perform other arrive ((weaver.withBodies others).body id context))

/-- Calls agree whoever makes them. -/
def CallsAgree (bond : Bond) (calling other : Calling) : Prop :=
  ∀ caller call, Attempt.Agree bond (calling caller call) (other caller call)

/-- What a weaver runs for its members agrees with what the altered one runs, wherever calls do: the advice of
each site as a whole, and the code of members and of their defaults. -/
structure CodeAgrees (bond : Bond) (weaver : Weaver) (plans : List (Site × Plan)) (others : List Body) :
    Prop where
  before : ∀ {calling other : Calling}, CallsAgree bond calling other → ∀ point,
    Attempt.Agree bond (weaver.runBefore calling point) ((weaver.altered plans others).runBefore other point)
  after : ∀ {calling other : Calling}, CallsAgree bond calling other → ∀ point result,
    Attempt.Agree bond (weaver.runAfter calling point result)
      ((weaver.altered plans others).runAfter other point result)
  body : ∀ (id : BodyId) {context : Context}, context.Own weaver.registry →
    ∀ {call other : Call → Attempt Value} {join arrive : Activity.Join},
      Activity.HostsAgree bond call other join arrive →
      Activity.Agree bond (Activity.perform call join (weaver.body id context))
        (Activity.perform other arrive
          ((weaver.altered plans others).body id (context.withPlans plans)))

section Advice

variable {bond : Bond} (kept : bond.Kept) {weaver : Weaver} {plans : List (Site × Plan)} {others : List Body}
  {calling other : Calling}

theorem refuse_agree (calls : CallsAgree bond calling other) (caller : Caller) (context : Context) :
    Activity.HostsAgree bond (calling caller) (other caller) (Activity.refuse context)
      (Activity.refuse context) :=
  ⟨calls caller, fun _ _ => Activity.Agree.pure _⟩

include kept

theorem adviceReturn_agree (pointcut : PointcutEntry) (site : Site) (ending : Ending) :
    Attempt.Agree bond (adviceReturn pointcut site ending) (adviceReturn pointcut site ending) := by
  have gives (value : Value) :
      Attempt.Agree bond (adviceReturn pointcut site (.ok (.give value)))
        (adviceReturn pointcut site (.ok (.give value))) := by
    unfold adviceReturn
    dsimp only
    split
    · exact Attempt.Agree.throw _
    · exact (Attempt.Agree.lift (Execution.record_agree kept _)).bind fun _ => Attempt.Agree.pure _
  match ending with
  | .ok .next => exact Attempt.Agree.pure _
  | .ok (.give value) => exact gives value
  | .error (.give value) => exact gives value
  | .error (.fault fault) => exact Attempt.Agree.throw _

/-- One piece of advice agrees if what its body means for the join point does. -/
theorem runAdvice_agree_of_return {point : JoinPoint} {result : Option Value} {id : PointcutId}
    (returns : ∀ pointcut, weaver.registry.pointcut? id = some pointcut →
      Attempt.Agree bond
        (liftM (weaver.runAdviceBody calling pointcut point result) >>= adviceReturn pointcut point.site)
        (liftM ((weaver.altered plans others).runAdviceBody other pointcut point result) >>=
          adviceReturn pointcut point.site)) :
    Attempt.Agree bond (weaver.runAdvice calling point result id)
      ((weaver.altered plans others).runAdvice other point result id) := by
  refine Attempt.chain_agree kept fun left right cancelled _ => ?_
  dsimp only [altered]
  rw [cancelled]
  split
  · exact Attempt.Agree.throw _
  cases known : weaver.registry.pointcut? id with
  | none => exact Attempt.Agree.pure _
  | some pointcut =>
    exact (Attempt.Agree.lift (Execution.record_agree kept _)).bind fun _ => returns pointcut known

omit kept in
theorem runAdviceList_agree_of_each {point : JoinPoint} {result : Option Value}
    (each : ∀ id, Attempt.Agree bond (weaver.runAdvice calling point result id)
      ((weaver.altered plans others).runAdvice other point result id)) (ids : List PointcutId) :
    Attempt.Agree bond (weaver.runAdviceList calling point result ids)
      ((weaver.altered plans others).runAdviceList other point result ids) := by
  induction ids with
  | nil => exact Attempt.Agree.pure _
  | cons id ids ih =>
    refine (each id).bind fun returned => ?_
    cases returned with
    | none => exact ih
    | some value => exact Attempt.Agree.pure _

variable (bodies : weaver.BodiesAgree bond others)
include bodies

theorem runAdvice_agree (calls : CallsAgree bond calling other) (point : JoinPoint) (result : Option Value)
    (id : PointcutId) :
    Attempt.Agree bond (weaver.runAdvice calling point result id)
      ((weaver.withBodies others).runAdvice other point result id) := by
  have plans : weaver.withBodies others = weaver.altered weaver.registry.plans others := rfl
  rw [plans]
  refine runAdvice_agree_of_return kept fun pointcut _ => ?_
  refine (Attempt.Agree.lift ((bodies _ _ (refuse_agree calls _ _)).run' _)).bind fun ending => ?_
  exact adviceReturn_agree kept pointcut point.site ending

/-- Code agrees if its bodies do, the advice among them. -/
theorem BodiesAgree.code : weaver.CodeAgrees bond weaver.registry.plans others where
  before calls point := runAdviceList_agree_of_each (runAdvice_agree kept bodies calls point none) _
  after calls point result :=
    runAdviceList_agree_of_each (runAdvice_agree kept bodies calls point (some result)) _
  body id context own _ _ _ _ hosts := by
    have same : context.withPlans weaver.registry.plans = context := by
      rw [Context.withPlans, ← own.registry]
    rw [same]
    exact bodies id context hosts

end Advice

section Congruence

variable {bond : Bond} (kept : bond.Kept) {weaver : Weaver} {plans : List (Site × Plan)} {others : List Body}
  (code : weaver.CodeAgrees bond plans others) {calling other : Calling}
  (calls : CallsAgree bond calling other)
include code calls

theorem arrive_agree (context : Context) (caller : Caller) :
    Activity.HostsAgree bond (calling caller) (other caller) (weaver.arrive calling context)
      ((weaver.altered plans others).arrive other (context.withPlans plans)) := by
  refine ⟨calls caller, fun name args => ?_⟩
  have known : (context.withPlans plans).point? name = context.point? name := rfl
  unfold arrive
  rw [known]
  cases context.point? name with
  | none => exact Activity.Agree.pure _
  | some index =>
    refine (Activity.Agree.lift (code.before calls _)).bind fun ending => ?_
    match ending with
    | .ok none => exact (Activity.Agree.modify _).bind fun _ => Activity.Agree.pure _
    | .ok (some value) => exact (Activity.Agree.modify _).bind fun _ => Activity.Agree.pure _
    | .error fault => exact (Activity.Agree.modify _).bind fun _ => Activity.Agree.pure _

theorem settle_agree (activation : Activation) (value : Value) (arrivals : List Arrival) :
    Execution.Agree bond (weaver.settle calling activation value arrivals)
      ((weaver.altered plans others).settle other activation value arrivals) := by
  induction arrivals with
  | nil => exact Execution.Agree.pure _
  | cons arrival arrivals ih =>
    refine Execution.Agree.bind (code.after calls _ _) fun ending => ?_
    match ending with
    | .ok none => exact ih
    | .ok (some value) => exact Execution.Agree.pure _
    | .error fault => exact Execution.Agree.pure _

theorem judge_agree (activation : Activation) (ending : Ending) (visits : Visits) :
    Execution.Agree bond (weaver.judge calling activation ending visits)
      ((weaver.altered plans others).judge other activation ending visits) := by
  unfold judge
  cases visits.returned with
  | some value => exact Execution.Agree.pure _
  | none =>
    cases ending.result with
    | ok value => exact settle_agree code calls activation value _
    | error fault => exact Execution.Agree.pure _

theorem runBody_agree (activation : Activation) :
    Execution.Agree bond (weaver.runBody calling activation)
      ((weaver.altered plans others).runBody other activation) := by
  have own : Context.Own weaver.registry
      ⟨weaver.registry, .member, activation.member.id, activation.this, activation.args, none⟩ :=
    ⟨rfl, fun _ _ => nofun⟩
  refine Execution.Agree.bind (code.body _ own (arrive_agree code calls _ _) {}) fun reached => ?_
  exact judge_agree code calls activation reached.1 reached.2

theorem runInside_agree (activation : Activation) :
    Execution.Agree bond (weaver.runInside calling activation)
      ((weaver.altered plans others).runInside other activation) := by
  refine Execution.Agree.bind (code.before calls _) fun ending => ?_
  match ending with
  | .ok none => exact runBody_agree code calls activation
  | .ok (some value) => exact Execution.Agree.pure _
  | .error fault => exact Execution.Agree.pure _

theorem runExit_agree (activation : Activation) (value : Value) :
    Attempt.Agree bond (weaver.runExit calling activation value)
      ((weaver.altered plans others).runExit other activation value) :=
  (code.after calls _ _).bind fun _ => Attempt.Agree.pure _

theorem evalDefault_agree (member : MemberId) (this : Option ObjectRef) (bound : List Value)
    (default : Default) :
    Attempt.Agree bond (weaver.evalDefault calling member this bound default)
      ((weaver.altered plans others).evalDefault other member this bound default) := by
  have own : Context.Own weaver.registry ⟨weaver.registry, .default, member, this, bound, none⟩ :=
    ⟨rfl, fun _ _ => nofun⟩
  cases default with
  | const value => exact Attempt.Agree.pure _
  | computed body =>
    refine (Attempt.Agree.lift ((code.body _ own (refuse_agree calls _ _)).run' _)).bind fun ending => ?_
    cases ending.result with
    | ok value => exact Attempt.Agree.pure _
    | error fault => exact Attempt.Agree.throw _

include kept

theorem observeFault_agree (activation : Activation) :
    Execution.Agree bond (weaver.observeFault calling activation)
      ((weaver.altered plans others).observeFault other activation) := by
  refine Execution.Agree.bind (code.after calls _ _) fun ending => ?_
  cases ending with
  | ok _ => exact Execution.Agree.pure _
  | error dropped => exact Execution.record_agree kept _

theorem conclude_agree (activation : Activation) (verdict : Verdict) :
    Attempt.Agree bond (weaver.conclude calling activation verdict)
      ((weaver.altered plans others).conclude other activation verdict) := by
  cases verdict with
  | completed value => exact runExit_agree code calls activation value
  | returned value =>
    change Attempt.Agree bond (if weaver.settings.afterOnShortCircuit then _ else _)
      (if weaver.settings.afterOnShortCircuit then _ else _)
    split
    · exact runExit_agree code calls activation value
    · exact Attempt.Agree.pure _
  | failed fault ofBody =>
    change Attempt.Agree bond (if ofBody && weaver.settings.afterOnFault then _ else _)
      (if ofBody && weaver.settings.afterOnFault then _ else _)
    split
    · exact (Attempt.Agree.lift (observeFault_agree kept code calls activation)).bind
        fun _ => Attempt.Agree.throw _
    · exact Attempt.Agree.throw _

theorem run_agree (activation : Activation) :
    Attempt.Agree bond (weaver.run calling activation)
      ((weaver.altered plans others).run other activation) :=
  (Attempt.Agree.lift (runInside_agree code calls activation)).bind fun verdict =>
    conclude_agree kept code calls activation verdict

theorem bindParam_agree (member : MemberId) (this : Option ObjectRef) (bound : List Value)
    (param : Param) (binding : Binding) :
    Attempt.Agree bond (weaver.bindParam calling member this bound param binding)
      ((weaver.altered plans others).bindParam other member this bound param binding) := by
  cases binding with
  | supplied value => exact Attempt.Agree.pure _
  | masked default =>
    exact (Attempt.Agree.lift (Execution.record_agree kept _)).bind fun _ =>
      evalDefault_agree code calls member this bound default
  | omitted default => exact evalDefault_agree code calls member this bound default

theorem bindParams_agree (member : MemberId) (this : Option ObjectRef) (bound : List Value)
    (params : List (Param × Binding)) :
    Attempt.Agree bond (weaver.bindParams calling member this bound params)
      ((weaver.altered plans others).bindParams other member this bound params) := by
  induction params generalizing bound with
  | nil => exact Attempt.Agree.pure _
  | cons first rest ih =>
    exact (bindParam_agree kept code calls member this bound first.1 first.2).bind fun value =>
      ih (bound ++ [value])

/-- **Activations agree** if their advice, their bodies and the calls made from inside them do. -/
theorem runMember_agree (member : MemberEntry) (classified : RelationClass) (call : Call) :
    Attempt.Agree bond (weaver.runMember calling member classified call)
      ((weaver.altered plans others).runMember other member classified call) := by
  have known : (weaver.altered plans others).registry.select member classified call.args =
    weaver.registry.select member classified call.args := rfl
  unfold runMember
  rw [known]
  cases weaver.registry.select member classified call.args with
  | error fault => exact Attempt.Agree.throw _
  | ok selection =>
    refine Attempt.chain_agree kept fun left right _ current => ?_
    rw [current]
    refine (Attempt.Agree.lift (Execution.record_agree kept _)).bind fun _ => ?_
    refine (bindParams_agree kept code calls _ _ _ _).bind fun args => ?_
    exact run_agree kept code calls _

end Congruence

/-! ## Invocations -/

section Invocations

/-- Bonds that calls carry into their frames and bring back. There may be one for each state of the frames;
a call goes from one of them to the one inside. -/
structure Nested {ι : Type} (bond : ι → Bond) (inside : ι → RelationClass → Bool → ι) : Prop where
  kept : ∀ i, (bond i).Kept
  depth : ∀ {i left right}, bond i left right → left.chain.depth = right.chain.depth
  enter : ∀ {i left right}, bond i left right → ∀ relation passthru,
    bond (inside i relation passthru) (left.enter relation passthru) (right.enter relation passthru)
  leave : ∀ {i left right relation passthru}, bond (inside i relation passthru) left right →
    bond i left.leave right.leave

variable {ι : Type} {bond : ι → Bond} {inside : ι → RelationClass → Bool → ι}
  (nested : Nested bond inside) {weaver : Weaver} {plans : List (Site × Plan)} {others : List Body}
  {calling other : Calling}
include nested

/-- An activation agrees outside its frame if what it runs agrees inside. -/
theorem activate_agree {i : ι} (caller : Caller) (call : Call) (member : MemberEntry)
    (code : weaver.CodeAgrees (bond (inside i (weaver.registry.classify caller call.receiver member)
      member.passthru)) plans others)
    (calls : CallsAgree (bond (inside i (weaver.registry.classify caller call.receiver member)
      member.passthru)) calling other) :
    Attempt.Agree (bond i) (weaver.activate calling caller call member)
      ((weaver.altered plans others).activate other caller call member) := by
  intro left right bonded
  have known : (weaver.altered plans others).registry.classify caller call.receiver member =
    weaver.registry.classify caller call.receiver member := rfl
  rw [run_activate, run_activate, known]
  generalize weaver.registry.classify caller call.receiver member = classified at code calls ⊢
  have kept := nested.kept (inside i classified member.passthru)
  have inner := runMember_agree kept code calls member classified call _ _
    (nested.enter bonded classified member.passthru)
  dsimp only
  generalize (weaver.runMember calling member classified call).run.run
    (left.enter classified member.passthru) = first at inner ⊢
  generalize ((weaver.altered plans others).runMember other member classified call).run.run
    (right.enter classified member.passthru) = second at inner ⊢
  obtain ⟨result, ended⟩ := first
  obtain ⟨_, finished⟩ := second
  obtain ⟨rfl, between⟩ := inner
  exact ⟨rfl, nested.leave (kept.record between _)⟩

variable (code : ∀ i, weaver.CodeAgrees (bond i) plans others)
include code

/-- Invocations agree, however much room they have. -/
theorem invokeWithin_agree (room : Nat) (i : ι) :
    CallsAgree (bond i) (weaver.invokeWithin room) ((weaver.altered plans others).invokeWithin room) := by
  induction room generalizing i with
  | zero =>
    intro caller call left right bonded
    have known : (weaver.altered plans others).admitted call = weaver.admitted call := rfl
    rw [run_invokeWithin_zero, run_invokeWithin_zero, (nested.kept i).cancelled bonded, known]
    cases weaver.admitted call right.chain.cancelled with
    | ok member => exact ⟨rfl, bonded⟩
    | error fault => exact ⟨rfl, bonded⟩
  | succ room ih =>
    intro caller call left right bonded
    have known : (weaver.altered plans others).admitted call = weaver.admitted call := rfl
    rw [run_invokeWithin_succ, run_invokeWithin_succ, (nested.kept i).cancelled bonded, known]
    cases weaver.admitted call right.chain.cancelled with
    | ok member =>
      exact activate_agree nested caller call member (code _) (ih _) left right bonded
    | error fault => exact ⟨rfl, bonded⟩

theorem invoke_agree (i : ι) :
    CallsAgree (bond i) weaver.invoke (weaver.altered plans others).invoke := by
  intro caller call left right bonded
  rw [run_invoke, run_invoke, nested.depth bonded]
  exact invokeWithin_agree nested code _ i caller call left right bonded

end Invocations

end Weaver

end Weaving
