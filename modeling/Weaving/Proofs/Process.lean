import Weaving.Proofs.Frames

/-!
Activations as processes. A process is the code of an activation with everything that it does in view, one
thing at a time: what it asks of the machine, what it records, and the calls that it makes. The code of an
activation is written down once more as a process, part by part, and carried out it comes to the same
(`Weaver.enact_memberProcess`), so that whatever holds of all steps of the process holds of the activation.
-/

namespace Weaving

variable {α β γ : Type}

/-- What code does, one thing at a time. Unlike an action it also records events, it says who calls, and
the advice at join points is part of it. -/
inductive Process (α : Type) where
  | done (result : α)
  | emit (line : String) (next : Process α)
  | record (event : Event) (next : Process α)
  /-- Asks for the relation in force. -/
  | relation (next : RelationClass → Process α)
  /-- Asks whether the chain has been cancelled. -/
  | poll (next : Bool → Process α)
  | allocate (type : TypeId) (next : ObjectRef → Process α)
  | cancel (next : Process α)
  | call (caller : Caller) (request : Call) (next : Except Fault Value → Process α)

/-- A process that may end in a fault. -/
abbrev Trial := ExceptT Fault Process

/-- A process that comes to explicit join points. -/
abbrev Passage := StateT Visits Process

namespace Process

/-! ## Putting processes together -/

protected def bind (process : Process α) (rest : α → Process β) : Process β :=
  match process with
  | .done result => rest result
  | .emit line next => .emit line (next.bind rest)
  | .record event next => .record event (next.bind rest)
  | .relation next => .relation fun relation => (next relation).bind rest
  | .poll next => .poll fun cancelled => (next cancelled).bind rest
  | .allocate type next => .allocate type fun object => (next object).bind rest
  | .cancel next => .cancel (next.bind rest)
  | .call caller request next => .call caller request fun result => (next result).bind rest

instance : Monad Process where
  pure := .done
  bind := Process.bind

protected theorem bind_done (process : Process α) : process.bind .done = process := by
  induction process <;> simp only [Process.bind, *]

protected theorem bind_assoc (process : Process α) (first : α → Process β) (second : β → Process γ) :
    (process.bind first).bind second = process.bind fun a => (first a).bind second := by
  induction process <;> simp only [Process.bind, *]

instance : LawfulMonad Process :=
  LawfulMonad.mk' Process (fun process => Process.bind_done process) (fun _ _ => rfl) Process.bind_assoc

/-- Records an event. -/
def note (event : Event) : Process Unit := .record event (.done ())

/-- The relation in force. -/
def current : Process RelationClass := .relation .done

/-- Whether the chain has been cancelled. -/
def cancelled : Process Bool := .poll .done

/-- An action of some code. Its arrivals at join points are up to whoever runs it. -/
def ofAction (caller : Caller) (join : String → List Value → Passage (Except Interrupt Unit)) :
    Action α → Passage α
  | .done result => pure result
  | .emit line next => fun visits => .emit line (ofAction caller join next visits)
  | .relation next => fun visits => .relation fun relation => ofAction caller join (next relation) visits
  | .call request next => fun visits =>
    .call caller request fun result => ofAction caller join (next result) visits
  | .join name args next => do
    ofAction caller join (next (← join name args))
  | .allocate type next => fun visits =>
    .allocate type fun object => ofAction caller join (next object) visits
  | .poll next => fun visits => .poll fun cancelled => ofAction caller join (next cancelled) visits
  | .cancel next => fun visits => .cancel (ofAction caller join next visits)

/-- Code that may not come to join points. -/
def refuse (context : Context) : String → List Value → Passage (Except Interrupt Unit) := fun name _ =>
  pure (.error (.fault (.undeclaredJoinPoint context.ownerName name)))

/-- An action of code that may not come to join points. -/
def ofPlain (caller : Caller) (context : Context) (action : Action α) : Process α :=
  (ofAction caller (refuse context) action).run' {}

/-! ## Carrying processes out -/

/-- Carries out a process. Its calls are carried out by whoever runs it. -/
def enact (calling : Calling) : Process α → Execution α
  | .done result => pure result
  | .emit line next => do
    Execution.emit line
    enact calling next
  | .record event next => do
    Execution.record event
    enact calling next
  | .relation next => do
    enact calling (next (← Execution.chain).current)
  | .poll next => do
    enact calling (next (← Execution.chain).cancelled)
  | .allocate type next => do
    enact calling (next (← Execution.allocate type))
  | .cancel next => do
    Execution.onChain Chain.cancel
    enact calling next
  | .call caller request next => do
    enact calling (next (← (calling caller request).run))

theorem enact_bind (calling : Calling) (process : Process α) (rest : α → Process β) :
    (process >>= rest).enact calling = process.enact calling >>= fun a => (rest a).enact calling := by
  change (process.bind rest).enact calling = _
  induction process with
  | done result => rfl
  | _ => simp only [Process.bind, enact, bind_assoc, *]

/-! ## Processes of work -/

/-- The process comes to what the work does, wherever calls are carried out so. -/
def Enacts (calling : Calling) (process : Process α) (work : Execution α) : Prop :=
  process.enact calling = work

variable {calling : Calling}

theorem Enacts.pure (a : α) : Enacts calling (pure a) (pure a) := rfl

theorem Enacts.bind {process : Process α} {work : Execution α} {rest : α → Process β}
    {next : α → Execution β} (start : Enacts calling process work)
    (each : ∀ a, Enacts calling (rest a) (next a)) :
    Enacts calling (process >>= rest) (work >>= next) := by
  unfold Enacts at start each ⊢
  rw [enact_bind, start]
  exact bind_congr each

/-- Processes keep the faults that attempts are stopped by. -/
theorem Enacts.attempts {process : Process (Except Fault α)} {work : Attempt α}
    {rest : Except Fault α → Process (Except Fault β)} {next : α → Attempt β}
    (start : Enacts calling process work.run) (each : ∀ a, Enacts calling (rest (.ok a)) (next a).run)
    (stopped : ∀ fault, rest (.error fault) = .done (.error fault)) :
    Enacts calling (process >>= rest) (work >>= next).run := by
  change Enacts calling (process >>= rest) (work.run >>= ExceptT.bindCont next)
  refine start.bind fun result => ?_
  cases result with
  | ok a => exact each a
  | error fault =>
    rw [stopped]
    rfl

theorem Enacts.attempt {trial : Trial α} {work : Attempt α} {rest : α → Trial β} {next : α → Attempt β}
    (start : Enacts calling trial.run work.run) (each : ∀ a, Enacts calling (rest a).run (next a).run) :
    Enacts calling (trial >>= rest).run (work >>= next).run := by
  change Enacts calling (trial.run >>= ExceptT.bindCont rest) (work >>= next).run
  exact start.attempts each fun _ => rfl

/-- A step of an attempt that cannot end in a fault. -/
theorem Enacts.lifts {process : Process α} {work : Execution α} {rest : α → Process (Except Fault β)}
    {next : α → Attempt β} (start : Enacts calling process work)
    (each : ∀ a, Enacts calling (rest a) (next a).run) :
    Enacts calling (process >>= rest) ((liftM work : Attempt α) >>= next).run := by
  change Enacts calling (process >>= rest) (work >>= fun a => (next a).run)
  exact start.bind each

theorem Enacts.lift {process : Process α} {work : Execution α} {rest : α → Trial β} {next : α → Attempt β}
    (start : Enacts calling process work) (each : ∀ a, Enacts calling (rest a).run (next a).run) :
    Enacts calling ((liftM process : Trial α) >>= rest).run ((liftM work : Attempt α) >>= next).run := by
  change Enacts calling (ExceptT.lift process >>= rest).run _
  rw [ExceptT.run_bind_lift]
  exact start.lifts each

/-- The process of an attempt looks for cancellation where the attempt looks at the chain. -/
theorem Enacts.poll {rest : Bool → Trial α} {next : Chain → Attempt α}
    (each : ∀ chain : Chain, Enacts calling (rest chain.cancelled).run (next chain).run) :
    Enacts calling ((liftM cancelled : Trial Bool) >>= rest).run
      ((liftM Execution.chain : Attempt Chain) >>= next).run :=
  bind_congr each

theorem Enacts.current {rest : RelationClass → Process (Except Fault α)} {next : Chain → Attempt α}
    (each : ∀ chain : Chain, Enacts calling (rest chain.current) (next chain).run) :
    Enacts calling (current >>= rest) ((liftM Execution.chain : Attempt Chain) >>= next).run :=
  bind_congr each

theorem enacts_ofAction {caller : Caller} {join : String → List Value → Passage (Except Interrupt Unit)}
    {arrive : Activity.Join}
    (joins : ∀ name args visits, Enacts calling ((join name args).run visits)
      ((arrive name args).run visits)) (action : Action α) (visits : Visits) :
    Enacts calling ((ofAction caller join action).run visits)
      ((Activity.perform (calling caller) arrive action).run visits) := by
  induction action generalizing visits with
  | done result => rfl
  | emit line next ih => exact bind_congr fun _ => ih visits
  | relation next ih => exact bind_congr fun (chain : Chain) => ih chain.current visits
  | call request next ih => exact bind_congr fun result => ih result visits
  | join name args next ih => exact (joins name args visits).bind fun reached => ih reached.1 reached.2
  | allocate type next ih => exact bind_congr fun object => ih object visits
  | poll next ih => exact bind_congr fun (chain : Chain) => ih chain.cancelled visits
  | cancel next ih => exact bind_congr fun _ => ih visits

theorem enacts_ofPlain (caller : Caller) (context : Context) (action : Action α) :
    Enacts calling (ofPlain caller context action)
      ((Activity.perform (calling caller) (Activity.refuse context) action).run' {}) :=
  (enacts_ofAction (fun _ _ _ => rfl) action {}).bind fun reached => Enacts.pure reached.1

end Process

/-! ## Activations -/

/-- What the advice before an explicit join point means for the code that comes to it. -/
def Visits.reach (visits : Visits) (arrival : Arrival) :
    Except Fault (Option Value) → Except Interrupt Unit × Visits
  | .ok none => (.ok (), { visits with arrivals := arrival :: visits.arrivals })
  | .ok (some value) => (.error (.give value), { visits with returned := some value })
  | .error fault => (.error (.fault fault), { visits with fault := some fault })

/-- How an activation ends: with its result, and perhaps with a fault of advice that does not count. -/
structure Conclusion where
  result : Except Fault Value
  dropped : Option Fault

/-- The result, once a fault that is dropped has been recorded. -/
def Conclusion.report (member : MemberId) : Conclusion → Process (Except Fault Value)
  | ⟨result, none⟩ => pure result
  | ⟨result, some fault⟩ => do
    Process.note (.fault member fault.message)
    pure result

/-- The result, once the end of the invocation has been recorded as well. -/
def Conclusion.finish (member : MemberId) (conclusion : Conclusion) : Process (Except Fault Value) := do
  let result ← conclusion.report member
  Process.note (Weaver.closing member result)
  pure result

@[simp]
theorem Conclusion.bind_report (process : Process (Except Fault Value)) (member : MemberId) :
    (process >>= fun result => pure ⟨result, none⟩) >>= report member = process := by
  rw [bind_assoc]
  exact bind_pure process

namespace Weaver

variable (weaver : Weaver)

def adviceBodyProcess (pointcut : PointcutEntry) (point : JoinPoint) (result : Option Value) :
    Process Ending :=
  let context : Context :=
    { registry := weaver.registry
      role := .advice pointcut.id point.site
      member := point.site.member
      this := point.this
      args := point.args
      result }
  Process.ofPlain (weaver.registry.adviceCaller pointcut.owner) context
    (weaver.body pointcut.body context)

def adviceReturnProcess (pointcut : PointcutEntry) (site : Site) : Ending → Trial (Option Value)
  | .ok .next => pure none
  | .error (.fault fault) => throw fault
  | .ok (.give value) | .error (.give value) => do
    if pointcut.returns.isNone then throw (.illegalAdviceReturn pointcut.source)
    Process.note (.shortCircuit pointcut.id site)
    pure (some value)

def adviceProcess (point : JoinPoint) (result : Option Value) (id : PointcutId) :
    Trial (Option Value) := do
  if ← Process.cancelled then throw .cancelled
  else match weaver.registry.pointcut? id with
  | none => pure none
  | some pointcut =>
    Process.note (.advice pointcut.id pointcut.advice point.site)
    adviceReturnProcess pointcut point.site (← weaver.adviceBodyProcess pointcut point result)

def adviceListProcess (point : JoinPoint) (result : Option Value) :
    List PointcutId → Trial (Option Value)
  | [] => pure none
  | id :: ids => do
    match ← weaver.adviceProcess point result id with
    | some value => pure (some value)
    | none => adviceListProcess point result ids

def beforeProcess (point : JoinPoint) : Trial (Option Value) :=
  weaver.adviceListProcess point none (weaver.registry.plan point.site).before

def afterProcess (point : JoinPoint) (result : Value) : Trial (Option Value) :=
  weaver.adviceListProcess point (some result) (weaver.registry.plan point.site).after

def arrivalProcess (context : Context) (name : String) (args : List Value) :
    Passage (Except Interrupt Unit) :=
  match context.point? name with
  | none => Process.refuse context name args
  | some index => fun visits => do
    let point : JoinPoint := ⟨.point context.member index, context.this, args⟩
    pure (visits.reach ⟨index, args⟩ (← (weaver.beforeProcess point).run))

def settlingProcess (activation : Activation) (value : Value) : List Arrival → Process Verdict
  | [] => pure (.completed value)
  | arrival :: arrivals => do
    match ← (weaver.afterProcess (activation.point arrival) value).run with
    | .ok none => settlingProcess activation value arrivals
    | .ok (some value) => pure (.returned value)
    | .error fault => pure (.failed fault false)

def judgingProcess (activation : Activation) (ending : Ending) (visits : Visits) : Process Verdict :=
  match visits.returned with
  | some value => pure (.returned value)
  | none =>
    match ending.result with
    | .ok value => weaver.settlingProcess activation value visits.arrivals
    | .error fault => pure (.failed fault (visits.fault ≠ some fault))

def bodyProcess (activation : Activation) : Process Verdict := do
  let context : Context :=
    { registry := weaver.registry
      role := .member
      member := activation.member.id
      this := activation.this
      args := activation.args }
  let caller := weaver.registry.callerInMember activation.member.id activation.this
  let (ending, visits) ← (Process.ofAction caller (weaver.arrivalProcess context)
    (weaver.body activation.body context)).run {}
  weaver.judgingProcess activation ending visits

def insideProcess (activation : Activation) : Process Verdict := do
  match ← (weaver.beforeProcess activation.entry).run with
  | .ok none => weaver.bodyProcess activation
  | .ok (some value) => pure (.returned value)
  | .error fault => pure (.failed fault false)

def exitProcess (activation : Activation) (value : Value) : Trial Value := do
  pure ((← weaver.afterProcess activation.exit value).getD value)

/-- The fault of advice after a fault of the body, which is dropped. -/
def observingProcess (activation : Activation) : Process (Option Fault) := do
  match ← (weaver.afterProcess activation.exit .null).run with
  | .ok _ => pure none
  | .error dropped => pure (some dropped)

def conclusionProcess (activation : Activation) : Verdict → Process Conclusion
  | .completed value => do pure ⟨← (weaver.exitProcess activation value).run, none⟩
  | .returned value =>
    if weaver.settings.afterOnShortCircuit then do
      pure ⟨← (weaver.exitProcess activation value).run, none⟩
    else pure ⟨.ok value, none⟩
  | .failed fault ofBody =>
    if ofBody && weaver.settings.afterOnFault then do
      pure ⟨.error fault, ← weaver.observingProcess activation⟩
    else pure ⟨.error fault, none⟩

def activationProcess (activation : Activation) : Process Conclusion := do
  weaver.conclusionProcess activation (← weaver.insideProcess activation)

def defaultProcess (member : MemberId) (this : Option ObjectRef) (bound : List Value) :
    Default → Trial Value
  | .const value => pure value
  | .computed body => do
    let context : Context :=
      { registry := weaver.registry, role := .default, member, this, args := bound }
    let caller := weaver.registry.callerInMember member this
    let ending ← (Process.ofPlain caller context (weaver.body body context) : Process Ending)
    ExceptT.mk (pure ending.result)

def paramProcess (member : MemberId) (this : Option ObjectRef) (bound : List Value) (param : Param) :
    Binding → Trial Value
  | .supplied value => pure value
  | .masked default => do
    Process.note (.masked member param.name)
    weaver.defaultProcess member this bound default
  | .omitted default => weaver.defaultProcess member this bound default

def paramsProcess (member : MemberId) (this : Option ObjectRef) (bound : List Value) :
    List (Param × Binding) → Trial (List Value)
  | [] => pure bound
  | (param, binding) :: rest => do
    let value ← weaver.paramProcess member this bound param binding
    paramsProcess member this (bound ++ [value]) rest

/-- What happens inside an invocation when its variant and its bindings are selected. -/
def enteredProcess (member : MemberEntry) (call : Call) (selection : Selection) : Process Conclusion := do
  let this := if member.isStatic then none else call.receiver
  match ← (weaver.paramsProcess member.id this [] (member.params.zip selection.bindings)).run with
  | .error fault => pure ⟨.error fault, none⟩
  | .ok args => weaver.activationProcess ⟨member, selection.variant.body, this, args⟩

def memberProcess (member : MemberEntry) (classified : RelationClass) (call : Call) :
    Process Conclusion :=
  match weaver.registry.select member classified call.args with
  | .error fault => pure ⟨.error fault, none⟩
  | .ok selection => do
    let relation ← Process.current
    Process.note (.enter member.id classified relation selection.index)
    weaver.enteredProcess member call selection

/-- Everything that is done for an invocation under its frame. -/
def invocationProcess (caller : Caller) (call : Call) (member : MemberEntry) :
    Process (Except Fault Value) := do
  let classified := weaver.registry.classify caller call.receiver member
  (← weaver.memberProcess member classified call).finish member.id

section Beginning

variable {weaver} {caller : Caller} {call : Call} {member : MemberEntry}

/-- Arguments that do not fit end an invocation before it enters its member. -/
theorem invocationProcess_of_unfit {fault : Fault}
    (unfit : weaver.registry.select member (weaver.registry.classify caller call.receiver member)
      call.args = .error fault) :
    weaver.invocationProcess caller call member = Conclusion.finish member.id ⟨.error fault, none⟩ := by
  simp only [invocationProcess, memberProcess, unfit]
  rfl

/-- An invocation begins by recording that it enters its member, under the relation then in force. -/
theorem invocationProcess_of_select {selection : Selection}
    (selects : weaver.registry.select member (weaver.registry.classify caller call.receiver member)
      call.args = .ok selection) :
    weaver.invocationProcess caller call member = .relation fun relation =>
      .record (.enter member.id (weaver.registry.classify caller call.receiver member) relation
          selection.index)
        (weaver.enteredProcess member call selection >>= Conclusion.finish member.id) := by
  simp only [invocationProcess, memberProcess, selects]
  rfl

end Beginning

/-! ## Processes carried out -/

open Process (Enacts)

variable (calling : Calling)

theorem enacts_adviceReturnProcess (pointcut : PointcutEntry) (site : Site) (ending : Ending) :
    Enacts calling (adviceReturnProcess pointcut site ending).run
      (adviceReturn pointcut site ending).run := by
  have gives (value : Value) :
      Enacts calling (adviceReturnProcess pointcut site (.ok (.give value))).run
        (adviceReturn pointcut site (.ok (.give value))).run := by
    unfold adviceReturnProcess adviceReturn
    dsimp only
    split <;> rfl
  match ending with
  | .ok .next => rfl
  | .ok (.give value) => exact gives value
  | .error (.give value) => exact gives value
  | .error (.fault fault) => rfl

theorem enacts_adviceBodyProcess (pointcut : PointcutEntry) (point : JoinPoint) (result : Option Value) :
    Enacts calling (weaver.adviceBodyProcess pointcut point result)
      (weaver.runAdviceBody calling pointcut point result) :=
  Process.enacts_ofPlain _ _ _

theorem enacts_adviceProcess (point : JoinPoint) (result : Option Value) (id : PointcutId) :
    Enacts calling (weaver.adviceProcess point result id).run
      (weaver.runAdvice calling point result id).run := by
  refine Enacts.poll fun chain => ?_
  cases chain.cancelled with
  | true => rfl
  | false =>
    cases weaver.registry.pointcut? id with
    | none => rfl
    | some pointcut =>
      refine Enacts.lift rfl fun _ => ?_
      refine (weaver.enacts_adviceBodyProcess calling _ _ _).lift fun ending => ?_
      exact enacts_adviceReturnProcess calling pointcut point.site ending

theorem enacts_adviceListProcess (point : JoinPoint) (result : Option Value) (ids : List PointcutId) :
    Enacts calling (weaver.adviceListProcess point result ids).run
      (weaver.runAdviceList calling point result ids).run := by
  induction ids with
  | nil => rfl
  | cons id ids ih =>
    refine (weaver.enacts_adviceProcess calling point result id).attempt fun returned => ?_
    cases returned with
    | none => exact ih
    | some value => rfl

theorem enacts_arrivalProcess (context : Context) (name : String) (args : List Value) (visits : Visits) :
    Enacts calling ((weaver.arrivalProcess context name args).run visits)
      ((weaver.arrive calling context name args).run visits) := by
  unfold arrivalProcess arrive
  cases context.point? name with
  | none => rfl
  | some index =>
    dsimp only
    rw [StateT.run_bind, StateT.run_monadLift, bind_assoc]
    refine (weaver.enacts_adviceListProcess calling _ _ _).bind fun ending => ?_
    match ending with
    | .ok none => rfl
    | .ok (some value) => rfl
    | .error fault => rfl

theorem enacts_settlingProcess (activation : Activation) (value : Value) (arrivals : List Arrival) :
    Enacts calling (weaver.settlingProcess activation value arrivals)
      (weaver.settle calling activation value arrivals) := by
  induction arrivals with
  | nil => rfl
  | cons arrival arrivals ih =>
    refine (weaver.enacts_adviceListProcess calling _ _ _).bind fun ending => ?_
    match ending with
    | .ok none => exact ih
    | .ok (some value) => rfl
    | .error fault => rfl

theorem enacts_judgingProcess (activation : Activation) (ending : Ending) (visits : Visits) :
    Enacts calling (weaver.judgingProcess activation ending visits)
      (weaver.judge calling activation ending visits) := by
  unfold judgingProcess judge
  cases visits.returned with
  | some value => rfl
  | none =>
    cases ending.result with
    | ok value => exact weaver.enacts_settlingProcess calling activation value visits.arrivals
    | error fault => rfl

theorem enacts_bodyProcess (activation : Activation) :
    Enacts calling (weaver.bodyProcess activation) (weaver.runBody calling activation) :=
  (Process.enacts_ofAction (weaver.enacts_arrivalProcess calling _) _ {}).bind fun (ending, visits) =>
    weaver.enacts_judgingProcess calling activation ending visits

theorem enacts_insideProcess (activation : Activation) :
    Enacts calling (weaver.insideProcess activation) (weaver.runInside calling activation) := by
  refine (weaver.enacts_adviceListProcess calling _ none _).bind fun ending => ?_
  match ending with
  | .ok none => exact weaver.enacts_bodyProcess calling activation
  | .ok (some value) => rfl
  | .error fault => rfl

theorem enacts_exitProcess (activation : Activation) (value : Value) :
    Enacts calling (weaver.exitProcess activation value).run
      (weaver.runExit calling activation value).run :=
  (weaver.enacts_adviceListProcess calling _ _ _).attempt fun _ => rfl

theorem enacts_conclusionProcess (activation : Activation) (verdict : Verdict) :
    Enacts calling (weaver.conclusionProcess activation verdict >>= Conclusion.report activation.member.id)
      (weaver.conclude calling activation verdict).run := by
  have exits (value : Value) :
      Enacts calling ((do pure ⟨← (weaver.exitProcess activation value).run, none⟩) >>=
        Conclusion.report activation.member.id) (weaver.runExit calling activation value).run := by
    rw [Conclusion.bind_report]
    exact weaver.enacts_exitProcess calling activation value
  cases verdict with
  | completed value => exact exits value
  | returned value =>
    unfold conclusionProcess conclude
    dsimp only
    split
    · exact exits value
    · rfl
  | failed fault ofBody =>
    unfold conclusionProcess conclude
    dsimp only
    split
    · change Enacts calling _ (do
        weaver.observeFault calling activation
        pure (Except.error fault))
      rw [observingProcess, observeFault, bind_assoc, bind_assoc, bind_assoc]
      refine (weaver.enacts_adviceListProcess calling _ _ _).bind fun ending => ?_
      cases ending <;> rfl
    · rfl

theorem enacts_activationProcess (activation : Activation) :
    Enacts calling (weaver.activationProcess activation >>= Conclusion.report activation.member.id)
      (weaver.run calling activation).run := by
  unfold activationProcess
  rw [bind_assoc]
  exact (weaver.enacts_insideProcess calling activation).bind fun verdict =>
    weaver.enacts_conclusionProcess calling activation verdict

theorem enacts_defaultProcess (member : MemberId) (this : Option ObjectRef) (bound : List Value)
    (default : Default) :
    Enacts calling (weaver.defaultProcess member this bound default).run
      (weaver.evalDefault calling member this bound default).run := by
  cases default with
  | const value => rfl
  | computed body =>
    refine (Process.enacts_ofPlain _ _ _).lift fun ending => ?_
    match ending with
    | .ok flow => rfl
    | .error (.give value) => rfl
    | .error (.fault fault) => rfl

theorem enacts_paramProcess (member : MemberId) (this : Option ObjectRef) (bound : List Value)
    (param : Param) (binding : Binding) :
    Enacts calling (weaver.paramProcess member this bound param binding).run
      (weaver.bindParam calling member this bound param binding).run := by
  cases binding with
  | supplied value => rfl
  | masked default =>
    exact Enacts.lift rfl fun _ => weaver.enacts_defaultProcess calling member this bound default
  | omitted default => exact weaver.enacts_defaultProcess calling member this bound default

theorem enacts_paramsProcess (member : MemberId) (this : Option ObjectRef) (bound : List Value)
    (params : List (Param × Binding)) :
    Enacts calling (weaver.paramsProcess member this bound params).run
      (weaver.bindParams calling member this bound params).run := by
  induction params generalizing bound with
  | nil => rfl
  | cons first rest ih =>
    exact (weaver.enacts_paramProcess calling member this bound first.1 first.2).attempt fun value =>
      ih (bound ++ [value])

/-- **The process of an activation** comes to what the activation does. -/
theorem enacts_memberProcess (member : MemberEntry) (classified : RelationClass) (call : Call) :
    Enacts calling (weaver.memberProcess member classified call >>= Conclusion.report member.id)
      (weaver.runMember calling member classified call).run := by
  unfold memberProcess runMember
  cases weaver.registry.select member classified call.args with
  | error fault => rfl
  | ok selection =>
    dsimp only
    rw [bind_assoc]
    refine Enacts.current fun chain => ?_
    rw [bind_assoc]
    refine Enacts.lifts rfl fun _ => ?_
    unfold enteredProcess
    dsimp only
    rw [bind_assoc]
    refine (weaver.enacts_paramsProcess calling _ _ _ _).attempts (fun args => ?_) fun _ => rfl
    exact weaver.enacts_activationProcess calling _

/-- **The process of an invocation** comes to what the invocation does under its frame. -/
theorem enacts_invocationProcess (caller : Caller) (call : Call) (member : MemberEntry) :
    Enacts calling (weaver.invocationProcess caller call member) (do
      let classified := weaver.registry.classify caller call.receiver member
      let result ← (weaver.runMember calling member classified call).run
      Execution.record (closing member.id result)
      pure result) := by
  unfold invocationProcess Conclusion.finish
  dsimp only
  rw [← bind_assoc]
  exact (weaver.enacts_memberProcess calling member _ call).bind fun result => rfl

end Weaver

end Weaving
