import Weaving.Proofs.Observers
import Weaving.Proofs.Process

/-!
Scripts that tell what they know. A telling script says all that it has been given and all that its variables
hold, before each of its steps and at its end, by calling a member that does not exist. Nobody answers, so that
it does what the script does, apart from what it says (`Script.telling_tells`); and so do the invocations of a
program whose scripts tell (`Weaver.invocationProcess_tells`). What scripts know in a run can thus be read off
its calls.
-/

namespace Weaving

variable {α β : Type}

/-! ## Telling -/

/-- A number that no member has. -/
def Catalog.nowhere (catalog : Catalog) : MemberId := ⟨catalog.members.length⟩

theorem Catalog.member?_nowhere (catalog : Catalog) : catalog.member? catalog.nowhere = none :=
  List.getElem?_eq_none le_rfl

/-- All that code is given when it starts. -/
def Context.values (context : Context) : List Value :=
  context.this.toList.map .object ++ context.args ++ context.result.toList

namespace Script

open Run

/-- Says some values to nobody. -/
def tell (context : Context) (values : List Value) : Run Unit :=
  ask (.call ⟨context.registry.nowhere, none, values⟩ fun _ => .done ())

/-- Says what the code has been given, and what it has assigned to variables. -/
def tellAll (context : Context) : Run Unit := do
  tell context (context.values ++ (← get).map (·.2))

mutual

/-- A step that says what it passes on. -/
def tellStep (context : Context) : Step → Run Flow
  | .give value => do
    tell context [value.eval context (← get)]
    runStep context (.give value)
  | .join point args => do
    tell context (← eval context args)
    runStep context (.join point args)
  | .guard relations permitted otherwise => do
    let relation ← ask (.relation .done)
    if relations.contains relation then tellSteps context permitted else tellSteps context otherwise
  | step => runStep context step

/-- Steps with all that is known said before each of them and at the end. -/
def tellSteps (context : Context) : List Step → Run Flow
  | [] => do
    tellAll context
    pure .next
  | step :: steps => do
    tellAll context
    match ← tellStep context step with
    | .next => tellSteps context steps
    | .give value => pure (.give value)

end

/-- The body that a script stands for, telling. -/
def telling (script : Script) : Body := fun context =>
  ((tellSteps context script).run' []).run

end Script

/-! ## Nobody answers -/

variable {nobody : MemberId}

/-- The first action does what the second one does, apart from calls of somebody that go on in the same way
whatever the answer is. -/
inductive Action.Tells (nobody : MemberId) : Action α → Action α → Prop
  | done (result : α) : Tells nobody (.done result) (.done result)
  | emit (line : String) {next other} (rest : Tells nobody next other) :
    Tells nobody (.emit line next) (.emit line other)
  | relation {next other} (rest : ∀ relation, Tells nobody (next relation) (other relation)) :
    Tells nobody (.relation next) (.relation other)
  | call (request : Call) {next other} (rest : ∀ result, Tells nobody (next result) (other result)) :
    Tells nobody (.call request next) (.call request other)
  | join (name : String) (args : List Value) {next other}
    (rest : ∀ result, Tells nobody (next result) (other result)) :
    Tells nobody (.join name args next) (.join name args other)
  | allocate (type : TypeId) {next other} (rest : ∀ object, Tells nobody (next object) (other object)) :
    Tells nobody (.allocate type next) (.allocate type other)
  | poll {next other} (rest : ∀ cancelled, Tells nobody (next cancelled) (other cancelled)) :
    Tells nobody (.poll next) (.poll other)
  | cancel {next other} (rest : Tells nobody next other) : Tells nobody (.cancel next) (.cancel other)
  | tell {request : Call} (unheard : request.target = nobody) {next other}
    (rest : ∀ result, Tells nobody (next result) other) : Tells nobody (.call request next) other

/-- The first process does what the second one does, apart from such calls. -/
inductive Process.Tells (nobody : MemberId) : Process α → Process α → Prop
  | done (result : α) : Tells nobody (.done result) (.done result)
  | emit (line : String) {next other} (rest : Tells nobody next other) :
    Tells nobody (.emit line next) (.emit line other)
  | record (event : Event) {next other} (rest : Tells nobody next other) :
    Tells nobody (.record event next) (.record event other)
  | relation {next other} (rest : ∀ relation, Tells nobody (next relation) (other relation)) :
    Tells nobody (.relation next) (.relation other)
  | poll {next other} (rest : ∀ cancelled, Tells nobody (next cancelled) (other cancelled)) :
    Tells nobody (.poll next) (.poll other)
  | allocate (type : TypeId) {next other} (rest : ∀ object, Tells nobody (next object) (other object)) :
    Tells nobody (.allocate type next) (.allocate type other)
  | cancel {next other} (rest : Tells nobody next other) : Tells nobody (.cancel next) (.cancel other)
  | call (caller : Caller) (request : Call) {next other}
    (rest : ∀ result, Tells nobody (next result) (other result)) :
    Tells nobody (.call caller request next) (.call caller request other)
  | tell {caller : Caller} {request : Call} (unheard : request.target = nobody) {next other}
    (rest : ∀ result, Tells nobody (next result) other) : Tells nobody (.call caller request next) other

namespace Action.Tells

theorem refl (action : Action α) : action.Tells nobody action := by
  induction action with
  | done result => exact .done result
  | emit line next ih => exact .emit line ih
  | relation next ih => exact .relation ih
  | call request next ih => exact .call request ih
  | join name args next ih => exact .join name args ih
  | allocate type next ih => exact .allocate type ih
  | poll next ih => exact .poll ih
  | cancel next ih => exact .cancel ih

theorem bind {action other : Action α} {next rest : α → Action β} (start : action.Tells nobody other)
    (each : ∀ a, (next a).Tells nobody (rest a)) : (action.bind next).Tells nobody (other.bind rest) := by
  induction start with
  | done result => exact each result
  | emit line _ ih => exact .emit line ih
  | relation _ ih => exact .relation ih
  | call request _ ih => exact .call request ih
  | join name args _ ih => exact .join name args ih
  | allocate type _ ih => exact .allocate type ih
  | poll _ ih => exact .poll ih
  | cancel _ ih => exact .cancel ih
  | tell unheard _ ih => exact .tell unheard ih

end Action.Tells

namespace Process

theorem Tells.refl (process : Process α) : process.Tells nobody process := by
  induction process with
  | done result => exact .done result
  | emit line next ih => exact .emit line ih
  | record event next ih => exact .record event ih
  | relation next ih => exact .relation ih
  | poll next ih => exact .poll ih
  | allocate type next ih => exact .allocate type ih
  | cancel next ih => exact .cancel ih
  | call caller request next ih => exact .call caller request ih

theorem Tells.bind {process other : Process α} {next rest : α → Process β}
    (start : process.Tells nobody other) (each : ∀ a, (next a).Tells nobody (rest a)) :
    (process >>= next).Tells nobody (other >>= rest) := by
  change (process.bind next).Tells nobody (other.bind rest)
  induction start with
  | done result => exact each result
  | emit line _ ih => exact .emit line ih
  | record event _ ih => exact .record event ih
  | relation _ ih => exact .relation ih
  | poll _ ih => exact .poll ih
  | allocate type _ ih => exact .allocate type ih
  | cancel _ ih => exact .cancel ih
  | call caller request _ ih => exact .call caller request ih
  | tell unheard _ ih => exact .tell unheard ih

/-- Goes on with what an attempt has come to, unless that is a fault. -/
theorem Tells.attempt {trial other : Trial α} {next rest : α → Trial β}
    (start : trial.run.Tells nobody other.run) (each : ∀ a, (next a).run.Tells nobody (rest a).run) :
    (trial >>= next).run.Tells nobody (other >>= rest).run := by
  change (trial.run >>= ExceptT.bindCont next).Tells nobody (other.run >>= ExceptT.bindCont rest)
  apply start.bind
  intro result
  cases result with
  | ok a => exact each a
  | error fault => exact .done _

theorem Tells.lift {process other : Process α} {next rest : α → Trial β}
    (start : process.Tells nobody other) (each : ∀ a, (next a).run.Tells nobody (rest a).run) :
    ((liftM process : Trial α) >>= next).run.Tells nobody ((liftM other : Trial α) >>= rest).run := by
  change (ExceptT.lift process >>= next).run.Tells nobody (ExceptT.lift other >>= rest).run
  rw [ExceptT.run_bind_lift, ExceptT.run_bind_lift]
  exact start.bind each

theorem tells_ofAction (caller : Caller) {join arrive : String → List Value → Passage (Except Interrupt Unit)}
    {action other : Action α} (tells : action.Tells nobody other)
    (joins : ∀ name args visits, ((join name args).run visits).Tells nobody ((arrive name args).run visits))
    (visits : Visits) :
    ((ofAction caller join action).run visits).Tells nobody ((ofAction caller arrive other).run visits) := by
  induction tells generalizing visits with
  | done result => exact .done _
  | emit line _ ih => exact .emit line (ih visits)
  | relation _ ih => exact .relation fun relation => ih relation visits
  | call request _ ih => exact .call caller request fun result => ih result visits
  | join name args _ ih => exact (joins name args visits).bind fun reached => ih reached.1 reached.2
  | allocate type _ ih => exact .allocate type fun object => ih object visits
  | poll _ ih => exact .poll fun cancelled => ih cancelled visits
  | cancel _ ih => exact .cancel (ih visits)
  | tell unheard _ ih => exact .tell unheard fun result => ih result visits

theorem tells_ofPlain (caller : Caller) (context : Context) {action other : Action α}
    (tells : action.Tells nobody other) :
    (ofPlain caller context action).Tells nobody (ofPlain caller context other) :=
  (tells_ofAction caller tells (fun _ _ _ => .refl _) {}).bind fun _ => .done _

end Process

/-! ## Telling scripts -/

namespace Script

open Run

/-- The first steps do what the second ones do, apart from calls that nobody answers. -/
def Run.Tells (nobody : MemberId) (run other : Run α) : Prop :=
  ∀ vars, Action.Tells nobody (run vars : Action (Except Interrupt (α × Variables)))
    (other vars : Action (Except Interrupt (α × Variables)))

theorem Run.Tells.refl (run : Run α) : Tells nobody run run := fun vars => Action.Tells.refl (run vars)

theorem Run.Tells.bind {run other : Run α} {next rest : α → Run β} (start : Tells nobody run other)
    (each : ∀ a, Tells nobody (next a) (rest a)) : Tells nobody (run >>= next) (other >>= rest) := by
  intro vars
  refine Action.Tells.bind (start vars) fun reached => ?_
  cases reached with
  | ok reached => exact each reached.1 reached.2
  | error interrupt => exact .done _

variable {context : Context}

theorem Run.Tells.after_tell (values : List Value) {run other : Run α}
    (rest : Tells context.registry.nowhere run other) :
    Tells context.registry.nowhere (do tell context values; run) other := by
  intro vars
  have unheard : (⟨context.registry.nowhere, none, values⟩ : Call).target = context.registry.nowhere := rfl
  exact Action.Tells.tell unheard fun _ => rest vars

theorem Run.Tells.after_tellAll {run other : Run α} (rest : Tells context.registry.nowhere run other) :
    Tells context.registry.nowhere (do tellAll context; run) other :=
  fun vars => Tells.after_tell (context.values ++ vars.map (·.2)) rest vars

mutual

theorem tellStep_tells (step : Step) :
    Run.Tells context.registry.nowhere (tellStep context step) (runStep context step) := by
  cases step with
  | give value | join point args =>
    rw [tellStep]
    exact fun vars => Run.Tells.after_tell _ (.refl _) vars
  | guard relations permitted otherwise =>
    rw [tellStep, runStep]
    apply (Run.Tells.refl _).bind
    intro relation
    split
    · exact tellSteps_tells permitted
    · exact tellSteps_tells otherwise
  | emit | fault | call | allocate | checkpoint =>
    unfold tellStep
    exact .refl _

theorem tellSteps_tells (steps : List Step) :
    Run.Tells context.registry.nowhere (tellSteps context steps) (runSteps context steps) := by
  cases steps with
  | nil =>
    rw [tellSteps, runSteps]
    exact .after_tellAll (.refl _)
  | cons step steps =>
    rw [tellSteps, runSteps]
    refine .after_tellAll ((tellStep_tells step).bind fun flow => ?_)
    cases flow with
    | next => exact tellSteps_tells steps
    | give value => exact .refl _

end

/-- A telling script does what the script does, apart from what it says. -/
theorem telling_tells (script : Script) (context : Context) :
    (script.telling context).Tells context.registry.nowhere (body script context) := by
  change Action.Tells _ (Action.bind (tellSteps context script []) _)
    (Action.bind (runSteps context script []) _)
  exact Action.Tells.bind (tellSteps_tells script []) fun _ => .refl _

end Script

/-! ## Weavers whose bodies tell -/

/-- The other bodies do what those of the weaver do, apart from calls that nobody answers. -/
def Weaver.Told (weaver : Weaver) (others : List Body) : Prop :=
  ∀ id context, context.registry = weaver.registry →
    ((weaver.withBodies others).body id context).Tells weaver.registry.nowhere (weaver.body id context)

namespace Weaver

open Process (Tells)

section Parts

variable {weaver : Weaver} {others : List Body} (told : weaver.Told others)
include told

theorem adviceProcess_tells (point : JoinPoint) (result : Option Value) (id : PointcutId) :
    ((weaver.withBodies others).adviceProcess point result id).run.Tells weaver.registry.nowhere
      (weaver.adviceProcess point result id).run := by
  have known : (weaver.withBodies others).registry = weaver.registry := rfl
  unfold adviceProcess
  refine Tells.poll fun cancelled => ?_
  rw [known]
  change Tells _ (ExceptT.run (if cancelled = true then _ else _))
    (ExceptT.run (if cancelled = true then _ else _))
  split
  · exact .done _
  cases weaver.registry.pointcut? id with
  | none => exact .done _
  | some pointcut =>
    refine .record _ (Tells.lift ?_ fun ending => .refl _)
    exact Process.tells_ofPlain _ _ (told _ _ rfl)

theorem adviceListProcess_tells (point : JoinPoint) (result : Option Value) (ids : List PointcutId) :
    ((weaver.withBodies others).adviceListProcess point result ids).run.Tells weaver.registry.nowhere
      (weaver.adviceListProcess point result ids).run := by
  induction ids with
  | nil => exact .done _
  | cons id ids ih =>
    apply (adviceProcess_tells told point result id).attempt
    intro returned
    cases returned with
    | none => exact ih
    | some value => exact .done _

theorem afterProcess_tells (point : JoinPoint) (result : Value) :
    ((weaver.withBodies others).afterProcess point result).run.Tells weaver.registry.nowhere
      (weaver.afterProcess point result).run :=
  adviceListProcess_tells told point _ _

theorem arrivalProcess_tells (context : Context) (name : String) (args : List Value) (visits : Visits) :
    (((weaver.withBodies others).arrivalProcess context name args).run visits).Tells weaver.registry.nowhere
      ((weaver.arrivalProcess context name args).run visits) := by
  unfold arrivalProcess
  cases context.point? name with
  | none => exact .refl _
  | some index => exact (adviceListProcess_tells told _ _ _).bind fun _ => .done _

theorem settlingProcess_tells (activation : Activation) (value : Value) (arrivals : List Arrival) :
    ((weaver.withBodies others).settlingProcess activation value arrivals).Tells weaver.registry.nowhere
      (weaver.settlingProcess activation value arrivals) := by
  induction arrivals with
  | nil => exact .done _
  | cons arrival arrivals ih =>
    apply (afterProcess_tells told _ value).bind
    intro ending
    match ending with
    | .ok none => exact ih
    | .ok (some value) => exact .done _
    | .error fault => exact .done _

theorem judgingProcess_tells (activation : Activation) (ending : Ending) (visits : Visits) :
    ((weaver.withBodies others).judgingProcess activation ending visits).Tells weaver.registry.nowhere
      (weaver.judgingProcess activation ending visits) := by
  unfold judgingProcess
  cases visits.returned with
  | some value => exact .done _
  | none =>
    dsimp only
    cases ending.result with
    | ok value => exact settlingProcess_tells told activation value _
    | error fault => exact .done _

theorem bodyProcess_tells (activation : Activation) :
    ((weaver.withBodies others).bodyProcess activation).Tells weaver.registry.nowhere
      (weaver.bodyProcess activation) :=
  (Process.tells_ofAction _ (told _ _ rfl) (arrivalProcess_tells told _) {}).bind fun ended =>
    judgingProcess_tells told activation ended.1 ended.2

theorem insideProcess_tells (activation : Activation) :
    ((weaver.withBodies others).insideProcess activation).Tells weaver.registry.nowhere
      (weaver.insideProcess activation) := by
  refine Tells.bind (adviceListProcess_tells told activation.entry none _) fun ending => ?_
  match ending with
  | .ok none => exact bodyProcess_tells told activation
  | .ok (some value) => exact .done _
  | .error fault => exact .done _

theorem exitProcess_tells (activation : Activation) (value : Value) :
    ((weaver.withBodies others).exitProcess activation value).run.Tells weaver.registry.nowhere
      (weaver.exitProcess activation value).run :=
  (afterProcess_tells told _ value).attempt fun _ => .done _

theorem observingProcess_tells (activation : Activation) :
    ((weaver.withBodies others).observingProcess activation).Tells weaver.registry.nowhere
      (weaver.observingProcess activation) := by
  refine Tells.bind (afterProcess_tells told activation.exit .null) fun ending => ?_
  cases ending <;> exact .done _

theorem conclusionProcess_tells (activation : Activation) (verdict : Verdict) :
    ((weaver.withBodies others).conclusionProcess activation verdict).Tells weaver.registry.nowhere
      (weaver.conclusionProcess activation verdict) := by
  have settings : (weaver.withBodies others).settings = weaver.settings := rfl
  unfold conclusionProcess
  rw [settings]
  cases verdict with
  | completed value => exact (exitProcess_tells told activation value).bind fun _ => .done _
  | returned value =>
    dsimp only
    split
    · exact (exitProcess_tells told activation value).bind fun _ => .done _
    · exact .done _
  | failed fault ofBody =>
    dsimp only
    split
    · exact (observingProcess_tells told activation).bind fun _ => .done _
    · exact .done _

theorem defaultProcess_tells (member : MemberId) (this : Option ObjectRef) (bound : List Value)
    (default : Default) :
    ((weaver.withBodies others).defaultProcess member this bound default).run.Tells weaver.registry.nowhere
      (weaver.defaultProcess member this bound default).run := by
  cases default with
  | const value => exact .done _
  | computed body => exact Tells.lift (Process.tells_ofPlain _ _ (told _ _ rfl)) fun _ => .done _

theorem paramProcess_tells (member : MemberId) (this : Option ObjectRef) (bound : List Value) (param : Param)
    (binding : Binding) :
    ((weaver.withBodies others).paramProcess member this bound param binding).run.Tells weaver.registry.nowhere
      (weaver.paramProcess member this bound param binding).run := by
  cases binding with
  | supplied value => exact .done _
  | masked default => exact .record _ (defaultProcess_tells told member this bound default)
  | omitted default => exact defaultProcess_tells told member this bound default

theorem paramsProcess_tells (member : MemberId) (this : Option ObjectRef) (bound : List Value)
    (params : List (Param × Binding)) :
    ((weaver.withBodies others).paramsProcess member this bound params).run.Tells weaver.registry.nowhere
      (weaver.paramsProcess member this bound params).run := by
  induction params generalizing bound with
  | nil => exact .done _
  | cons first rest ih =>
    exact (paramProcess_tells told member this bound first.1 first.2).attempt fun value => ih _

theorem enteredProcess_tells (member : MemberEntry) (call : Call) (selection : Selection) :
    ((weaver.withBodies others).enteredProcess member call selection).Tells weaver.registry.nowhere
      (weaver.enteredProcess member call selection) := by
  refine Tells.bind (paramsProcess_tells told _ _ _ _) fun reached => ?_
  cases reached with
  | error fault => exact .done _
  | ok args =>
    exact (insideProcess_tells told _).bind fun verdict => conclusionProcess_tells told _ verdict

/-- **Where the bodies tell, invocations do the same**, apart from calls that nobody answers. -/
theorem invocationProcess_tells (caller : Caller) (call : Call) (member : MemberEntry) :
    ((weaver.withBodies others).invocationProcess caller call member).Tells weaver.registry.nowhere
      (weaver.invocationProcess caller call member) := by
  refine Tells.bind ?_ fun conclusion => .refl _
  have known : (weaver.withBodies others).registry = weaver.registry := rfl
  unfold memberProcess
  rw [known]
  cases weaver.registry.select member (weaver.registry.classify caller call.receiver member) call.args with
  | error fault => exact .done _
  | ok selection =>
    exact .relation fun relation => .record _ (enteredProcess_tells told member call selection)

end Parts

end Weaver

/-! ## Programs whose scripts tell -/

/-- The bodies of the scripts of a model, telling. -/
def Model.tellingBodies (model : Model) : List Body := model.scripts.map fun (_, script) => script.telling

namespace Weaver

variable {weaver : Weaver} {model : Model}

/-- The weaver whose scripts tell what they know. -/
def telling (weaver : Weaver) (model : Model) : Weaver := weaver.withBodies model.tellingBodies

theorem body_telling (weaver : Weaver) (model : Model) (id : BodyId) : (weaver.telling model).body id =
    ((model.scripts[id.index]?.map fun script => script.2.telling).getD fun _ => .done (.ok .next)) := by
  simp [telling, withBodies, Program.body, Model.tellingBodies]

theorem told_of_build (accepted : Program.build model.toDeclarations model.bindings = .ok weaver.toProgram) :
    weaver.Told model.tellingBodies := by
  intro id context known
  change ((weaver.telling model).body id context).Tells _ _
  rw [body_telling, Program.body_of_build accepted, ← known]
  cases model.scripts[id.index]? with
  | none => exact .refl _
  | some script => exact script.2.telling_tells context

end Weaver

end Weaving
