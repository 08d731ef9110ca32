import Weaving.Proofs.Honesty
import Weaving.Proofs.Telling

/-!
What scripts pass on. A script passes on what it has been given, what it has been answered, objects that it has
made, and the values that are written in it. If these values are known, its body is honest, whether it tells
what it knows or not (`Script.body_honest`, `Script.telling_honest`). So are all bodies of a model in which no
objects are written, where no objects are known but those that have been made (`Weaver.honest_of_build`).
-/

namespace Weaving

variable {α β : Type}

/-! ## Values written in programs -/

def Operand.literals : Operand → List Value
  | .literal value => [value]
  | .arg _ | .var _ => []

mutual

def Step.literals : Step → List Value
  | .give value => value.literals
  | .join _ args | .call _ _ _ args _ => args.flatMap Operand.literals
  | .guard _ permitted otherwise => Script.literals permitted ++ Script.literals otherwise
  | .emit _ | .fault _ | .allocate _ _ | .checkpoint => []

/-- The values that are written in a script. -/
def Script.literals : Script → List Value
  | [] => []
  | step :: steps => step.literals ++ Script.literals steps

end

def DefaultDeclaration.constant? : DefaultDeclaration → Option Value
  | .const value => some value
  | .computed _ => none

/-- The constant defaults of the parameters of a member. -/
def MemberDeclaration.constants (member : MemberDeclaration) : List Value :=
  member.params.filterMap fun param => param.default.bind DefaultDeclaration.constant?

/-- No objects are written in a program, neither in scripts nor as defaults. -/
structure Model.ObjectFree (model : Model) : Prop where
  scripts : ∀ script ∈ model.scripts, ∀ value ∈ script.2.literals, value.asObject? = none
  constants : ∀ member ∈ model.members, ∀ value ∈ member.constants, value.asObject? = none

/-! ## Runs of steps -/

instance : Carries String := ⟨fun _ => []⟩

instance : Carries Bool := ⟨fun _ => []⟩

instance : Carries RelationClass := ⟨fun _ => []⟩

namespace Standard

variable {standard : Standard} {world : World}

theorem known_asObject? {value : Value} (known : standard.Known world value) :
    standard.Known world value.asObject? :=
  known.of_subset fun object held => by simpa [objects] using held

theorem known_map_object {object : Option ObjectRef} (known : standard.Known world object) :
    standard.Known world (object.toList.map Value.object) := by
  cases object with
  | none => exact known_nil
  | some object => exact known_cons.mpr ⟨known_some.mp known, known_nil⟩

theorem known_toList {thing : Option Value} (known : standard.Known world thing) :
    standard.Known world thing.toList := by
  cases thing with
  | none => exact known_nil
  | some value => exact known_cons.mpr ⟨known_some.mp known, known_nil⟩

theorem known_call {target : MemberId} {receiver : Option ObjectRef} {args : List Value}
    (isReceiver : standard.Known world receiver) (areArgs : standard.Known world args) :
    standard.Known world (⟨target, receiver, args⟩ : Call) :=
  known_append_iff.mpr ⟨isReceiver, areArgs⟩

end Standard

namespace Script

open Run

/-- Steps that pass on none but known objects, in a world and in all that come of it. -/
def Run.Honest [Carries α] (standard : Standard) (world : World) (run : Run α) : Prop :=
  ∀ later vars, world.Before later → standard.Known later vars →
    Action.Honest standard (run vars : Action (Except Interrupt (α × Variables))) later

variable {standard : Standard} {world : World}

section Runs

variable [Carries α] [Carries β]

theorem Run.Honest.pure {a : α} (known : standard.Known world a) : Honest standard world (pure a) :=
  fun _ _ before areVars => Standard.known_pair.mpr ⟨known.mono before, areVars⟩

theorem Run.Honest.raise (fault : Fault) : Honest standard world (raise fault : Run α) :=
  fun _ _ _ _ => Standard.known_of_objects_eq_nil rfl

theorem Run.Honest.ask {action : Action α}
    (honest : ∀ later, world.Before later → action.Honest standard later) :
    Honest standard world (ask action) :=
  fun later _ before areVars => (honest later before).bind fun _ _ between known =>
    Standard.known_pair.mpr ⟨known, areVars.mono between⟩

theorem Run.Honest.get : Honest standard world (get : Run Variables) :=
  fun _ _ _ areVars => Standard.known_pair.mpr ⟨areVars, areVars⟩

theorem Run.Honest.bind {run : Run α} {next : α → Run β} (start : Honest standard world run)
    (rest : ∀ later a, world.Before later → standard.Known later a → Honest standard later (next a)) :
    Honest standard world (run >>= next) := by
  intro later vars before areVars
  refine Action.Honest.bind (start later vars before areVars) fun last reached between known => ?_
  cases reached with
  | ok reached =>
    obtain ⟨isResult, areVars⟩ := Standard.known_pair.mp known
    exact rest last reached.1 (before.trans between) isResult last reached.2 (.refl last) areVars
  | error interrupt => exact known

theorem Run.Honest.askOrStop {action : Action (Except Interrupt α)}
    (honest : ∀ later, world.Before later → action.Honest standard later) :
    Honest standard world (askOrStop action) := by
  apply (Honest.ask honest).bind
  intro later result before known
  cases result with
  | ok a => exact .pure known
  | error interrupt => exact fun last vars between areVars => known.mono between

end Runs

/-! ## Steps -/

variable {context : Context}

theorem known_arg (known : standard.Known world context) (index : Nat) :
    standard.Known world (context.arg index) := by
  unfold Context.arg
  cases arg : context.args[index]? with
  | none => exact Standard.known_null
  | some value =>
    have areArgs := (Standard.known_context_iff.mp known).2.1
    exact Standard.known_list_iff.mp areArgs value (List.mem_of_getElem? arg)

theorem known_get {vars : Variables} (areVars : standard.Known world vars) (name : String) :
    standard.Known world (vars.get name) := by
  unfold Variables.get
  induction vars with
  | nil => exact Standard.known_null
  | cons assigned vars ih =>
    obtain ⟨isAssigned, others⟩ := Standard.known_cons.mp areVars
    rw [List.lookup_cons]
    split
    · exact (Standard.known_pair.mp isAssigned).2
    · exact ih others

theorem known_eval (known : standard.Known world context) {vars : Variables}
    (areVars : standard.Known world vars) {operand : Operand}
    (written : standard.Known world operand.literals) : standard.Known world (operand.eval context vars) := by
  cases operand with
  | arg index => exact known_arg known index
  | var name => exact known_get areVars name
  | literal value => exact (Standard.known_cons.mp written).1

theorem known_receiver (known : standard.Known world context) {vars : Variables}
    (areVars : standard.Known world vars) (target : Target) :
    standard.Known world (target.eval context vars) := by
  cases target with
  | this => exact (Standard.known_context_iff.mp known).1
  | static => exact Standard.known_none
  | arg index => exact Standard.known_asObject? (known_arg known index)
  | var name => exact Standard.known_asObject? (known_get areVars name)

theorem known_request {receiver : Option ObjectRef} (isReceiver : standard.Known world receiver)
    {args : List Value} (areArgs : standard.Known world args) (context : Context) (member : String)
    (isVirtual : Bool) : standard.Known world (request context member receiver isVirtual args) := by
  unfold request
  split
  · cases receiver with
    | none => exact Standard.known_fault (.notAnInstance member)
    | some object =>
      dsimp only
      cases dispatch context object member with
      | error fault => exact Standard.known_fault fault
      | ok target => exact Standard.known_call isReceiver areArgs
  · cases target? context member with
    | none => exact Standard.known_fault (.noSuchMember member)
    | some target => exact Standard.known_call isReceiver areArgs

theorem relation_honest : Run.Honest standard world (ask (.relation .done)) :=
  .ask fun _ _ _ => Standard.known_of_objects_eq_nil rfl

theorem poll_honest : Run.Honest standard world (ask (.poll .done)) :=
  .ask fun _ _ _ => Standard.known_of_objects_eq_nil rfl

/-- Objects are known from when they are made. -/
theorem allocate_honest (type : TypeId) : Run.Honest standard world (ask (.allocate type .done)) := by
  refine .ask fun later _ number object held => ?_
  obtain rfl := List.mem_singleton.mp held
  exact standard.fresh (List.mem_append_right _ List.mem_cons_self)

theorem render_honest (template : String) : Run.Honest standard world (render context template) :=
  relation_honest.bind fun _ _ _ _ => Run.Honest.get.bind fun _ _ _ _ =>
    .pure (Standard.known_of_objects_eq_nil rfl)

theorem eval_honest (known : standard.Known world context) {args : List Operand}
    (written : standard.Known world (args.flatMap Operand.literals)) :
    Run.Honest standard world (eval context args) := by
  refine Run.Honest.get.bind fun later vars before areVars => .pure ?_
  refine Standard.known_list_iff.mpr fun value held => ?_
  obtain ⟨operand, among, rfl⟩ := List.mem_map.mp held
  refine known_eval (known.mono before) areVars (Standard.known_list_iff.mpr fun literal held => ?_)
  exact Standard.known_list_iff.mp (written.mono before) literal (List.mem_flatMap_of_mem among held)

theorem invoke_honest {request : Except Fault Call} (known : standard.Known world request) :
    Run.Honest standard world (invoke request) := by
  cases request with
  | error fault => exact .raise fault
  | ok call =>
    refine Run.Honest.bind (.ask fun later before => ⟨known.mono before, fun _ _ _ isResult => isResult⟩)
      fun later result before isResult => ?_
    cases result with
    | ok value => exact .pure isResult
    | error fault => exact .raise fault

theorem keep_honest {value : Value} (known : standard.Known world value) (into : Option String) :
    Run.Honest standard world (keep into value) := by
  cases into with
  | none => exact .pure (Standard.known_unit _)
  | some name =>
    intro later vars before areVars
    have assigned : standard.Known later (vars.set name value) :=
      Standard.known_cons.mpr ⟨Standard.known_pair.mpr ⟨nofun, known.mono before⟩, areVars⟩
    exact Standard.known_pair.mpr ⟨nofun, assigned⟩

theorem tell_honest {values : List Value} (known : standard.Known world values) :
    Run.Honest standard world (tell context values) :=
  .ask fun _ before => ⟨Standard.known_call Standard.known_none (known.mono before), fun _ _ _ _ => nofun⟩

theorem tellAll_honest (known : standard.Known world context) :
    Run.Honest standard world (tellAll context) := by
  refine Run.Honest.get.bind fun later vars before areVars => tell_honest ?_
  obtain ⟨isThis, areArgs, isResult⟩ := Standard.known_context_iff.mp (known.mono before)
  refine Standard.known_append.mpr ⟨Standard.known_append.mpr ⟨?_, Standard.known_toList isResult⟩, ?_⟩
  · exact Standard.known_append.mpr ⟨Standard.known_map_object isThis, areArgs⟩
  · refine Standard.known_list_iff.mpr fun value held => ?_
    obtain ⟨assigned, among, rfl⟩ := List.mem_map.mp held
    exact (Standard.known_pair.mp (Standard.known_list_iff.mp areVars assigned among)).2

mutual

theorem runStep_honest {world : World} {step : Step} (known : standard.Known world context)
    (written : standard.Known world step.literals) : Run.Honest standard world (runStep context step) := by
  have falls {later : World} : Run.Honest standard later (pure .next : Run Flow) := .pure Standard.known_null
  cases step with
  | emit template =>
    unfold runStep
    apply (render_honest template).bind
    intro later line _ _
    exact Run.Honest.bind (.ask fun _ _ => Standard.known_unit ()) fun _ _ _ _ => falls
  | give value =>
    unfold runStep
    refine Run.Honest.get.bind fun later vars before areVars => .pure ?_
    exact known_eval (known.mono before) areVars (written.mono before)
  | fault template =>
    unfold runStep
    exact (render_honest template).bind fun _ _ _ _ => .raise _
  | join point args =>
    unfold runStep
    apply (eval_honest known written).bind
    intro later values before areValues
    refine Run.Honest.bind (.askOrStop fun last between => ⟨areValues.mono between, ?_⟩) fun _ _ _ _ => falls
    exact fun _ _ _ isResult => isResult
  | call member on isVirtual args into =>
    unfold runStep
    apply Run.Honest.get.bind
    intro first vars before areVars
    have isReceiver := known_receiver (known.mono before) areVars on
    apply (eval_honest (known.mono before) (written.mono before)).bind
    intro later values between areValues
    apply (invoke_honest (known_request (isReceiver.mono between) areValues context member isVirtual)).bind
    intro _ value _ isValue
    exact (keep_honest isValue into).bind fun _ _ _ _ => falls
  | allocate type into =>
    unfold runStep
    cases context.registry.findType? type with
    | none => exact .raise _
    | some id =>
      apply (allocate_honest id).bind
      intro later object _ isObject
      exact (keep_honest isObject (some into)).bind fun _ _ _ _ => falls
  | guard relations permitted otherwise =>
    unfold runStep
    obtain ⟨isPermitted, isOtherwise⟩ := Standard.known_append.mp written
    apply relation_honest.bind
    intro later relation before _
    split
    · exact runSteps_honest (known.mono before) (isPermitted.mono before)
    · exact runSteps_honest (known.mono before) (isOtherwise.mono before)
  | checkpoint =>
    unfold runStep
    apply poll_honest.bind
    intro later cancelled _ _
    cases cancelled with
    | true => exact .raise _
    | false => exact falls

theorem runSteps_honest {world : World} {steps : List Step} (known : standard.Known world context)
    (written : standard.Known world (Script.literals steps)) :
    Run.Honest standard world (runSteps context steps) := by
  cases steps with
  | nil =>
    unfold runSteps
    exact .pure Standard.known_null
  | cons step steps =>
    obtain ⟨isFirst, others⟩ := Standard.known_append.mp written
    unfold runSteps
    apply (runStep_honest known isFirst).bind
    intro later flow before isFlow
    cases flow with
    | next => exact runSteps_honest (known.mono before) (others.mono before)
    | give value => exact .pure isFlow

end

mutual

theorem tellStep_honest {world : World} {step : Step} (known : standard.Known world context)
    (written : standard.Known world step.literals) : Run.Honest standard world (tellStep context step) := by
  cases step with
  | give value =>
    unfold tellStep
    apply Run.Honest.get.bind
    intro later vars before areVars
    have isValue := known_eval (known.mono before) areVars (written.mono before)
    apply (tell_honest (Standard.known_cons.mpr ⟨isValue, Standard.known_nil⟩)).bind
    intro last _ between _
    exact runStep_honest (known.mono (before.trans between)) (written.mono (before.trans between))
  | join point args =>
    unfold tellStep
    apply (eval_honest known written).bind
    intro later values before areValues
    apply (tell_honest areValues).bind
    intro last _ between _
    exact runStep_honest (known.mono (before.trans between)) (written.mono (before.trans between))
  | guard relations permitted otherwise =>
    unfold tellStep
    obtain ⟨isPermitted, isOtherwise⟩ := Standard.known_append.mp written
    apply relation_honest.bind
    intro later relation before _
    split
    · exact tellSteps_honest (known.mono before) (isPermitted.mono before)
    · exact tellSteps_honest (known.mono before) (isOtherwise.mono before)
  | emit | fault | call | allocate | checkpoint =>
    unfold tellStep
    exact runStep_honest known written

theorem tellSteps_honest {world : World} {steps : List Step} (known : standard.Known world context)
    (written : standard.Known world (Script.literals steps)) :
    Run.Honest standard world (tellSteps context steps) := by
  cases steps with
  | nil =>
    unfold tellSteps
    exact (tellAll_honest known).bind fun _ _ _ _ => .pure Standard.known_null
  | cons step steps =>
    obtain ⟨isFirst, others⟩ := Standard.known_append.mp written
    unfold tellSteps
    apply (tellAll_honest known).bind
    intro first _ before _
    apply (tellStep_honest (known.mono before) (isFirst.mono before)).bind
    intro later flow between isFlow
    cases flow with
    | next => exact tellSteps_honest (known.mono (before.trans between)) (others.mono (before.trans between))
    | give value => exact .pure isFlow

end

/-! ## Bodies -/

theorem Run.Honest.body {run : Run Flow} (honest : Honest standard world run) :
    Action.Honest standard ((run.run' []).run : Action Ending) world := by
  change Action.Honest standard (Action.bind (run []) _) world
  apply (honest world [] (.refl world) Standard.known_nil).bind
  intro later reached _ known
  cases reached with
  | ok reached => exact (Standard.known_pair.mp known).1
  | error interrupt => exact known

/-- Scripts are honest if the values that are written in them are known. -/
theorem body_honest {script : Script} (known : standard.Known world context)
    (written : standard.Known world script.literals) : (body script context).Honest standard world :=
  (runSteps_honest known written).body

/-- What a telling script says is known as well. -/
theorem telling_honest {script : Script} (known : standard.Known world context)
    (written : standard.Known world script.literals) : (script.telling context).Honest standard world :=
  (tellSteps_honest known written).body

end Script

/-! ## Constant defaults -/

namespace Resolution

variable {declared : Declarations} {bodies : List String}

theorem resolveParam_const {path : String} {param : ParamDeclaration} {value : Value}
    (isConst : (resolveParam bodies path param).value.default = some (.const value)) :
    param.default = some (.const value) := by
  change (resolveDefault bodies path param.name param.default).value = _ at isConst
  match default : param.default with
  | none => simp [default, resolveDefault] at isConst
  | some (.const other) => simpa [default, resolveDefault] using isConst
  | some (.computed name) => simp [default, resolveDefault] at isConst

theorem memberEntry_const {types : List TypeEntry} {member : MemberDeclaration × Nat} {param : Param}
    (held : param ∈ (memberEntry bodies types member).params) {value : Value}
    (isConst : param.default = some (.const value)) : value ∈ member.1.constants := by
  obtain ⟨path, params⟩ := exists_params_memberEntry bodies types member
  rw [params] at held
  obtain ⟨source, among, rfl⟩ := List.mem_map.mp held
  refine List.mem_filterMap.mpr ⟨source, among, ?_⟩
  rw [resolveParam_const isConst]
  rfl

/-- The constant defaults of entries have been declared. -/
theorem catalog_const (clean : (catalog declared bodies).problems = []) {member : MemberEntry}
    (held : member ∈ (catalog declared bodies).value.members) {param : Param} (among : param ∈ member.params)
    {value : Value} (isConst : param.default = some (.const value)) :
    ∃ source ∈ declared.members, value ∈ source.constants := by
  rw [catalog_eq] at clean held
  simp only [Checked.problems_bind, Checked.problems_pure, List.append_nil, List.append_eq_nil_iff] at clean
  simp only [Checked.value_bind, Checked.value_pure] at held
  unfold collectMembers at clean held
  rw [(adds_member bodies _).value_eq clean.2.2.1] at held
  obtain ⟨source, isSource, rfl⟩ := List.mem_map.mp held
  exact ⟨source.1, List.fst_mem_of_mem_zipIdx isSource, memberEntry_const among isConst⟩

end Resolution

/-! ## Programs -/

namespace Weaver

variable {weaver : Weaver} {model : Model}

/-- The constant defaults of an accepted program in which no objects are written are known everywhere. -/
theorem known_const (accepted : Program.build model.toDeclarations model.bindings = .ok weaver.toProgram)
    (free : model.ObjectFree) (standard : Standard) {member : MemberEntry}
    (held : member ∈ weaver.registry.members) {param : Param} (among : param ∈ member.params) {value : Value}
    (isConst : param.default = some (.const value)) (world : World) : standard.Known world value := by
  obtain ⟨same, clean⟩ := Registry.eq_ofCatalog_of_build (Program.registry_of_build accepted)
  rw [same] at held
  obtain ⟨source, isSource, written⟩ := Resolution.catalog_const clean held among isConst
  have plain := free.constants source isSource value written
  exact Standard.known_of_objects_eq_nil (by simp [objects, plain])

theorem known_literals (free : model.ObjectFree) (standard : Standard) {script : String × Script}
    (held : script ∈ model.scripts) (world : World) : standard.Known world script.2.literals := by
  refine Standard.known_list_iff.mpr fun value written => ?_
  have plain := free.scripts script held value written
  exact Standard.known_of_objects_eq_nil (by simp [objects, plain])

theorem honest_of_build (accepted : Program.build model.toDeclarations model.bindings = .ok weaver.toProgram)
    (free : model.ObjectFree) (standard : Standard) : weaver.Honest standard where
  const _ held _ among _ isConst world := known_const accepted free standard held among isConst world
  body id world context _ known := by
    rw [Program.body_of_build accepted]
    cases found : model.scripts[id.index]? with
    | none => exact Script.body_honest known Standard.known_nil
    | some script =>
      exact Script.body_honest known (known_literals free standard (List.mem_of_getElem? found) world)

theorem telling_honest (accepted : Program.build model.toDeclarations model.bindings = .ok weaver.toProgram)
    (free : model.ObjectFree) (standard : Standard) : (weaver.telling model).Honest standard where
  const _ held _ among _ isConst world := known_const accepted free standard held among isConst world
  body id world context _ known := by
    rw [body_telling]
    cases found : model.scripts[id.index]? with
    | none => exact Standard.known_null
    | some script =>
      exact Script.telling_honest known (known_literals free standard (List.mem_of_getElem? found) world)

end Weaver

end Weaving
