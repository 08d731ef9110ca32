import Weaving.Proofs.Selections
import Weaving.Proofs.Worlds

/-!
Honest invocations. If the bodies of a weaver and the constant defaults of its parameters are honest
(`Weaver.Honest`), so is the code of every invocation that is begun with known objects on a chain that is not
cancelled (`Weaver.Honest.invocationProcess`): all that it passes on it has been given, or has been answered.
-/

namespace Weaving

variable {standard : Standard} {world : World}

/-- The bodies of a weaver are honest where they are run with known objects, and its constant defaults are
known everywhere. -/
structure Weaver.Honest (weaver : Weaver) (standard : Standard) : Prop where
  body : ∀ (id : BodyId) (world : World) (context : Context), context.registry = weaver.registry →
    standard.Known world context → (weaver.body id context).Honest standard world
  const : ∀ member ∈ weaver.registry.members, ∀ param ∈ member.params, ∀ value,
    param.default = some (.const value) → ∀ world : World, standard.Known world value

namespace Weaver

open Process (Honest)

variable {weaver : Weaver}

theorem known_adviceCaller (catalog : Catalog) (owner : AdviceOwner) :
    standard.Known world (catalog.adviceCaller owner) := by
  cases owner <;> exact Standard.known_of_objects_eq_nil rfl

theorem known_result {ending : Ending} (known : standard.Known world ending) :
    standard.Known world ending.result := by
  match ending with
  | .ok flow => exact known
  | .error (.give value) => exact known
  | .error (.fault fault) => exact Standard.known_fault fault

/-! ### Advice -/

theorem adviceReturnProcess_honest {pointcut : PointcutEntry} {site : Site} {ending : Ending}
    (known : standard.Known world ending) :
    (adviceReturnProcess pointcut site ending).run.Honest standard world := by
  have gives {value : Value} (isValue : standard.Known world value) :
      (adviceReturnProcess pointcut site (.ok (.give value))).run.Honest standard world := by
    unfold adviceReturnProcess
    dsimp only
    by_cases untyped : pointcut.returns.isNone
    · rw [if_pos untyped]
      exact Standard.known_of_objects_eq_nil rfl
    · rw [if_neg untyped]
      exact ⟨fun _ => id, Standard.known_some.mpr isValue⟩
  match ending with
  | .ok .next => exact Standard.known_none
  | .ok (.give value) => exact gives known
  | .error (.give value) => exact gives known
  | .error (.fault fault) => exact Standard.known_fault fault

section Code

variable (honest : weaver.Honest standard)
include honest

/-- Advice is started only after it has been seen that the chain is not cancelled. -/
theorem adviceProcess_honest {point : JoinPoint} {result : Option Value} (known : standard.Known world point)
    (isResult : standard.Known world result) (id : PointcutId) :
    (weaver.adviceProcess point result id).run.Honest standard world := by
  unfold adviceProcess
  change Process.Honest standard (ExceptT.run (if world.cancelled = true then _ else _)) world
  by_cases stopped : world.cancelled = true
  · rw [if_pos stopped]
    exact Standard.known_fault .cancelled
  rw [if_neg stopped]
  cases weaver.registry.pointcut? id with
  | none => exact Standard.known_none
  | some pointcut =>
    refine ⟨fun set => absurd set stopped, ?_⟩
    obtain ⟨isThis, areArgs⟩ := Standard.known_point_iff.mp known
    let context : Context :=
      ⟨weaver.registry, .advice pointcut.id point.site, point.site.member, point.this, point.args, result⟩
    have body : (weaver.body pointcut.body context).Honest standard world :=
      honest.body _ _ _ rfl (Standard.known_context_iff.mpr ⟨isThis, areArgs, isResult⟩)
    refine Honest.lift (Process.honest_ofPlain body (known_adviceCaller _ _)) fun later ending _ isEnding => ?_
    exact adviceReturnProcess_honest isEnding

theorem adviceListProcess_honest {point : JoinPoint} {result : Option Value}
    (known : standard.Known world point) (isResult : standard.Known world result) (ids : List PointcutId) :
    (weaver.adviceListProcess point result ids).run.Honest standard world := by
  induction ids generalizing world with
  | nil => exact Standard.known_none
  | cons id ids ih =>
    apply (adviceProcess_honest honest known isResult id).attempt
    intro later returned before isReturned
    cases returned with
    | none => exact ih (known.mono before) (isResult.mono before)
    | some value => exact isReturned

theorem beforeProcess_honest {point : JoinPoint} (known : standard.Known world point) :
    (weaver.beforeProcess point).run.Honest standard world :=
  adviceListProcess_honest honest known Standard.known_none _

theorem afterProcess_honest {point : JoinPoint} {result : Value} (known : standard.Known world point)
    (isResult : standard.Known world result) : (weaver.afterProcess point result).run.Honest standard world :=
  adviceListProcess_honest honest known (Standard.known_some.mpr isResult) _

/-! ### Activations -/

theorem arrivalProcess_honest {context : Context} (isThis : standard.Known world context.this)
    {args : List Value} (areArgs : standard.Known world args) {visits : Visits}
    (known : standard.Known world visits) (name : String) :
    ((weaver.arrivalProcess context name args).run visits).Honest standard world := by
  unfold arrivalProcess
  cases context.point? name with
  | none => exact Standard.known_pair.mpr ⟨Standard.known_of_objects_eq_nil rfl, known⟩
  | some index =>
    let point : JoinPoint := ⟨.point context.member index, context.this, args⟩
    have advised : (weaver.beforeProcess point).run.Honest standard world :=
      beforeProcess_honest honest (Standard.known_point_iff.mpr ⟨isThis, areArgs⟩)
    apply advised.bind
    intro later reached before isReached
    obtain ⟨arrivals, returned⟩ := Standard.known_visits_iff.mp (known.mono before)
    match reached with
    | .ok none =>
      have arrived : standard.Known later (⟨index, args⟩ :: visits.arrivals : List Arrival) :=
        Standard.known_cons.mpr ⟨areArgs.mono before, arrivals⟩
      exact Standard.known_pair.mpr ⟨nofun, Standard.known_visits_iff.mpr ⟨arrived, returned⟩⟩
    | .ok (some value) =>
      exact Standard.known_pair.mpr ⟨Standard.known_some.mp isReached,
        Standard.known_visits_iff.mpr ⟨arrivals, isReached⟩⟩
    | .error fault =>
      exact Standard.known_pair.mpr ⟨nofun, Standard.known_visits_iff.mpr ⟨arrivals, returned⟩⟩

section Activation

variable {activation : Activation}

theorem settlingProcess_honest (known : standard.Known world activation) {value : Value}
    (isValue : standard.Known world value) {arrivals : List Arrival}
    (areArrivals : standard.Known world arrivals) :
    (weaver.settlingProcess activation value arrivals).Honest standard world := by
  induction arrivals generalizing world with
  | nil => exact isValue
  | cons arrival arrivals ih =>
    obtain ⟨isArrival, others⟩ := Standard.known_cons.mp areArrivals
    have isThis := (Standard.known_activation_iff.mp known).1
    have after : (weaver.afterProcess (activation.point arrival) value).run.Honest standard world :=
      afterProcess_honest honest (Standard.known_point_iff.mpr ⟨isThis, isArrival⟩) isValue
    apply after.bind
    intro later ending before isEnding
    match ending with
    | .ok none => exact ih (known.mono before) (isValue.mono before) (others.mono before)
    | .ok (some value) => exact Standard.known_some.mp isEnding
    | .error fault => exact Standard.known_of_objects_eq_nil rfl

theorem judgingProcess_honest (known : standard.Known world activation) {ending : Ending}
    (isEnding : standard.Known world ending) {visits : Visits} (areVisits : standard.Known world visits) :
    (weaver.judgingProcess activation ending visits).Honest standard world := by
  obtain ⟨arrivals, isReturned⟩ := Standard.known_visits_iff.mp areVisits
  have isResult := known_result isEnding
  unfold judgingProcess
  cases returned : visits.returned with
  | some value =>
    rw [returned] at isReturned
    exact Standard.known_some.mp isReturned
  | none =>
    dsimp only
    cases result : ending.result with
    | ok value =>
      rw [result] at isResult
      exact settlingProcess_honest honest known isResult arrivals
    | error fault => exact Standard.known_of_objects_eq_nil rfl

theorem bodyProcess_honest (known : standard.Known world activation) :
    (weaver.bodyProcess activation).Honest standard world := by
  obtain ⟨isThis, areArgs⟩ := Standard.known_activation_iff.mp known
  let context : Context :=
    ⟨weaver.registry, .member, activation.member.id, activation.this, activation.args, none⟩
  have body : (weaver.body activation.body context).Honest standard world :=
    honest.body _ _ _ rfl (Standard.known_context_iff.mpr ⟨isThis, areArgs, Standard.known_none⟩)
  have calls : standard.Known world (weaver.registry.callerInMember activation.member.id activation.this) :=
    isThis
  have joins (later : World) (name : String) (args : List Value) (visits : Visits)
      (before : world.Before later) (areArgs : standard.Known later args)
      (known : standard.Known later visits) :
      ((weaver.arrivalProcess context name args).run visits).Honest standard later :=
    arrivalProcess_honest honest (isThis.mono before) areArgs known name
  refine Honest.bind (Process.honest_ofAction body calls joins (Standard.known_of_objects_eq_nil rfl))
    fun later ended before isEnded => ?_
  obtain ⟨isEnding, areVisits⟩ := Standard.known_pair.mp isEnded
  exact judgingProcess_honest honest (known.mono before) isEnding areVisits

theorem insideProcess_honest (known : standard.Known world activation) :
    (weaver.insideProcess activation).Honest standard world := by
  have entered : (weaver.beforeProcess activation.entry).run.Honest standard world :=
    beforeProcess_honest honest known
  apply entered.bind
  intro later ending before isEnding
  match ending with
  | .ok none => exact bodyProcess_honest honest (known.mono before)
  | .ok (some value) => exact Standard.known_some.mp isEnding
  | .error fault => exact Standard.known_of_objects_eq_nil rfl

theorem exitProcess_honest (known : standard.Known world activation) {value : Value}
    (isValue : standard.Known world value) :
    (weaver.exitProcess activation value).run.Honest standard world := by
  have after : (weaver.afterProcess activation.exit value).run.Honest standard world :=
    afterProcess_honest honest known isValue
  apply after.attempt
  intro later returned before isReturned
  cases returned with
  | none => exact isValue.mono before
  | some value => exact Standard.known_some.mp isReturned

theorem conclusionProcess_honest (known : standard.Known world activation) {verdict : Verdict}
    (isVerdict : standard.Known world verdict) :
    (weaver.conclusionProcess activation verdict).Honest standard world := by
  have exits {value : Value} (isValue : standard.Known world value) :
      (do pure ⟨← (weaver.exitProcess activation value).run, none⟩ : Process Conclusion).Honest standard
        world :=
    (exitProcess_honest honest known isValue).bind fun later result _ isResult => isResult
  unfold conclusionProcess
  cases verdict with
  | completed value => exact exits isVerdict
  | returned value =>
    dsimp only
    split
    · exact exits isVerdict
    · exact isVerdict
  | failed fault ofBody =>
    dsimp only
    split
    · have after : (weaver.afterProcess activation.exit .null).run.Honest standard world :=
        afterProcess_honest honest known Standard.known_null
      have observed : (weaver.observingProcess activation).Honest standard world := by
        apply after.bind
        intro later ending _ _
        cases ending <;> exact Standard.known_of_objects_eq_nil rfl
      exact observed.bind fun later dropped _ _ => Standard.known_fault fault
    · exact Standard.known_fault fault

theorem activationProcess_honest (known : standard.Known world activation) :
    (weaver.activationProcess activation).Honest standard world :=
  (insideProcess_honest honest known).bind fun _ _ before isVerdict =>
    conclusionProcess_honest honest (known.mono before) isVerdict

end Activation

/-! ### Parameters -/

theorem defaultProcess_honest {this : Option ObjectRef} (isThis : standard.Known world this)
    {bound : List Value} (areBound : standard.Known world bound) {default : Default}
    (isDefault : standard.Known world default) (member : MemberId) :
    (weaver.defaultProcess member this bound default).run.Honest standard world := by
  cases default with
  | const value => exact isDefault
  | computed body =>
    let context : Context := ⟨weaver.registry, .default, member, this, bound, none⟩
    have code : (weaver.body body context).Honest standard world :=
      honest.body _ _ _ rfl (Standard.known_context_iff.mpr ⟨isThis, areBound, Standard.known_none⟩)
    have calls : standard.Known world (weaver.registry.callerInMember member this) := isThis
    refine Honest.lift (Process.honest_ofPlain code calls) fun later ending _ isEnding => ?_
    exact known_result isEnding

theorem paramProcess_honest {this : Option ObjectRef} (isThis : standard.Known world this)
    {bound : List Value} (areBound : standard.Known world bound) {binding : Binding}
    (isBinding : standard.Known world binding) (member : MemberId) (param : Param) :
    (weaver.paramProcess member this bound param binding).run.Honest standard world := by
  cases binding with
  | supplied value => exact isBinding
  | masked default => exact ⟨fun _ => id, defaultProcess_honest honest isThis areBound isBinding member⟩
  | omitted default => exact defaultProcess_honest honest isThis areBound isBinding member

theorem paramsProcess_honest {this : Option ObjectRef} (isThis : standard.Known world this)
    {bound : List Value} (areBound : standard.Known world bound) {params : List (Param × Binding)}
    (areBindings : ∀ later, ∀ param ∈ params, world.Before later → standard.Known later param.2)
    (member : MemberId) :
    (weaver.paramsProcess member this bound params).run.Honest standard world := by
  induction params generalizing world bound with
  | nil => exact areBound
  | cons first rest ih =>
    have isFirst := areBindings world first List.mem_cons_self (.refl world)
    apply (paramProcess_honest honest isThis areBound isFirst member first.1).attempt
    intro later value before isValue
    refine ih (isThis.mono before) ?_ fun last param held between => ?_
    · have isLast := Standard.known_cons.mpr ⟨isValue, Standard.known_nil⟩
      exact Standard.known_append.mpr ⟨areBound.mono before, isLast⟩
    · exact areBindings last param (List.mem_cons_of_mem _ held) (before.trans between)

/-- The values that parameters are bound to are those of the call, or defaults. -/
theorem known_bindings {member : MemberEntry} (held : member ∈ weaver.registry.members)
    {relation : RelationClass} {args : List Value} {bindings : List Binding}
    (masks : Masks relation member.params args bindings) (areArgs : standard.Known world args) :
    ∀ param ∈ member.params.zip bindings, standard.Known world param.2 := by
  rintro ⟨param, binding⟩ among
  obtain ⟨index, found⟩ := List.mem_iff_getElem?.mp among
  obtain ⟨isParam, isBinding⟩ := List.getElem?_zip_eq_some.mp found
  have fits := masks.fits index param binding isParam isBinding
  have own (default : Default) (isDefault : param.default = some default) : standard.Known world default := by
    cases default with
    | const value => exact honest.const member held param (List.mem_of_getElem? isParam) value isDefault world
    | computed body => exact Standard.known_of_objects_eq_nil rfl
  cases arg : args[index]? with
  | some value =>
    rw [arg] at fits
    cases binding with
    | supplied other =>
      obtain ⟨-, rfl⟩ := fits
      exact Standard.known_list_iff.mp areArgs other (List.mem_of_getElem? arg)
    | masked default => exact own default fits.2
    | omitted default => exact fits.elim
  | none =>
    rw [arg] at fits
    cases binding with
    | omitted default => exact own default fits
    | supplied other => exact fits.elim
    | masked default => exact fits.elim

theorem enteredProcess_honest {member : MemberEntry} (held : member ∈ weaver.registry.members) {call : Call}
    (known : standard.Known world call) {relation : RelationClass} {selection : Selection}
    (selects : weaver.registry.select member relation call.args = .ok selection) :
    (weaver.enteredProcess member call selection).Honest standard world := by
  obtain ⟨isReceiver, areArgs⟩ := Standard.known_append_iff.mp known
  have isThis : standard.Known world (if member.isStatic then none else call.receiver) := by
    split
    · exact Standard.known_none
    · exact isReceiver
  have areBindings (later : World) (param : Param × Binding)
      (among : param ∈ member.params.zip selection.bindings) (before : world.Before later) :
      standard.Known later param.2 :=
    (known_bindings honest held (Catalog.masks_of_select selects).2 areArgs param among).mono before
  have nothing : standard.Known world ([] : List Value) := Standard.known_nil
  apply (paramsProcess_honest honest isThis nothing areBindings member.id).bind
  intro later reached before isReached
  cases reached with
  | error fault => exact Standard.known_fault fault
  | ok args =>
    exact activationProcess_honest honest (Standard.known_activation_iff.mpr ⟨isThis.mono before, isReached⟩)

omit honest in
/-- The end of an invocation starts nothing. -/
theorem finish_honest {member : MemberId} {conclusion : Conclusion} (known : standard.Known world conclusion) :
    (conclusion.finish member).Honest standard world := by
  obtain ⟨result, dropped⟩ := conclusion
  have closes : (Process.record (closing member result) (.done result)).Honest standard world := by
    cases result <;> exact ⟨fun _ => id, known⟩
  cases dropped with
  | none => exact closes
  | some fault => exact ⟨fun _ => id, closes⟩

/-- **The code of invocations is honest.** It is begun on a chain that is not cancelled. -/
theorem Honest.invocationProcess {member : MemberEntry} (held : member ∈ weaver.registry.members)
    (caller : Caller) {call : Call} (known : standard.Known world call) (going : world.cancelled = false) :
    (weaver.invocationProcess caller call member).Honest standard world := by
  cases selects : weaver.registry.select member (weaver.registry.classify caller call.receiver member)
    call.args with
  | error fault =>
    rw [invocationProcess_of_unfit selects]
    exact finish_honest (Standard.known_fault fault)
  | ok selection =>
    rw [invocationProcess_of_select selects]
    refine fun relation => ⟨fun set => absurd (set.symm.trans going) (by simp), ?_⟩
    exact (enteredProcess_honest honest held known selects).bind fun later conclusion _ isConclusion =>
      finish_honest isConclusion

end Code

end Weaver

end Weaving
