import Weaving.Proofs.Process
import Weaving.Proofs.Scripts

/-!
The conduct of activations. Whatever its bodies are, the code of an activation records nothing but
arguments that are masked and the advice that is planned at its own sites (`Weaver.Permits`). Where bodies are
prompt it also heeds faults: once a call from it has failed, it comes to a fault itself
(`Weaver.enteredProcess_keeps`).
-/

namespace Weaving

variable {α β : Type}

/-- An event that belongs inside an activation of a member. -/
def Event.Inside (member : MemberId) : Event → Prop
  | .masked other _ => other = member
  | .advice _ _ site | .shortCircuit _ site => site.member = member
  | .enter _ _ _ _ | .exit _ | .fault _ _ => False

/-! ## What processes keep to -/

namespace Process

/-- The code records only events of a kind of its own, and comes to a result of some kind. The result may
depend on whether a call has failed on the way to it. -/
def Keeps (own : Event → Prop) (post : Bool → α → Prop) : Process α → Bool → Prop
  | .done result, failed => post failed result
  | .emit _ next, failed => next.Keeps own post failed
  | .record event next, failed => own event ∧ next.Keeps own post failed
  | .relation next, failed => ∀ relation, (next relation).Keeps own post failed
  | .poll next, failed => ∀ cancelled, (next cancelled).Keeps own post failed
  | .allocate _ next, failed => ∀ object, (next object).Keeps own post failed
  | .cancel next, failed => next.Keeps own post failed
  | .call _ _ next, failed =>
    (∀ value, (next (.ok value)).Keeps own post failed) ∧
      ∀ fault, (next (.error fault)).Keeps own post true

variable {own : Event → Prop} {post : Bool → α → Prop} {next : Bool → β → Prop}
  {process : Process α} {failed : Bool}

theorem Keeps.bind {rest : α → Process β} (start : process.Keeps own post failed)
    (each : ∀ failed a, post failed a → (rest a).Keeps own next failed) :
    (process >>= rest).Keeps own next failed := by
  change (process.bind rest).Keeps own next failed
  induction process generalizing failed with
  | done result => exact each failed result start
  | emit line process ih => exact ih start
  | record event process ih => exact ⟨start.1, ih start.2⟩
  | relation process ih => exact fun relation => ih relation (start relation)
  | poll process ih => exact fun cancelled => ih cancelled (start cancelled)
  | allocate type process ih => exact fun object => ih object (start object)
  | cancel process ih => exact ih start
  | call caller request process ih =>
    exact ⟨fun value => ih _ (start.1 value), fun fault => ih _ (start.2 fault)⟩

/-- What the code records does not depend on the calls that have failed before. -/
theorem Keeps.regardless (keeps : process.Keeps own post failed) (already : Bool) :
    process.Keeps own (fun _ _ => True) already := by
  induction process generalizing failed already with
  | done result => trivial
  | emit line process ih => exact ih keeps already
  | record event process ih => exact ⟨keeps.1, ih keeps.2 already⟩
  | relation process ih => exact fun relation => ih relation (keeps relation) already
  | poll process ih => exact fun cancelled => ih cancelled (keeps cancelled) already
  | allocate type process ih => exact fun object => ih object (keeps object) already
  | cancel process ih => exact ih keeps already
  | call caller request process ih =>
    exact ⟨fun value => ih _ (keeps.1 value) already, fun fault => ih _ (keeps.2 fault) true⟩

/-- Goes on with what an attempt has come to, unless that is a fault. -/
theorem Keeps.attempt {trial : Trial α} {rest : α → Trial β} {post : Bool → Except Fault α → Prop}
    {next : Bool → Except Fault β → Prop} (start : trial.run.Keeps own post failed)
    (each : ∀ failed a, post failed (.ok a) → (rest a).run.Keeps own next failed)
    (stopped : ∀ failed fault, next failed (.error fault)) : (trial >>= rest).run.Keeps own next failed := by
  change (trial.run >>= ExceptT.bindCont rest).Keeps own next failed
  refine Keeps.bind start fun failed result holds => ?_
  cases result with
  | ok a => exact each failed a holds
  | error fault => exact stopped failed fault

theorem Keeps.lift {rest : α → Trial β} {next : Bool → Except Fault β → Prop}
    (start : process.Keeps own post failed)
    (each : ∀ failed a, post failed a → (rest a).run.Keeps own next failed) :
    ((liftM process : Trial α) >>= rest).run.Keeps own next failed := by
  change (ExceptT.lift process >>= rest).run.Keeps own next failed
  rw [ExceptT.run_bind_lift]
  exact start.bind each

end Process

/-! ## What an activation may record -/

namespace Weaver

open Process (Keeps)

/-- The events by which advice tells that it runs at a site, and that it returns a value there, are of a
kind. It may return one only if it declares a type for it. -/
structure Allows (weaver : Weaver) (own : Event → Prop) (site : Site) (id : PointcutId) : Prop where
  runs : ∀ pointcut, weaver.registry.pointcut? id = some pointcut →
    own (.advice pointcut.id pointcut.advice site)
  returns : ∀ pointcut, weaver.registry.pointcut? id = some pointcut → pointcut.returns.isSome = true →
    own (.shortCircuit pointcut.id site)

/-- The events by which a member tells that its arguments are masked, and those of the advice that is planned
at its sites, are of a kind. -/
structure Permits (weaver : Weaver) (own : Event → Prop) (member : MemberId) : Prop where
  masked : ∀ name, own (.masked member name)
  advice : ∀ site, site.member = member → ∀ id ∈ (weaver.registry.plan site).all, weaver.Allows own site id

variable {weaver : Weaver} {member : MemberId} {own : Event → Prop} {failed : Bool}

theorem permits_inside (weaver : Weaver) (member : MemberId) :
    weaver.Permits (Event.Inside member) member where
  masked _ := rfl
  advice _ inside _ _ := ⟨fun _ _ => inside, fun _ _ _ => inside⟩

theorem Permits.before (permits : weaver.Permits own member) {site : Site} (inside : site.member = member) :
    ∀ id ∈ (weaver.registry.plan site).before, weaver.Allows own site id :=
  fun id planned => permits.advice site inside id (List.mem_append_left _ planned)

theorem Permits.after (permits : weaver.Permits own member) {site : Site} (inside : site.member = member) :
    ∀ id ∈ (weaver.registry.plan site).after, weaver.Allows own site id :=
  fun id planned => permits.advice site inside id (List.mem_append_right _ planned)

/-! ## Faults are heeded -/

/-- No call has failed, as far as prompt bodies are concerned. -/
def Clear (weaver : Weaver) (failed : Bool) : Prop := weaver.Prompt → failed = false

/-- A result that is not a fault means that no call has failed. -/
def Heeds (weaver : Weaver) (failed : Bool) : Except Fault α → Prop
  | .ok _ => weaver.Clear failed
  | .error _ => True

/-- The same of the end of code that may not come to join points. -/
def HeedsEnding (weaver : Weaver) (failed : Bool) : Ending → Prop
  | .ok _ | .error (.give _) => weaver.Clear failed
  | .error (.fault _) => True

/-- The same of the end of a body. A fault counts only if no value has been returned in its place. -/
def HeedsVisits (weaver : Weaver) (failed : Bool) (ended : Ending × Visits) : Prop :=
  weaver.Clear failed ∨ ended.2.returned = none ∧ ∃ fault, ended.1 = .error (.fault fault)

/-- The same of the outcome of an arrival at a join point, if nothing has been returned before. -/
def HeedsArrival (weaver : Weaver) (failed : Bool) (reached : Except Interrupt Unit × Visits) : Prop :=
  match reached.1 with
  | .ok _ => weaver.Clear failed ∧ (weaver.Prompt → reached.2.returned = none)
  | .error (.give _) => weaver.Clear failed
  | .error (.fault _) => weaver.Prompt → reached.2.returned = none

def HeedsVerdict (weaver : Weaver) (failed : Bool) : Verdict → Prop
  | .completed _ | .returned _ => weaver.Clear failed
  | .failed _ _ => True

/-- The same of a conclusion, in which a fault is dropped only in favour of another, and only if the
settings say so. -/
structure HeedsConclusion (weaver : Weaver) (failed : Bool) (conclusion : Conclusion) : Prop where
  result : weaver.Heeds failed conclusion.result
  dropped : ∀ fault, conclusion.dropped = some fault →
    weaver.settings.afterOnFault = true ∧ ∃ other, conclusion.result = .error other

theorem Clear.of_not_prompt (careless : ¬ weaver.Prompt) : weaver.Clear failed := fun prompt =>
  absurd prompt careless

/-- The code of a body, wherever its join points are watched over. -/
theorem ofAction_keeps {caller : Caller}
    {join : String → List Value → Passage (Except Interrupt Unit)}
    (joins : ∀ name args visits failed, weaver.Clear failed → (weaver.Prompt → visits.returned = none) →
      ((join name args).run visits).Keeps own weaver.HeedsArrival failed)
    {action : Action Ending} (prompt : weaver.Prompt → action.Prompt) {visits : Visits}
    (clear : weaver.Clear failed) (going : weaver.Prompt → visits.returned = none) :
    ((Process.ofAction caller join action).run visits).Keeps own weaver.HeedsVisits failed := by
  induction action generalizing visits failed with
  | done result => exact Or.inl clear
  | emit line next ih => exact ih prompt clear going
  | relation next ih => exact fun relation => ih relation (fun every => prompt every relation) clear going
  | call request next ih =>
    refine ⟨fun value => ih _ (fun every => (prompt every).1 value) clear going, fun fault => ?_⟩
    by_cases every : weaver.Prompt
    · dsimp only
      rw [(prompt every).2 fault]
      exact Or.inr ⟨going every, fault, rfl⟩
    · exact ih _ (fun holds => absurd holds every) (.of_not_prompt every) fun holds => absurd holds every
  | join name args next ih =>
    refine (joins name args visits failed clear going).bind fun failed reached heeds => ?_
    obtain ⟨result, visits⟩ := reached
    by_cases every : weaver.Prompt
    · match result with
      | .ok () => exact ih _ (fun every => (prompt every).1) heeds.1 heeds.2
      | .error interrupt =>
        dsimp only
        rw [(prompt every).2 interrupt]
        cases interrupt with
        | give value => exact Or.inl heeds
        | fault fault => exact Or.inr ⟨heeds every, fault, rfl⟩
    · exact ih _ (fun holds => absurd holds every) (.of_not_prompt every) fun holds => absurd holds every
  | allocate type next ih => exact fun object => ih object (fun every => prompt every object) clear going
  | poll next ih => exact fun cancelled => ih cancelled (fun every => prompt every cancelled) clear going
  | cancel next ih => exact ih (fun every => (prompt every).elim) clear going

theorem refuse_keeps {context : Context} {name : String} {args : List Value}
    {visits : Visits} (going : weaver.Prompt → visits.returned = none) :
    ((Process.refuse context name args).run visits).Keeps own weaver.HeedsArrival failed :=
  going

theorem ofPlain_keeps {caller : Caller} {context : Context} {action : Action Ending}
    (prompt : weaver.Prompt → action.Prompt) (clear : weaver.Clear failed) :
    (Process.ofPlain caller context action).Keeps own weaver.HeedsEnding failed := by
  refine Keeps.bind (ofAction_keeps (fun _ _ _ _ _ going => refuse_keeps going) prompt clear fun _ => rfl) ?_
  rintro failed ⟨ending, visits⟩ (clear | ⟨-, fault, rfl⟩)
  · match ending with
    | .ok flow => exact clear
    | .error (.give value) => exact clear
    | .error (.fault fault) => trivial
  · trivial

/-! ## Advice -/

theorem adviceReturnProcess_keeps {pointcut : PointcutEntry} {site : Site} {ending : Ending}
    (returns : pointcut.returns.isSome = true → own (.shortCircuit pointcut.id site))
    (heeds : weaver.HeedsEnding failed ending) :
    (adviceReturnProcess pointcut site ending).run.Keeps own weaver.Heeds failed := by
  have gives (clear : weaver.Clear failed) (value : Value) :
      (adviceReturnProcess pointcut site (.ok (.give value))).run.Keeps own weaver.Heeds failed := by
    unfold adviceReturnProcess
    dsimp only
    by_cases untyped : pointcut.returns.isNone
    · rw [if_pos untyped]
      trivial
    · rw [if_neg untyped]
      exact ⟨returns (by simpa [Option.isSome_iff_ne_none] using untyped), clear⟩
  match ending with
  | .ok .next => exact heeds
  | .ok (.give value) => exact gives heeds value
  | .error (.give value) => exact gives heeds value
  | .error (.fault fault) => trivial

theorem adviceProcess_keeps {point : JoinPoint} {result : Option Value} {id : PointcutId}
    (allows : weaver.Allows own point.site id) (clear : weaver.Clear failed) :
    (weaver.adviceProcess point result id).run.Keeps own weaver.Heeds failed := by
  unfold adviceProcess
  cases known : weaver.registry.pointcut? id with
  | none =>
    intro cancelled
    cases cancelled with
    | true => trivial
    | false => exact clear
  | some pointcut =>
    intro cancelled
    cases cancelled with
    | true => trivial
    | false =>
      refine ⟨allows.runs pointcut known, ?_⟩
      refine Keeps.lift (ofPlain_keeps (fun every => every _ _) clear) fun failed ending heeds => ?_
      exact adviceReturnProcess_keeps (allows.returns pointcut known) heeds

theorem adviceListProcess_keeps {point : JoinPoint} {result : Option Value} {ids : List PointcutId}
    (allowed : ∀ id ∈ ids, weaver.Allows own point.site id) (clear : weaver.Clear failed) :
    (weaver.adviceListProcess point result ids).run.Keeps own weaver.Heeds failed := by
  induction ids generalizing failed with
  | nil => exact clear
  | cons id ids ih =>
    obtain ⟨first, others⟩ := List.forall_mem_cons.mp allowed
    refine (adviceProcess_keeps first clear).attempt (fun failed returned clear => ?_) fun _ _ => trivial
    cases returned with
    | none => exact ih others clear
    | some value => exact clear

theorem beforeProcess_keeps (permits : weaver.Permits own member) {point : JoinPoint}
    (inside : point.site.member = member) (clear : weaver.Clear failed) :
    (weaver.beforeProcess point).run.Keeps own weaver.Heeds failed :=
  adviceListProcess_keeps (permits.before inside) clear

theorem afterProcess_keeps (permits : weaver.Permits own member) {point : JoinPoint}
    (inside : point.site.member = member) (result : Value) (clear : weaver.Clear failed) :
    (weaver.afterProcess point result).run.Keeps own weaver.Heeds failed :=
  adviceListProcess_keeps (permits.after inside) clear

/-! ## Activations -/

theorem arrivalProcess_keeps {context : Context} (permits : weaver.Permits own context.member) (name : String)
    (args : List Value) {visits : Visits} (clear : weaver.Clear failed)
    (going : weaver.Prompt → visits.returned = none) :
    ((weaver.arrivalProcess context name args).run visits).Keeps own weaver.HeedsArrival failed := by
  unfold arrivalProcess
  cases context.point? name with
  | none => exact refuse_keeps going
  | some index =>
    have before (point : JoinPoint) (inside : point.site.member = context.member) :
        (weaver.beforeProcess point).run.Keeps own weaver.Heeds failed :=
      beforeProcess_keeps permits inside clear
    refine (before ⟨.point context.member index, context.this, args⟩ rfl).bind fun failed reached heeds => ?_
    match reached with
    | .ok none => exact ⟨heeds, going⟩
    | .ok (some value) => exact heeds
    | .error fault => exact going

section Activation

variable {activation : Activation} (permits : weaver.Permits own activation.member.id)
include permits

theorem settlingProcess_keeps {value : Value} {arrivals : List Arrival} (clear : weaver.Clear failed) :
    (weaver.settlingProcess activation value arrivals).Keeps own weaver.HeedsVerdict failed := by
  induction arrivals generalizing failed with
  | nil => exact clear
  | cons arrival arrivals ih =>
    have after : (weaver.afterProcess (activation.point arrival) value).run.Keeps own weaver.Heeds failed :=
      afterProcess_keeps permits rfl value clear
    refine after.bind fun failed ending heeds => ?_
    match ending with
    | .ok none => exact ih heeds
    | .ok (some value) => exact heeds
    | .error fault => trivial

theorem judgingProcess_keeps {ended : Ending × Visits} (heeds : weaver.HeedsVisits failed ended) :
    (weaver.judgingProcess activation ended.1 ended.2).Keeps own weaver.HeedsVerdict failed := by
  obtain ⟨ending, visits⟩ := ended
  unfold judgingProcess
  rcases heeds with clear | ⟨going, fault, stopped⟩
  · dsimp only
    cases visits.returned with
    | some value => exact clear
    | none =>
      cases ending.result with
      | ok value => exact settlingProcess_keeps permits clear
      | error fault => trivial
  · dsimp only at going stopped ⊢
    rw [going, stopped]
    trivial

theorem bodyProcess_keeps (clear : weaver.Clear failed) :
    (weaver.bodyProcess activation).Keeps own weaver.HeedsVerdict failed := by
  let context : Context :=
    ⟨weaver.registry, .member, activation.member.id, activation.this, activation.args, none⟩
  have joins (name : String) (args : List Value) (visits : Visits) (failed : Bool)
      (clear : weaver.Clear failed) (going : weaver.Prompt → visits.returned = none) :
      ((weaver.arrivalProcess context name args).run visits).Keeps own weaver.HeedsArrival failed :=
    arrivalProcess_keeps permits name args clear going
  exact Keeps.bind (ofAction_keeps joins (fun every => every _ _) clear fun _ => rfl) fun _ _ heeds =>
    judgingProcess_keeps permits heeds

theorem insideProcess_keeps (clear : weaver.Clear failed) :
    (weaver.insideProcess activation).Keeps own weaver.HeedsVerdict failed := by
  have before : (weaver.beforeProcess activation.entry).run.Keeps own weaver.Heeds failed :=
    beforeProcess_keeps permits rfl clear
  refine before.bind fun failed ending heeds => ?_
  match ending with
  | .ok none => exact bodyProcess_keeps permits heeds
  | .ok (some value) => exact heeds
  | .error fault => trivial

theorem exitProcess_keeps {value : Value} (clear : weaver.Clear failed) :
    (weaver.exitProcess activation value).run.Keeps own weaver.Heeds failed := by
  have after : (weaver.afterProcess activation.exit value).run.Keeps own weaver.Heeds failed :=
    afterProcess_keeps permits rfl value clear
  exact after.attempt (fun _ _ clear => clear) fun _ _ => trivial

/-- Calls have failed here already, and what happens now changes nothing in the fault. -/
theorem observingProcess_keeps (failed : Bool) :
    (weaver.observingProcess activation).Keeps own (fun _ _ => True) failed := by
  have clear : weaver.Clear false := fun _ => rfl
  have after : (weaver.afterProcess activation.exit .null).run.Keeps own weaver.Heeds false :=
    afterProcess_keeps permits rfl .null clear
  refine (after.regardless failed).bind fun _ ending _ => ?_
  cases ending <;> trivial

theorem conclusionProcess_keeps {verdict : Verdict} (heeds : weaver.HeedsVerdict failed verdict) :
    (weaver.conclusionProcess activation verdict).Keeps own weaver.HeedsConclusion failed := by
  have exits (clear : weaver.Clear failed) (value : Value) :
      (do pure ⟨← (weaver.exitProcess activation value).run, none⟩ : Process Conclusion).Keeps own
        weaver.HeedsConclusion failed :=
    (exitProcess_keeps permits clear).bind fun _ _ heeds => ⟨heeds, fun _ none => nomatch none⟩
  unfold conclusionProcess
  cases verdict with
  | completed value => exact exits heeds value
  | returned value =>
    dsimp only
    split
    · exact exits heeds value
    · exact ⟨heeds, fun _ none => nomatch none⟩
  | failed fault ofBody =>
    dsimp only
    split
    · rename_i observes
      have follows := (Bool.and_eq_true_iff.mp observes).2
      exact (observingProcess_keeps permits failed).bind fun _ _ _ =>
        ⟨trivial, fun _ _ => ⟨follows, fault, rfl⟩⟩
    · exact ⟨trivial, fun _ none => nomatch none⟩

theorem activationProcess_keeps (clear : weaver.Clear failed) :
    (weaver.activationProcess activation).Keeps own weaver.HeedsConclusion failed :=
  (insideProcess_keeps permits clear).bind fun _ _ heeds => conclusionProcess_keeps permits heeds

end Activation

/-! ## Parameters -/

theorem defaultProcess_keeps {this : Option ObjectRef} {bound : List Value} {default : Default}
    (clear : weaver.Clear failed) :
    (weaver.defaultProcess member this bound default).run.Keeps own weaver.Heeds failed := by
  cases default with
  | const value => exact clear
  | computed body =>
    refine Keeps.lift (ofPlain_keeps (fun every => every _ _) clear) fun failed ending heeds => ?_
    match ending with
    | .ok flow => exact heeds
    | .error (.give value) => exact heeds
    | .error (.fault fault) => trivial

theorem paramProcess_keeps (permits : weaver.Permits own member) {this : Option ObjectRef} {bound : List Value}
    {param : Param} {binding : Binding} (clear : weaver.Clear failed) :
    (weaver.paramProcess member this bound param binding).run.Keeps own weaver.Heeds failed := by
  cases binding with
  | supplied value => exact clear
  | masked default => exact ⟨permits.masked param.name, defaultProcess_keeps clear⟩
  | omitted default => exact defaultProcess_keeps clear

theorem paramsProcess_keeps (permits : weaver.Permits own member) {this : Option ObjectRef} {bound : List Value}
    {params : List (Param × Binding)} (clear : weaver.Clear failed) :
    (weaver.paramsProcess member this bound params).run.Keeps own weaver.Heeds failed := by
  induction params generalizing bound failed with
  | nil => exact clear
  | cons first rest ih =>
    exact (paramProcess_keeps permits clear).attempt (fun _ _ clear => ih clear) fun _ _ => trivial

/-- **The conduct of an activation.** Inside the activation of a member nothing is recorded but masked
arguments and advice at its own sites; and where bodies are prompt, no fault of a call is lost. -/
theorem enteredProcess_keeps {member : MemberEntry} (permits : weaver.Permits own member.id) {call : Call}
    {selection : Selection} (clear : weaver.Clear failed) :
    (weaver.enteredProcess member call selection).Keeps own weaver.HeedsConclusion failed := by
  refine (paramsProcess_keeps permits clear).bind fun failed ending heeds => ?_
  cases ending with
  | ok args =>
    have activated (activation : Activation) (same : activation.member = member) :
        (weaver.activationProcess activation).Keeps own weaver.HeedsConclusion failed :=
      activationProcess_keeps (same ▸ permits) heeds
    exact activated ⟨member, _, _, args⟩ rfl
  | error fault => exact ⟨trivial, fun _ none => nomatch none⟩

end Weaver

end Weaving
