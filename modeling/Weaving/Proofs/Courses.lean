import Weaving.Proofs.Watching

/-!
Courses that keep to order and policy. The course of an activation obeys if its advice runs along the plans
of its sites and is cut short only by advice that returns or faults, if the body runs just when nothing at
the entry stops it, and if what has happened up to the exit decides whether the advice there is started and
what the result is (`Course.Obeys`). The accounts of runs from which this follows are built up here step by
step: advice along a plan (`Ran`), the arrivals of a body (`Arrived`), the advice behind them (`Settled`).
-/

namespace Weaving

/-! ## Courses -/

/-- The advice came to its end and left its join point to go on. -/
def AdviceStep.FellThrough (step : AdviceStep) : Prop := step.ending = .ok none

/-- All advice on this side of the join point fell through. -/
def PointRun.FellThrough (run : PointRun) : Prop := ∀ step ∈ run.steps, step.FellThrough

/-- Advice runs along a plan and is cut short only after a step that returns or faults. -/
structure Follows (plan : List PointcutId) (steps : List AdviceStep) : Prop where
  along : steps.map (·.pointcut) <+: plan
  onward : ∀ step ∈ steps.dropLast, step.FellThrough
  cut : steps.map (·.pointcut) ≠ plan → ∃ last, steps.getLast? = some last ∧ ¬ last.FellThrough

/-- A value goes through some advice, the last step of which may replace it. -/
structure Replaces (steps : List AdviceStep) (value : Value) (outcome : Except Fault Value) : Prop where
  returned : ∀ step ∈ steps, ∀ other, step.ending = .ok (some other) → outcome = .ok other
  faulted : ∀ step ∈ steps, ∀ fault, step.ending = .error fault → outcome = .error fault
  kept : (∀ step ∈ steps, step.FellThrough) → outcome = .ok value

theorem Replaces.nil (value : Value) : Replaces [] value (.ok value) :=
  ⟨by simp, by simp, fun _ => rfl⟩

/-- Some of this advice ended so. -/
def Ended (steps : List AdviceStep) (ending : Except Fault (Option Value)) : Prop :=
  ∃ step ∈ steps, step.ending = ending

namespace BodyRun

/-- The advice at the explicit join points of a body. -/
def steps (body : BodyRun) : List AdviceStep := (body.visits ++ body.behind).flatMap (·.steps)

/-- The body came to its end with a value, and so did all advice behind the join points that it passed. -/
def Completed (body : BodyRun) (value : Value) : Prop :=
  body.ending.result = .ok value ∧ body.behind.map (·.arrival) = body.visits.map (·.arrival) ∧
    ∀ step ∈ body.steps, step.FellThrough

/-- The body ended in a fault that is not one of the advice before its explicit join points. -/
def Faulted (body : BodyRun) (fault : Fault) : Prop :=
  body.ending.result = .error fault ∧ ¬ Ended (body.visits.flatMap (·.steps)) (.error fault)

end BodyRun

namespace Course

/-- The advice before the exit. -/
def inner (course : Course) : List AdviceStep :=
  course.entry ++ (course.body.map BodyRun.steps).getD []

def Completed (course : Course) (value : Value) : Prop :=
  ∃ body, course.body = some body ∧ body.Completed value

/-- Advice at the entry or at an explicit join point returned a value. -/
def Returned (course : Course) (value : Value) : Prop := Ended course.inner (.ok (some value))

def BodyFaulted (course : Course) (fault : Fault) : Prop :=
  ∃ body, course.body = some body ∧ body.Faulted fault

/-- Advice at the entry or at an explicit join point ended in a fault. -/
def AdviceFaulted (course : Course) (fault : Fault) : Prop := Ended course.inner (.error fault)

/-- The course of an activation keeps to the plans and to the settings. -/
structure Obeys (weaver : Weaver) (activation : Activation) (course : Course)
    (outcome : Except Fault Value) : Prop where
  entry : Follows (weaver.registry.plan (.entry activation.member.id)).before course.entry
  /-- The body runs just if all advice at the entry falls through. -/
  body : course.body.isSome = true ↔ ∀ step ∈ course.entry, step.FellThrough
  visits : ∀ body, course.body = some body → ∀ visit ∈ body.visits,
    Follows (weaver.registry.plan (.point activation.member.id visit.arrival.index)).before visit.steps
  /-- A body that is stopped at a join point comes to no other one. -/
  onward : ∀ body, course.body = some body → ∀ visit ∈ body.visits.tail, visit.FellThrough
  /-- The advice behind join points waits until the body has come to an end with a value, unstopped. -/
  waits : ∀ body, course.body = some body → body.behind ≠ [] →
    (∃ value, body.ending.result = .ok value) ∧ ∀ visit ∈ body.visits, visit.FellThrough
  /-- The join points that were passed have their turns in reverse. -/
  pending : ∀ body, course.body = some body →
    body.behind.map (·.arrival) <+: body.visits.map (·.arrival)
  behind : ∀ body, course.body = some body → ∀ run ∈ body.behind,
    Follows (weaver.registry.plan (.point activation.member.id run.arrival.index)).after run.steps
  exit : ∀ steps, course.exit = some steps →
    Follows (weaver.registry.plan (.exit activation.member.id)).after steps
  /-- The advice at the exit is started if all went well, and otherwise as the settings say. -/
  exitStarted : course.exit.isSome = true ↔
    (∃ value, course.Completed value) ∨
    (∃ value, course.Returned value) ∧ weaver.settings.afterOnShortCircuit = true ∨
    (∃ fault, course.BodyFaulted fault) ∧ weaver.settings.afterOnFault = true
  /-- There are no other ways to come to the exit, and no two of them come together. -/
  ended : ∃ verdict : Verdict,
    (∀ value, verdict = .completed value ↔ course.Completed value) ∧
    (∀ value, verdict = .returned value ↔ course.Returned value) ∧
    (∀ fault, verdict = .failed fault true ↔ course.BodyFaulted fault) ∧
    ∀ fault, verdict = .failed fault false ↔ course.AdviceFaulted fault
  value : ∀ value, course.Completed value ∨ course.Returned value →
    Replaces (course.exit.getD []) value outcome
  fault : ∀ fault, course.BodyFaulted fault ∨ course.AdviceFaulted fault → outcome = .error fault

end Course

@[simp]
theorem ended_append {first second : List AdviceStep} {ending : Except Fault (Option Value)} :
    Ended (first ++ second) ending ↔ Ended first ending ∨ Ended second ending := by
  simp only [Ended, List.mem_append, or_and_right, exists_or]

@[simp]
theorem not_ended_nil {ending : Except Fault (Option Value)} : ¬ Ended [] ending := by simp [Ended]

theorem not_ended_of_fellThrough {steps : List AdviceStep} {ending : Except Fault (Option Value)}
    (all : ∀ step ∈ steps, step.FellThrough) (stops : ending ≠ .ok none) : ¬ Ended steps ending := by
  rintro ⟨step, held, rfl⟩
  exact stops (all step held)

/-! ## Advice in order -/

/-- Advice that ran along a plan, with the ending of it all. -/
inductive Ran : List PointcutId → List AdviceStep → Except Fault (Option Value) → Prop
  | nothing : Ran [] [] (.ok none)
  | passed {id : PointcutId} {ids : List PointcutId} {steps : List AdviceStep}
      {ending : Except Fault (Option Value)} (rest : Ran ids steps ending) :
      Ran (id :: ids) (⟨id, .ok none⟩ :: steps) ending
  | stopped {id : PointcutId} {ids : List PointcutId} {ending : Except Fault (Option Value)}
      (stops : ending ≠ .ok none) : Ran (id :: ids) [⟨id, ending⟩] ending

namespace Ran

variable {plan : List PointcutId} {steps : List AdviceStep} {ending : Except Fault (Option Value)}

theorem follows (ran : Ran plan steps ending) : Follows plan steps := by
  induction ran with
  | nothing => exact ⟨List.prefix_rfl, by simp, fun differs => absurd rfl differs⟩
  | @passed id ids steps ending rest ih =>
    refine ⟨List.cons_prefix_cons.mpr ⟨rfl, ih.along⟩, ?_, ?_⟩
    · cases steps with
      | nil => simp
      | cons step steps =>
        rintro first (held : first ∈ _ :: (step :: steps).dropLast)
        rcases List.mem_cons.mp held with rfl | held
        · rfl
        · exact ih.onward first held
    · intro differs
      obtain ⟨last, isLast, stops⟩ := ih.cut fun same => differs (congrArg (id :: ·) same)
      exact ⟨last, by rw [List.getLast?_cons, isLast]; rfl, stops⟩
  | stopped stops => exact ⟨by simp, by simp, fun _ => ⟨_, rfl, stops⟩⟩

/-- Every step falls through but for the one that the advice ends with. -/
theorem fellThrough_or (ran : Ran plan steps ending) :
    ∀ step ∈ steps, step.FellThrough ∨ step.ending = ending := by
  induction ran with
  | nothing => simp
  | passed rest ih =>
    rintro step held
    rcases List.mem_cons.mp held with rfl | held
    · exact Or.inl rfl
    · exact ih step held
  | stopped stops => simp

theorem ended_of_stopped (ran : Ran plan steps ending) (stops : ending ≠ .ok none) :
    Ended steps ending := by
  induction ran with
  | nothing => exact absurd rfl stops
  | passed rest ih =>
    obtain ⟨step, held, same⟩ := ih stops
    exact ⟨step, List.mem_cons_of_mem _ held, same⟩
  | stopped => exact ⟨_, List.mem_cons_self, rfl⟩

theorem fellThrough_iff (ran : Ran plan steps ending) :
    (∀ step ∈ steps, step.FellThrough) ↔ ending = .ok none := by
  constructor
  · intro all
    by_cases falls : ending = .ok none
    · exact falls
    · obtain ⟨step, held, same⟩ := ran.ended_of_stopped falls
      exact same.symm.trans (all step held)
  · rintro rfl step held
    exact (ran.fellThrough_or step held).elim id id

/-- A step stops the advice just if all of it ends so. -/
theorem ended_iff (ran : Ran plan steps ending) {stop : Except Fault (Option Value)}
    (stops : stop ≠ .ok none) : Ended steps stop ↔ ending = stop := by
  constructor
  · rintro ⟨step, held, rfl⟩
    exact ((ran.fellThrough_or step held).resolve_left stops).symm
  · rintro rfl
    exact ran.ended_of_stopped stops

/-- What the advice ends with replaces the value, if it is one. -/
theorem replaces (ran : Ran plan steps ending) (value : Value) :
    Replaces steps value (ending.map (·.getD value)) where
  returned step held other returns := by
    rw [(ran.ended_iff (by simp)).mp ⟨step, held, returns⟩]
    rfl
  faulted step held fault faults := by
    rw [(ran.ended_iff (by simp)).mp ⟨step, held, faults⟩]
    rfl
  kept all := by
    rw [ran.fellThrough_iff.mp all]
    rfl

end Ran

/-! ## Explicit join points -/

/-- All advice before these arrivals fell through, and nothing else has come of them. -/
structure Passed (plan : Nat → Plan) (account : List PointRun) (visits : Visits) : Prop where
  arrivals : visits.arrivals = account.map (·.arrival)
  returned : visits.returned = none
  fault : visits.fault = none
  before : ∀ run ∈ account, Ran (plan run.arrival.index).before run.steps (.ok none)

/-- The arrivals of a body that has come to its end. Advice before the last one may have stopped it. -/
inductive Arrived (plan : Nat → Plan) : List PointRun → Ending → Visits → Prop
  | finished {account : List PointRun} {visits : Visits} (passed : Passed plan account visits)
      (ending : Ending) : Arrived plan account ending visits
  | returned {account : List PointRun} {visits : Visits} (passed : Passed plan account visits)
      {arrival : Arrival} {steps : List AdviceStep} {value : Value}
      (before : Ran (plan arrival.index).before steps (.ok (some value))) :
      Arrived plan (⟨arrival, steps⟩ :: account) (.error (.give value))
        { visits with returned := some value }
  | faulted {account : List PointRun} {visits : Visits} (passed : Passed plan account visits)
      {arrival : Arrival} {steps : List AdviceStep} {fault : Fault}
      (before : Ran (plan arrival.index).before steps (.error fault)) :
      Arrived plan (⟨arrival, steps⟩ :: account) (.error (.fault fault))
        { visits with fault := some fault }

/-- The advice behind the arrivals of a body that ended with a value. -/
inductive Settled (plan : Nat → Plan) (value : Value) : List Arrival → List PointRun → Verdict → Prop
  | nothing : Settled plan value [] [] (.completed value)
  | passed {arrival : Arrival} {arrivals : List Arrival} {steps : List AdviceStep}
      {behind : List PointRun} {verdict : Verdict}
      (after : Ran (plan arrival.index).after steps (.ok none))
      (rest : Settled plan value arrivals behind verdict) :
      Settled plan value (arrival :: arrivals) (⟨arrival, steps⟩ :: behind) verdict
  | returned {arrival : Arrival} {arrivals : List Arrival} {steps : List AdviceStep} {other : Value}
      (after : Ran (plan arrival.index).after steps (.ok (some other))) :
      Settled plan value (arrival :: arrivals) [⟨arrival, steps⟩] (.returned other)
  | faulted {arrival : Arrival} {arrivals : List Arrival} {steps : List AdviceStep} {fault : Fault}
      (after : Ran (plan arrival.index).after steps (.error fault)) :
      Settled plan value (arrival :: arrivals) [⟨arrival, steps⟩] (.failed fault false)

namespace Settled

variable {plan : Nat → Plan} {value : Value} {arrivals : List Arrival} {behind : List PointRun}
  {verdict : Verdict}

theorem follows (settled : Settled plan value arrivals behind verdict) :
    ∀ run ∈ behind, Follows (plan run.arrival.index).after run.steps := by
  induction settled with
  | nothing => simp
  | passed after _ ih => exact List.forall_mem_cons.mpr ⟨after.follows, ih⟩
  | returned after => exact List.forall_mem_singleton.mpr after.follows
  | faulted after => exact List.forall_mem_singleton.mpr after.follows

theorem along (settled : Settled plan value arrivals behind verdict) :
    behind.map (·.arrival) <+: arrivals := by
  induction settled with
  | nothing => exact List.prefix_rfl
  | passed _ _ ih => exact List.cons_prefix_cons.mpr ⟨rfl, ih⟩
  | returned | faulted => simp

theorem completed_iff (settled : Settled plan value arrivals behind verdict) {other : Value} :
    verdict = .completed other ↔ value = other ∧ behind.map (·.arrival) = arrivals ∧
      ∀ step ∈ behind.flatMap (·.steps), step.FellThrough := by
  induction settled with
  | nothing => simp
  | passed after _ ih =>
    have all := after.fellThrough_iff.mpr rfl
    rw [ih]
    simp only [List.map_cons, List.cons.injEq, true_and, List.flatMap_cons, List.mem_append, or_imp,
      forall_and]
    exact ⟨fun ⟨same, whole, rest⟩ => ⟨same, whole, all, rest⟩,
      fun ⟨same, whole, _, rest⟩ => ⟨same, whole, rest⟩⟩
  | returned after =>
    simp [after.fellThrough_iff]
  | faulted after =>
    simp [after.fellThrough_iff]

theorem returned_iff (settled : Settled plan value arrivals behind verdict) {other : Value} :
    verdict = .returned other ↔ Ended (behind.flatMap (·.steps)) (.ok (some other)) := by
  induction settled with
  | nothing => simp
  | passed after _ ih => simp [ih, after.ended_iff]
  | returned after => simp [after.ended_iff]
  | faulted after => simp [after.ended_iff]

theorem faulted_iff (settled : Settled plan value arrivals behind verdict) {fault : Fault} {ofBody : Bool} :
    verdict = .failed fault ofBody ↔
      Ended (behind.flatMap (·.steps)) (.error fault) ∧ ofBody = false := by
  induction settled with
  | nothing => simp
  | passed after _ ih => simp [ih, after.ended_iff]
  | returned after => simp [after.ended_iff]
  | faulted after => simp [after.ended_iff, eq_comm]

end Settled

/-- A verdict says what has become of a body and the advice at its explicit join points. -/
structure BodyRun.Judged (plan : Nat → Plan) (body : BodyRun) (verdict : Verdict) : Prop where
  before : ∀ visit ∈ body.visits, Follows (plan visit.arrival.index).before visit.steps
  onward : ∀ visit ∈ body.visits.tail, visit.FellThrough
  waits : body.behind ≠ [] →
    (∃ value, body.ending.result = .ok value) ∧ ∀ visit ∈ body.visits, visit.FellThrough
  along : body.behind.map (·.arrival) <+: body.visits.map (·.arrival)
  after : ∀ run ∈ body.behind, Follows (plan run.arrival.index).after run.steps
  completed : ∀ value, verdict = .completed value ↔ body.Completed value
  returned : ∀ value, verdict = .returned value ↔ Ended body.steps (.ok (some value))
  faulted : ∀ fault, verdict = .failed fault true ↔ body.Faulted fault
  adviceFaulted : ∀ fault, verdict = .failed fault false ↔ Ended body.steps (.error fault)

section Judging

variable {plan : Nat → Plan} {account : List PointRun} {visits : Visits}

theorem Passed.visits_fellThrough (passed : Passed plan account visits) :
    ∀ visit ∈ account, visit.FellThrough :=
  fun visit among => (passed.before visit among).fellThrough_iff.mpr rfl

theorem Passed.fellThrough (passed : Passed plan account visits) :
    ∀ step ∈ account.flatMap (·.steps), step.FellThrough := by
  intro step held
  obtain ⟨visit, among, held⟩ := List.mem_flatMap.mp held
  exact passed.visits_fellThrough visit among step held

theorem Passed.not_ended (passed : Passed plan account visits) {stop : Except Fault (Option Value)}
    (stops : stop ≠ .ok none) : ¬ Ended (account.flatMap (·.steps)) stop :=
  not_ended_of_fellThrough passed.fellThrough stops

theorem Passed.follows (passed : Passed plan account visits) :
    ∀ run ∈ account, Follows (plan run.arrival.index).before run.steps :=
  fun run held => (passed.before run held).follows

/-- Nothing stopped the body, which ended with a value. -/
theorem Passed.judged_of_settled (passed : Passed plan account visits) {ending : Ending} {value : Value}
    {behind : List PointRun} {verdict : Verdict} (ends : ending.result = .ok value)
    (settled : Settled plan value visits.arrivals behind verdict) :
    BodyRun.Judged plan ⟨account, ending, behind⟩ verdict := by
  rw [passed.arrivals] at settled
  have all := passed.fellThrough
  refine ⟨passed.follows, fun visit held => passed.visits_fellThrough visit (List.mem_of_mem_tail held),
    fun _ => ⟨⟨value, ends⟩, passed.visits_fellThrough⟩, settled.along, settled.follows,
    fun other => ?_, fun other => ?_, fun fault => ?_, fun fault => ?_⟩
  · rw [settled.completed_iff]
    simp only [BodyRun.Completed, BodyRun.steps, ends, List.flatMap_append, List.mem_append,
      Except.ok.injEq]
    exact ⟨fun ⟨same, whole, rest⟩ => ⟨same, whole, fun step held => held.elim (all step) (rest step)⟩,
      fun ⟨same, whole, rest⟩ => ⟨same, whole, fun step held => rest step (Or.inr held)⟩⟩
  · simp [settled.returned_iff, BodyRun.steps, passed.not_ended]
  · simp [settled.faulted_iff, BodyRun.Faulted, ends]
  · simp [settled.faulted_iff, BodyRun.steps, passed.not_ended]

/-- Nothing stopped the body, but it ended in a fault of its own. -/
theorem Passed.judged_of_fault (passed : Passed plan account visits) {ending : Ending} {fault : Fault}
    (ends : ending.result = .error fault) :
    BodyRun.Judged plan ⟨account, ending, []⟩ (.failed fault true) := by
  refine ⟨passed.follows, fun visit held => passed.visits_fellThrough visit (List.mem_of_mem_tail held),
    by simp, List.nil_prefix, by simp, fun other => ?_, fun other => ?_, fun fault => ?_,
    fun fault => ?_⟩
  · simp [BodyRun.Completed, ends]
  · simp [BodyRun.steps, passed.not_ended]
  · simp [BodyRun.Faulted, ends, passed.not_ended]
  · simp [BodyRun.steps, passed.not_ended]

variable {arrival : Arrival} {steps : List AdviceStep}

theorem Passed.follows_cons (passed : Passed plan account visits)
    {ending : Except Fault (Option Value)} (before : Ran (plan arrival.index).before steps ending) :
    ∀ run ∈ (⟨arrival, steps⟩ :: account : List PointRun),
      Follows (plan run.arrival.index).before run.steps :=
  List.forall_mem_cons.mpr ⟨before.follows, passed.follows⟩

theorem Passed.judged_of_returned (passed : Passed plan account visits) {value : Value}
    (before : Ran (plan arrival.index).before steps (.ok (some value))) :
    BodyRun.Judged plan ⟨⟨arrival, steps⟩ :: account, .error (.give value), []⟩ (.returned value) := by
  refine ⟨passed.follows_cons before, passed.visits_fellThrough, by simp, List.nil_prefix, by simp,
    fun other => ?_, fun other => ?_, fun fault => ?_, fun fault => ?_⟩
  · simp [BodyRun.Completed]
  · simp [BodyRun.steps, before.ended_iff, passed.not_ended]
  · simp [BodyRun.Faulted, Ending.result]
  · simp [BodyRun.steps, before.ended_iff, passed.not_ended]

theorem Passed.judged_of_faulted (passed : Passed plan account visits) {fault : Fault}
    (before : Ran (plan arrival.index).before steps (.error fault)) :
    BodyRun.Judged plan ⟨⟨arrival, steps⟩ :: account, .error (.fault fault), []⟩
      (.failed fault false) := by
  refine ⟨passed.follows_cons before, passed.visits_fellThrough, by simp, List.nil_prefix, by simp,
    fun other => ?_, fun other => ?_, fun fault => ?_, fun fault => ?_⟩
  · simp [BodyRun.Completed, Ending.result]
  · simp [BodyRun.steps, before.ended_iff, passed.not_ended]
  · simp [BodyRun.Faulted, Ending.result, before.ended_iff, passed.not_ended]
  · simp [BodyRun.steps, before.ended_iff, passed.not_ended]

end Judging

/-- The advice at the explicit join points of a member. -/
def Weaver.pointPlan (weaver : Weaver) (member : MemberId) (index : Nat) : Plan :=
  weaver.registry.plan (.point member index)

/-- A verdict says what has become of an activation up to its exit. -/
structure Course.Judged (weaver : Weaver) (activation : Activation) (course : Course)
    (verdict : Verdict) : Prop where
  entry : Follows (weaver.registry.plan (.entry activation.member.id)).before course.entry
  body : course.body.isSome = true ↔ ∀ step ∈ course.entry, step.FellThrough
  inside : ∀ body, course.body = some body → body.Judged (weaver.pointPlan activation.member.id) verdict
  completed : ∀ value, verdict = .completed value ↔ course.Completed value
  returned : ∀ value, verdict = .returned value ↔ course.Returned value
  bodyFaulted : ∀ fault, verdict = .failed fault true ↔ course.BodyFaulted fault
  adviceFaulted : ∀ fault, verdict = .failed fault false ↔ course.AdviceFaulted fault

namespace Course

variable {weaver : Weaver} {activation : Activation} {entry : List AdviceStep}

theorem judged_of_body {body : BodyRun} {verdict : Verdict}
    (ran : Ran (weaver.registry.plan (.entry activation.member.id)).before entry (.ok none))
    (judged : body.Judged (weaver.pointPlan activation.member.id) verdict)
    (exit : Option (List AdviceStep)) : Judged weaver activation ⟨entry, some body, exit⟩ verdict := by
  have all := ran.fellThrough_iff.mpr rfl
  have ended {stop : Except Fault (Option Value)} (stops : stop ≠ .ok none) :
      Ended (entry ++ body.steps) stop ↔ Ended body.steps stop := by
    rw [ended_append]
    exact or_iff_right (not_ended_of_fellThrough all stops)
  refine ⟨ran.follows, by simpa using all, ?_, ?_, ?_, ?_, ?_⟩
  · rintro _ ⟨rfl⟩
    exact judged
  · intro value
    simp [judged.completed, Completed]
  · intro value
    rw [judged.returned]
    exact (ended (by simp)).symm
  · intro fault
    simp [judged.faulted, BodyFaulted]
  · intro fault
    rw [judged.adviceFaulted]
    exact (ended (by simp)).symm

/-- Advice at the entry that returns or faults is all that happens. -/
theorem judged_of_stopped {ending : Except Fault (Option Value)} {verdict : Verdict}
    (ran : Ran (weaver.registry.plan (.entry activation.member.id)).before entry ending)
    (stops : ending ≠ .ok none) (returned : ∀ value, verdict = .returned value ↔ ending = .ok (some value))
    (faulted : ∀ fault ofBody, verdict = .failed fault ofBody ↔ ending = .error fault ∧ ofBody = false)
    (exit : Option (List AdviceStep)) : Judged weaver activation ⟨entry, none, exit⟩ verdict := by
  have ended {stop : Except Fault (Option Value)} (stops : stop ≠ .ok none) :
      Ended (entry ++ []) stop ↔ ending = stop := by
    rw [List.append_nil, ran.ended_iff stops]
  refine ⟨ran.follows, by simpa [ran.fellThrough_iff] using stops, by simp, ?_, ?_, ?_, ?_⟩
  · intro value
    have : verdict ≠ .completed value := by
      rintro rfl
      match ending with
      | .ok none => exact stops rfl
      | .ok (some other) => simpa using (returned other).mpr rfl
      | .error fault => simpa using (faulted fault false).mpr ⟨rfl, rfl⟩
    simp [this, Completed]
  · intro value
    rw [returned]
    exact (ended (by simp)).symm
  · intro fault
    simp [faulted, BodyFaulted]
  · intro fault
    rw [faulted, and_iff_left rfl]
    exact (ended (by simp)).symm

end Course

/-- What follows from a verdict: whether the advice at the exit is started, and the outcome. -/
structure Concluded (weaver : Weaver) (activation : Activation) (verdict : Verdict)
    (exit : Option (List AdviceStep)) (outcome : Except Fault Value) : Prop where
  follows : ∀ steps, exit = some steps →
    Follows (weaver.registry.plan (.exit activation.member.id)).after steps
  started : exit.isSome = true ↔
    (∃ value, verdict = .completed value) ∨
    (∃ value, verdict = .returned value) ∧ weaver.settings.afterOnShortCircuit = true ∨
    (∃ fault, verdict = .failed fault true) ∧ weaver.settings.afterOnFault = true
  value : ∀ value, verdict = .completed value ∨ verdict = .returned value →
    Replaces (exit.getD []) value outcome
  fault : ∀ fault ofBody, verdict = .failed fault ofBody → outcome = .error fault

/-- A value that goes through the advice at the exit. -/
theorem Concluded.of_exit {weaver : Weaver} {activation : Activation} {verdict : Verdict} {value : Value}
    {steps : List AdviceStep} {outcome : Except Fault Value}
    (goes : verdict = .completed value ∨
      verdict = .returned value ∧ weaver.settings.afterOnShortCircuit = true)
    (replaces : Replaces steps value outcome)
    (follows : Follows (weaver.registry.plan (.exit activation.member.id)).after steps) :
    Concluded weaver activation verdict (some steps) outcome where
  follows other same := by
    cases same
    exact follows
  started := by rcases goes with rfl | ⟨rfl, set⟩ <;> simp [*]
  value other same := by
    obtain rfl : value = other := by rcases goes with rfl | ⟨rfl, _⟩ <;> simpa using same
    exact replaces
  fault fault ofBody same := by rcases goes with rfl | ⟨rfl, _⟩ <;> cases same

/-- A course obeys if it is concluded by what has become of it. -/
theorem Course.Judged.obeys {weaver : Weaver} {activation : Activation} {course : Course}
    {verdict : Verdict} {outcome : Except Fault Value} (judged : Judged weaver activation course verdict)
    (concluded : Concluded weaver activation verdict course.exit outcome) :
    course.Obeys weaver activation outcome where
  entry := judged.entry
  body := judged.body
  visits body ran := (judged.inside body ran).before
  onward body ran := (judged.inside body ran).onward
  waits body ran := (judged.inside body ran).waits
  pending body ran := (judged.inside body ran).along
  behind body ran := (judged.inside body ran).after
  exit := concluded.follows
  exitStarted := by
    simp only [← judged.completed, ← judged.returned, ← judged.bodyFaulted]
    exact concluded.started
  ended := ⟨verdict, judged.completed, judged.returned, judged.bodyFaulted, judged.adviceFaulted⟩
  value value := by
    simp only [← judged.completed, ← judged.returned]
    exact concluded.value value
  fault fault := by
    simp only [← judged.bodyFaulted, ← judged.adviceFaulted]
    rintro (failed | failed)
    · exact concluded.fault fault true failed
    · exact concluded.fault fault false failed

end Weaving
