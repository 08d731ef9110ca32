import Weaving.Binding
import Weaving.Weaver.Advice

/-!
Activations. The advice at the entry of a member runs first; if it falls through, the body runs, and then
the advice behind the explicit join points that the body passed, the last one first. How that ends
decides whether the advice at the exit runs, and what the result is.
-/

namespace Weaving

/-- A member that is being run, with its arguments bound. -/
structure Activation where
  member : MemberEntry
  body : BodyId
  this : Option ObjectRef
  args : List Value

namespace Activation

def entry (activation : Activation) : JoinPoint :=
  ⟨.entry activation.member.id, activation.this, activation.args⟩

def exit (activation : Activation) : JoinPoint :=
  ⟨.exit activation.member.id, activation.this, activation.args⟩

/-- An explicit join point with the arguments of an arrival. -/
def point (activation : Activation) (arrival : Arrival) : JoinPoint :=
  ⟨.point activation.member.id arrival.index, activation.this, arrival.args⟩

end Activation

/-- How an activation ends before the advice at its exit. -/
inductive Verdict where
  /-- The body and all advice so far came to their ends. -/
  | completed (value : Value)
  /-- Advice returned a value. -/
  | returned (value : Value)
  | failed (fault : Fault) (ofBody : Bool)
  deriving DecidableEq, Repr

namespace Weaver

variable (weaver : Weaver) (calling : Calling)

/-- An arrival at an explicit join point. The advice before it runs at once; the advice behind it waits
until the body has come to its end. -/
def arrive (context : Context) : Activity.Join := fun name args => do
  match context.point? name with
  | none => Activity.refuse context name args
  | some index =>
    let point : JoinPoint := ⟨.point context.member index, context.this, args⟩
    match ← (weaver.runBefore calling point).run with
    | .ok none =>
      modify fun visits => { visits with arrivals := ⟨index, args⟩ :: visits.arrivals }
      pure (.ok ())
    | .ok (some value) =>
      modify fun visits => { visits with returned := some value }
      pure (.error (.give value))
    | .error fault =>
      modify fun visits => { visits with fault := some fault }
      pure (.error (.fault fault))

/-- The advice behind the join points that were passed. -/
def settle (activation : Activation) (value : Value) : List Arrival → Execution Verdict
  | [] => pure (.completed value)
  | arrival :: arrivals => do
    match ← (weaver.runAfter calling (activation.point arrival) value).run with
    | .ok none => settle activation value arrivals
    | .ok (some value) => pure (.returned value)
    | .error fault => pure (.failed fault false)

/-- What the end of a body means, given what its join points have brought about. A fault is the body's
own unless it is that of the advice before a join point. -/
def judge (activation : Activation) (ending : Ending) (visits : Visits) : Execution Verdict :=
  match visits.returned with
  | some value => pure (.returned value)
  | none =>
    match ending.result with
    | .ok value => weaver.settle calling activation value visits.arrivals
    | .error fault => pure (.failed fault (visits.fault ≠ some fault))

/-- The body of an activation, and the advice behind its explicit join points. -/
def runBody (activation : Activation) : Execution Verdict := do
  let context : Context :=
    { registry := weaver.registry
      role := .member
      member := activation.member.id
      this := activation.this
      args := activation.args }
  let caller := weaver.registry.callerInMember activation.member.id activation.this
  let (ending, visits) ← (Activity.perform (calling caller) (weaver.arrive calling context)
    (weaver.body activation.body context)).run {}
  weaver.judge calling activation ending visits

/-- The advice at the entry, and the body if no advice returns or faults. -/
def runInside (activation : Activation) : Execution Verdict := do
  match ← (weaver.runBefore calling activation.entry).run with
  | .ok none => weaver.runBody calling activation
  | .ok (some value) => pure (.returned value)
  | .error fault => pure (.failed fault false)

/-- The advice at the exit after a value, which it may replace. -/
def runExit (activation : Activation) (value : Value) : Attempt Value := do
  pure ((← weaver.runAfter calling activation.exit value).getD value)

/-- The advice at the exit after a fault of the body. Nothing that it does replaces the fault. -/
def observeFault (activation : Activation) : Execution Unit := do
  match ← (weaver.runAfter calling activation.exit .null).run with
  | .ok _ => pure ()
  | .error dropped => Execution.record (.fault activation.member.id dropped.message)

/-- The result of an activation. -/
def conclude (activation : Activation) : Verdict → Attempt Value
  | .completed value => weaver.runExit calling activation value
  | .returned value =>
    if weaver.settings.afterOnShortCircuit then weaver.runExit calling activation value
    else pure value
  | .failed fault ofBody => do
    if ofBody && weaver.settings.afterOnFault then weaver.observeFault calling activation
    throw fault

def run (activation : Activation) : Attempt Value := do
  weaver.conclude calling activation (← weaver.runInside calling activation)

end Weaver

end Weaving
