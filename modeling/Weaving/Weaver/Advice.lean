import Weaving.Classification
import Weaving.Weaver.Activity

/-!
Running advice. The advice of a site runs in the order of its plan until one returns a value or faults.
Only advice that declares a return type may return a value.
-/

namespace Weaving

/-- A join point as it is reached. -/
structure JoinPoint where
  site : Site
  this : Option ObjectRef
  args : List Value
  deriving DecidableEq, Repr

/-- How calls are carried out, given the code that calls. -/
abbrev Calling := Caller → Call → Attempt Value

/-- The code of advice, as a caller. -/
def Catalog.adviceCaller (catalog : Catalog) : AdviceOwner → Caller
  | .aspect id => { module := (catalog.aspect? id).map (·.module) }
  | .type id => catalog.callerInType id

namespace Weaver

variable (weaver : Weaver) (calling : Calling)

/-- The body of advice at a join point. -/
def runAdviceBody (pointcut : PointcutEntry) (point : JoinPoint) (result : Option Value) :
    Execution Ending :=
  let context : Context :=
    { registry := weaver.registry
      role := .advice pointcut.id point.site
      member := point.site.member
      this := point.this
      args := point.args
      result }
  let caller := weaver.registry.adviceCaller pointcut.owner
  (Activity.perform (calling caller) (Activity.refuse context)
    (weaver.body pointcut.body context)).run' {}

/-- The value with which advice replaces its join point, if it does. -/
def adviceReturn (pointcut : PointcutEntry) (site : Site) : Ending → Attempt (Option Value)
  | .ok .next => pure none
  | .error (.fault fault) => throw fault
  | .ok (.give value) | .error (.give value) => do
    if pointcut.returns.isNone then throw (.illegalAdviceReturn pointcut.source)
    Execution.record (.shortCircuit pointcut.id site)
    pure (some value)

/-- One piece of advice at a join point. -/
def runAdvice (point : JoinPoint) (result : Option Value) (id : PointcutId) :
    Attempt (Option Value) := do
  if (← Execution.chain).cancelled then throw .cancelled
  match weaver.registry.pointcut? id with
  | none => pure none
  | some pointcut =>
    Execution.record (.advice pointcut.id pointcut.advice point.site)
    adviceReturn pointcut point.site (← weaver.runAdviceBody calling pointcut point result)

/-- Advice in order, up to the first that returns a value. -/
def runAdviceList (point : JoinPoint) (result : Option Value) :
    List PointcutId → Attempt (Option Value)
  | [] => pure none
  | id :: ids => do
    match ← weaver.runAdvice calling point result id with
    | some value => pure (some value)
    | none => runAdviceList point result ids

/-- The advice before a join point. -/
def runBefore (point : JoinPoint) : Attempt (Option Value) :=
  weaver.runAdviceList calling point none (weaver.registry.plan point.site).before

/-- The advice after a join point, which sees the result. -/
def runAfter (point : JoinPoint) (result : Value) : Attempt (Option Value) :=
  weaver.runAdviceList calling point (some result) (weaver.registry.plan point.site).after

end Weaver

end Weaving
