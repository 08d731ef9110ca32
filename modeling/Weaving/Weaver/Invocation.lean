import Weaving.Weaver.Activation

/-!
Invocations. A call is checked before anything is recorded; then its relation is classified, a security
frame is pushed for as long as the member runs, the variant is selected, the arguments are bound, and the
member is run. Calls from inside are invocations of the same kind, one level deeper.
-/

namespace Weaving

namespace Weaver

variable (weaver : Weaver) (calling : Calling)

/-- The member that a call invokes, if the call may be carried out at all. -/
def screen (call : Call) : Attempt MemberEntry := do
  if (← Execution.chain).cancelled then throw .cancelled
  match weaver.registry.member? call.target with
  | none => throw (.noSuchMember call.target.label)
  | some member =>
    if !member.isStatic && call.receiver.isNone then
      throw (.notAnInstance (weaver.registry.memberPath call.target))
    pure member

/-- The value of a default. A computed one sees the arguments that are bound before it. -/
def evalDefault (member : MemberId) (this : Option ObjectRef) (bound : List Value) :
    Default → Attempt Value
  | .const value => pure value
  | .computed body => do
    let context : Context :=
      { registry := weaver.registry, role := .default, member, this, args := bound }
    let caller := weaver.registry.callerInMember member this
    let ending ← (Activity.perform (calling caller) (Activity.refuse context)
      (weaver.body body context)).run' {}
    liftExcept ending.result
where
  liftExcept : Except Fault Value → Attempt Value
    | .ok value => pure value
    | .error fault => throw fault

/-- The value of one parameter. -/
def bindParam (member : MemberId) (this : Option ObjectRef) (bound : List Value) (param : Param) :
    Binding → Attempt Value
  | .supplied value => pure value
  | .masked default => do
    Execution.record (.masked member param.name)
    weaver.evalDefault calling member this bound default
  | .omitted default => weaver.evalDefault calling member this bound default

/-- The values of all parameters in order, behind those that are bound already. -/
def bindParams (member : MemberId) (this : Option ObjectRef) (bound : List Value) :
    List (Param × Binding) → Attempt (List Value)
  | [] => pure bound
  | (param, binding) :: rest => do
    let value ← weaver.bindParam calling member this bound param binding
    bindParams member this (bound ++ [value]) rest

/-- The part of an invocation that happens inside its security frame. -/
def runMember (member : MemberEntry) (classified : RelationClass) (call : Call) : Attempt Value := do
  match weaver.registry.select member classified call.args with
  | .error fault => throw fault
  | .ok selection =>
    let relation := (← Execution.chain).current
    Execution.record (.enter member.id classified relation selection.index)
    let this := if member.isStatic then none else call.receiver
    let args ← weaver.bindParams calling member.id this [] (member.params.zip selection.bindings)
    weaver.run calling ⟨member, selection.variant.body, this, args⟩

/-- The event at the end of an invocation. -/
def closing (member : MemberId) : Except Fault Value → Event
  | .ok _ => .exit member
  | .error fault => .fault member fault.message

/-- An invocation of an admitted member. -/
def activate (caller : Caller) (call : Call) (member : MemberEntry) : Attempt Value :=
  ExceptT.mk do
    let classified := weaver.registry.classify caller call.receiver member
    Execution.onChain (Chain.enter classified member.passthru)
    let result ← (weaver.runMember calling member classified call).run
    Execution.record (closing member.id result)
    Execution.onChain Chain.leave
    pure result

/-- An invocation with room for some invocations inside each other. -/
def invokeWithin : Nat → Calling
  | 0, _, call => do
    let _ ← weaver.screen call
    throw (.callDepthExceeded weaver.settings.maxDepth)
  | room + 1, caller, call => do
    let member ← weaver.screen call
    weaver.activate (invokeWithin room) caller call member

/-- An invocation on the chain of the machine. -/
def invoke : Calling := fun caller call => do
  let depth := (← Execution.chain).depth
  weaver.invokeWithin (weaver.settings.maxDepth - depth) caller call

end Weaver

/-- What an invocation on a chain of its own has brought about. -/
structure Invocation where
  result : Except Fault Value
  trace : List Event

namespace Invocation

/-- The pointcuts whose advice ran, in order. -/
def advice (invocation : Invocation) : List PointcutId :=
  invocation.trace.filterMap Event.startedAdvice?

end Invocation

/-- An invocation on a chain of its own. -/
def Weaver.callFrom (weaver : Weaver) (caller : Caller) (call : Call) : StateM Shared Invocation :=
  fun shared =>
    let (result, machine) := (weaver.invoke caller call).run { shared with chain := weaver.chain }
    (⟨result, machine.chain.trace⟩, machine.toShared)

end Weaving
