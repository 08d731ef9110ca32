import Weaving.Advice.Matcher
import Weaving.Fault

/-!
Actions: what a body does. An action is either done with a result, or it asks for something and goes on
with the answer; a body is an action for each context in which it may run. What an action asks for is
carried out by the weaver, so a body can neither see nor change more than the answers tell.
-/

namespace Weaving

/-- How a body comes to a normal end. -/
inductive Flow where
  /-- It fell through. -/
  | next
  | give (value : Value)
  deriving DecidableEq, Repr

/-- Why a body stops before its end. -/
inductive Interrupt where
  /-- Advice at an explicit join point returned a value on behalf of the member. -/
  | give (value : Value)
  | fault (fault : Fault)
  deriving DecidableEq, Repr

/-- How a body ends. -/
abbrev Ending := Except Interrupt Flow

/-- A body that falls through gives no value. -/
def Flow.value : Flow → Value
  | .next => .null
  | .give value => value

/-- What the end of a body means for an invocation. -/
def Ending.result : Ending → Except Fault Value
  | .ok flow => .ok flow.value
  | .error (.give value) => .ok value
  | .error (.fault fault) => .error fault

/-- A call of a member. -/
structure Call where
  target : MemberId
  receiver : Option ObjectRef := none
  args : List Value := []
  deriving DecidableEq, Repr

inductive Action (α : Type) where
  | done (result : α)
  | emit (line : String) (next : Action α)
  /-- Asks for the relation in force. -/
  | relation (next : RelationClass → Action α)
  | call (request : Call) (next : Except Fault Value → Action α)
  /-- Comes to an explicit join point of the running member. -/
  | join (name : String) (args : List Value) (next : Except Interrupt Unit → Action α)
  | allocate (type : TypeId) (next : ObjectRef → Action α)
  /-- Asks whether the chain has been cancelled. -/
  | poll (next : Bool → Action α)
  | cancel (next : Action α)

namespace Action

variable {α β γ : Type}

protected def bind (action : Action α) (continue_ : α → Action β) : Action β :=
  match action with
  | .done result => continue_ result
  | .emit line next => .emit line (next.bind continue_)
  | .relation next => .relation fun relation => (next relation).bind continue_
  | .call request next => .call request fun result => (next result).bind continue_
  | .join name args next => .join name args fun result => (next result).bind continue_
  | .allocate type next => .allocate type fun object => (next object).bind continue_
  | .poll next => .poll fun cancelled => (next cancelled).bind continue_
  | .cancel next => .cancel (next.bind continue_)

instance : Monad Action where
  pure := .done
  bind := Action.bind

theorem bind_done (action : Action α) : action.bind .done = action := by
  induction action <;> simp only [Action.bind, *]

theorem bind_assoc (action : Action α) (first : α → Action β) (second : β → Action γ) :
    (action.bind first).bind second = action.bind fun a => (first a).bind second := by
  induction action <;> simp only [Action.bind, *]

instance : LawfulMonad Action :=
  LawfulMonad.mk' Action (fun action => bind_done action) (fun _ _ => rfl) bind_assoc

end Action

/-- The part that a body plays. -/
inductive Role where
  /-- The body of a variant. -/
  | member
  | advice (pointcut : PointcutId) (site : Site)
  /-- The computed default of a parameter. -/
  | default
  deriving DecidableEq, Repr

/-- What a body knows when it starts. -/
structure Context where
  registry : Registry
  role : Role
  /-- The member that is run, or whose join point is advised. -/
  member : MemberId
  this : Option ObjectRef
  args : List Value
  /-- The result of the join point, for advice after it. -/
  result : Option Value := none

namespace Context

/-- An argument; null stands for one that is missing. -/
def arg (context : Context) (index : Nat) : Value := context.args[index]?.getD .null

/-- What the code is called when it comes to a join point that it may not use. -/
def ownerName (context : Context) : String :=
  match context.role with
  | .member => context.registry.memberPath context.member
  | .default => "default of " ++ context.registry.memberPath context.member
  | .advice pointcut _ =>
    match context.registry.pointcut? pointcut with
    | some entry => "advice `" ++ entry.source ++ "`"
    | none => ""

/-- The position of an explicit join point of the member. -/
def point? (context : Context) (name : String) : Option Nat :=
  (context.registry.member? context.member).bind fun member => member.pointIndex? name

end Context

abbrev Body := Context → Action Ending

end Weaving
