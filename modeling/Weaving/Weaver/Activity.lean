import Weaving.Weaver

/-!
Carrying out actions. The machine answers most of what an action asks for; calls of members and arrivals
at explicit join points are left to whoever runs the action.
-/

namespace Weaving

/-- An explicit join point that a body came to, with the arguments that it gave. -/
structure Arrival where
  index : Nat
  args : List Value
  deriving DecidableEq, Repr

/-- What the explicit join points of one activation have brought about. -/
structure Visits where
  /-- The join points that were passed, the last one first. -/
  arrivals : List Arrival := []
  /-- The value that advice returned on behalf of the member, last of all. -/
  returned : Option Value := none
  /-- The fault of advice, last of all. -/
  fault : Option Fault := none
  deriving DecidableEq, Repr

/-- Work of one body. -/
abbrev Activity := StateT Visits Execution

namespace Activity

variable {α : Type}

/-- What becomes of an arrival at a join point. -/
abbrev Join := String → List Value → Activity (Except Interrupt Unit)

/-- Carries out an action, in any kind of work that can use the machine. -/
def perform {m : Type → Type} [Monad m] [MonadLiftT Execution m] (call : Call → Attempt Value)
    (join : String → List Value → m (Except Interrupt Unit)) : Action α → m α
  | .done result => pure result
  | .emit line next => do
    Execution.emit line
    perform call join next
  | .relation next => do
    perform call join (next (← Execution.chain).current)
  | .call request next => do
    perform call join (next (← (call request).run))
  | .join name args next => do
    perform call join (next (← join name args))
  | .allocate type next => do
    perform call join (next (← Execution.allocate type))
  | .poll next => do
    perform call join (next (← Execution.chain).cancelled)
  | .cancel next => do
    Execution.onChain Chain.cancel
    perform call join next

/-- Code that may not come to join points. -/
def refuse (context : Context) : Join := fun name _ =>
  pure (.error (.fault (.undeclaredJoinPoint context.ownerName name)))

end Activity

end Weaving
