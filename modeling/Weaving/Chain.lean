import Weaving.Security
import Weaving.Trace

/-!
Call chains. A chain is one thread of invocations: the security frames of those under way, the events
recorded so far, and whether it has been cancelled. Cancelling interrupts nothing; it is noticed when
the chain is polled.
-/

namespace Weaving

structure Chain where
  frames : SecurityStack := []
  /-- The recorded events, newest first. -/
  history : List Event := []
  tracing : Bool
  cancelled : Bool := false
  deriving DecidableEq, Repr

namespace Chain

/-- The relation in force. -/
def current (chain : Chain) : RelationClass := chain.frames.current

/-- The number of invocations under way. -/
def depth (chain : Chain) : Nat := chain.frames.length

/-- The recorded events in the order in which they happened. -/
def trace (chain : Chain) : List Event := chain.history.reverse

def record (event : Event) (chain : Chain) : Chain :=
  if chain.tracing then { chain with history := event :: chain.history } else chain

def enter (relation : RelationClass) (passthru : Bool) (chain : Chain) : Chain :=
  { chain with frames := chain.frames.push relation passthru }

def leave (chain : Chain) : Chain := { chain with frames := chain.frames.tail }

def cancel (chain : Chain) : Chain := { chain with cancelled := true }

def clearTrace (chain : Chain) : Chain := { chain with history := [] }

@[simp]
theorem leave_enter (relation : RelationClass) (passthru : Bool) (chain : Chain) :
    (chain.enter relation passthru).leave = chain := rfl

@[simp]
theorem frames_record (event : Event) (chain : Chain) :
    (chain.record event).frames = chain.frames := by
  unfold record
  split <;> rfl

@[simp]
theorem tracing_record (event : Event) (chain : Chain) :
    (chain.record event).tracing = chain.tracing := by
  unfold record
  split <;> rfl

@[simp]
theorem cancelled_record (event : Event) (chain : Chain) :
    (chain.record event).cancelled = chain.cancelled := by
  unfold record
  split <;> rfl

/-- Recording keeps the events recorded before. -/
theorem history_suffix_record (event : Event) (chain : Chain) :
    chain.history <:+ (chain.record event).history := by
  unfold record
  split
  · exact List.suffix_cons event chain.history
  · exact List.suffix_rfl

end Chain

end Weaving
