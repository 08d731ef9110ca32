import Weaving.Chain
import Weaving.Program
import Weaving.Settings

/-!
Weavers: a program with settings, and the state on which invocations work. All bodies share their output
and the numbers of objects; frames, trace and cancellation belong to a chain.
-/

namespace Weaving

/-- What all chains of a weaver share. -/
structure Shared where
  /-- The emitted lines, newest first. -/
  lines : List String := []
  /-- The number of the next object. -/
  nextObject : Nat := 1
  deriving DecidableEq, Repr

namespace Shared

/-- The emitted lines in order. -/
def output (shared : Shared) : List String := shared.lines.reverse

def emit (line : String) (shared : Shared) : Shared :=
  { shared with lines := line :: shared.lines }

def clearOutput (shared : Shared) : Shared := { shared with lines := [] }

/-- A fresh object. -/
def allocate (type : TypeId) (shared : Shared) : ObjectRef × Shared :=
  (⟨shared.nextObject, type⟩, { shared with nextObject := shared.nextObject + 1 })

end Shared

/-- What an invocation works on: the shared state, and the chain on which it runs. -/
structure Machine extends Shared where
  chain : Chain
  deriving DecidableEq, Repr

/-- A program that is run with some settings. -/
structure Weaver extends Program where
  settings : Settings

/-- Work that always comes to an end with a result. -/
abbrev Execution := StateM Machine

/-- Work that may end in a fault. What it has done to the machine stays done. -/
abbrev Attempt := ExceptT Fault Execution

namespace Execution

/-- The chain as it is now. -/
def chain : Execution Chain := do
  pure (← get).chain

def onChain (change : Chain → Chain) : Execution Unit :=
  modify fun machine => { machine with chain := change machine.chain }

def record (event : Event) : Execution Unit := onChain (Chain.record event)

def emit (line : String) : Execution Unit :=
  modify fun machine => { machine with toShared := machine.toShared.emit line }

def allocate (type : TypeId) : Execution ObjectRef :=
  modifyGet fun machine =>
    let (object, shared) := machine.toShared.allocate type
    (object, { machine with toShared := shared })

end Execution

namespace Weaver

/-- A chain that nothing has run on. -/
def chain (weaver : Weaver) : Chain := { tracing := weaver.settings.trace }

end Weaver

end Weaving
