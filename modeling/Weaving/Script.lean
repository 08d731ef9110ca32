import Weaving.Relation
import Weaving.Value

/-!
Scripts: bodies as data. A script is a list of steps, run in order; a step may emit a line, return,
raise a fault, reach a join point, call a member, allocate an object, branch on the relation in force,
or poll for cancellation. Results are kept in variables.
-/

namespace Weaving

/-- Where a step takes a value from. -/
inductive Operand where
  | arg (index : Nat)
  | var (name : String)
  | literal (value : Value)
  deriving DecidableEq, Repr

/-- The receiver of a call. -/
inductive Target where
  /-- The receiver of the running code. -/
  | this
  | static
  | arg (index : Nat)
  | var (name : String)
  deriving DecidableEq, Repr

inductive Step where
  | emit (template : String)
  | give (value : Operand)
  | fault (template : String)
  | join (point : String) (args : List Operand)
  /-- A call by path, by the name of a member of the current type, or by name on the receiver's type. -/
  | call (member : String) (on : Target) (isVirtual : Bool) (args : List Operand) (into : Option String)
  | allocate (type : String) (into : String)
  /-- A code security block: one branch for the relations that are let in, one for the others. -/
  | guard (relations : RelationSet) (permitted : List Step) (otherwise : List Step)
  | checkpoint

abbrev Script := List Step

end Weaving
