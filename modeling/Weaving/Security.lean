import Weaving.Relation

/-!
Security frames. Every invocation under way has a frame with the relation that is in force for code
inside it; a member that passes its caller through keeps the relation that was in force before.
-/

namespace Weaving

structure SecurityFrame where
  relation : RelationClass
  /-- The relation was taken over from the frame below. -/
  passthru : Bool
  deriving DecidableEq, Repr

/-- The frames of the invocations under way, innermost first. -/
abbrev SecurityStack := List SecurityFrame

namespace SecurityStack

/-- The relation in force; outside all invocations everything is external. -/
def current (stack : SecurityStack) : RelationClass := (stack.head?.map (·.relation)).getD .external

/-- The frame of an invocation with some relation. -/
def frame (stack : SecurityStack) (relation : RelationClass) (passthru : Bool) : SecurityFrame :=
  ⟨if passthru then stack.current else relation, passthru⟩

def push (stack : SecurityStack) (relation : RelationClass) (passthru : Bool) : SecurityStack :=
  stack.frame relation passthru :: stack

@[simp]
theorem current_nil : current [] = .external := rfl

@[simp]
theorem current_push_of_passthru (stack : SecurityStack) (relation : RelationClass) :
    (stack.push relation true).current = stack.current := rfl

@[simp]
theorem current_push_of_not_passthru (stack : SecurityStack) (relation : RelationClass) :
    (stack.push relation false).current = relation := rfl

end SecurityStack

end Weaving
