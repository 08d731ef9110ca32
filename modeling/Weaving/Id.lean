import Weaving.Word

/-!
Identifiers. Modules, types, members, aspects, pointcuts and bodies are each numbered in declaration
order, and a thing is referred to by its number among those of its own kind.
-/

namespace Weaving

/-- The kinds of things that are numbered. -/
inductive Entity where
  | module
  | type
  | member
  | aspect
  | pointcut
  | body

/-- A thing of one kind, by its position among the things of that kind. -/
structure Id (entity : Entity) where
  index : Nat
  deriving DecidableEq, Repr

abbrev ModuleId := Id .module
abbrev TypeId := Id .type
abbrev MemberId := Id .member
abbrev AspectId := Id .aspect
abbrev PointcutId := Id .pointcut
abbrev BodyId := Id .body

namespace Id

variable {entity : Entity}

/-- Numbers that come from outside are words of 32 bits; higher bits are dropped. -/
def ofRaw (number : Nat) : Id entity := ⟨number % Word.count 32⟩

/-- An identifier is written as a number sign and its position. -/
def label (id : Id entity) : String := "#" ++ Nat.repr id.index

end Id

end Weaving
