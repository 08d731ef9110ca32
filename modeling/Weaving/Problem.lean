import Weaving.Pattern.Error
import Weaving.Relation

/-!
What may be wrong with a program's declarations. All problems of a program are collected, so that they
can be reported together.
-/

namespace Weaving

inductive Problem where
  | ambiguousVariant (member : String) (relation : RelationClass)
  | unservedRelations (member : String) (missing : RelationSet)
  | pointNotFound (pattern : String)
  | adviceReturn (pattern member declared expected : String)
  | hiddenWithoutDefault (member param : String)
  | invalidPattern (pattern : String) (error : PatternError)
  | unknownModule (name user : String)
  | unknownType (name user : String)
  | unknownAspect (name pattern : String)
  | unknownBody (name user : String)
  | missingBody (member : String)
  | duplicateModule (name : String)
  | duplicateType (name : String)
  | duplicateAspect (name : String)
  | duplicateMember (member : String)
  | duplicatePoint (member name : String)
  | inheritanceCycle (type : String)
  deriving DecidableEq, Repr

namespace Problem

def quote (text : String) : String := "`" ++ text ++ "`"

def message : Problem → String
  | .ambiguousVariant member relation => "variants of " ++ member ++ " overlap on " ++ relation.name
  | .unservedRelations member missing => "variants of " ++ member ++ " do not cover " ++ missing.display
  | .pointNotFound pattern =>
    "pointcut " ++ quote pattern ++ " names a join point that no member declares"
  | .adviceReturn pattern member declared expected =>
    "pointcut " ++ quote pattern ++ " returns " ++ declared ++ " but matches " ++ member ++
      ", which returns " ++ expected
  | .hiddenWithoutDefault member param =>
    "parameter " ++ quote param ++ " of " ++ member ++ " is hidden from some callers but has no default"
  | .invalidPattern pattern error => "invalid pattern " ++ quote pattern ++ ": " ++ error.message
  | .unknownModule name user => "unknown module " ++ quote name ++ " referenced by " ++ user
  | .unknownType name user => "unknown type " ++ quote name ++ " referenced by " ++ user
  | .unknownAspect name pattern =>
    "unknown aspect " ++ quote name ++ " referenced by pointcut " ++ quote pattern
  | .unknownBody name user => "unknown body " ++ quote name ++ " referenced by " ++ user
  | .missingBody member => member ++ " has no body and no variants"
  | .duplicateModule name => "module " ++ quote name ++ " declared twice"
  | .duplicateType name => "type " ++ quote name ++ " declared twice"
  | .duplicateAspect name => "aspect " ++ quote name ++ " declared twice"
  | .duplicateMember member => member ++ " declared twice"
  | .duplicatePoint member name => "join point " ++ quote name ++ " declared twice in " ++ member
  | .inheritanceCycle type => "inheritance cycle through " ++ quote type

/-- All problems of a rejected program, each on a line of its own. -/
def report (problems : List Problem) : String :=
  problems.foldl (fun text problem => text ++ "\n  - " ++ problem.message)
    ("registry rejected with " ++ Nat.repr problems.length ++ " error(s)")

end Problem

/-- A result together with the problems met on the way to it. -/
structure Checked (α : Type) where
  value : α
  problems : List Problem

namespace Checked

instance : Monad Checked where
  pure value := ⟨value, []⟩
  bind checked next := ⟨(next checked.value).value, checked.problems ++ (next checked.value).problems⟩

instance : LawfulMonad Checked :=
  LawfulMonad.mk' Checked (fun ⟨_, _⟩ => by simp [Functor.map])
    (fun _ _ => by simp [bind, pure]) (fun _ _ _ => by simp [bind])

def report (problem : Problem) : Checked Unit := ⟨(), [problem]⟩

/-- A problem if a condition fails. -/
def require (condition : Bool) (problem : Problem) : Checked Unit :=
  if condition then pure () else report problem

/-- A problem if something was not found. -/
def found {α : Type} (result : Option α) (problem : Problem) : Checked (Option α) :=
  ⟨result, if result.isSome then [] else [problem]⟩

variable {α β : Type}

@[simp]
theorem value_pure (a : α) : (pure a : Checked α).value = a := rfl

@[simp]
theorem problems_pure (a : α) : (pure a : Checked α).problems = [] := rfl

@[simp]
theorem value_bind (checked : Checked α) (next : α → Checked β) :
    (checked >>= next).value = (next checked.value).value := rfl

@[simp]
theorem problems_bind (checked : Checked α) (next : α → Checked β) :
    (checked >>= next).problems = checked.problems ++ (next checked.value).problems := rfl

end Checked

end Weaving
