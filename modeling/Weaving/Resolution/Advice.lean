import Weaving.Advice.Matcher
import Weaving.Pattern.Parser
import Weaving.Resolution.Members

/-!
Resolving aspects and pointcuts, and the checks that need the plans: a pointcut for explicit join
points must match one, and the return type of advice must fit every member that the advice matches.
-/

namespace Weaving.Resolution

open Checked (report require found)

/-- What a text is read as, with a problem if it is no pattern. -/
def resolvePattern {α : Type} (source : String) : Except PatternError α → Checked (Option α)
  | .ok result => pure (some result)
  | .error error => do
    report (.invalidPattern source error)
    pure none

def resolveScope : Option String → Checked (Option Pattern.Namespace)
  | none => pure none
  | some source => resolvePattern source (Pattern.Namespace.parse source)

def addAspect (modules : List ModuleEntry) (aspects : List AspectEntry)
    (declared : AspectDeclaration) : Checked (List AspectEntry) := do
  if aspects.any (·.name = declared.name) then
    report (.duplicateAspect declared.name)
    pure aspects
  else
    let module ← resolveModule modules declared.module ("aspect " ++ declared.name)
    let scope ← resolveScope declared.scope
    pure (aspects ++ [⟨⟨aspects.length⟩, declared.name, module.getD ⟨modules.length⟩, scope⟩])

def resolveAspects (modules : List ModuleEntry) (declared : List AspectDeclaration) :
    Checked (List AspectEntry) :=
  declared.foldlM (addAspect modules) []

def resolveOwner (types : List TypeEntry) (aspects : List AspectEntry) (pattern : String) :
    OwnerDeclaration → Checked (Option AdviceOwner)
  | .aspect name => do
    let aspect := aspects.find? (·.name = name)
    found (aspect.map fun entry => .aspect entry.id) (.unknownAspect name pattern)
  | .type name => do
    let type ← resolveType types name ("pointcut `" ++ pattern ++ "`")
    pure (type.map .type)

/-- The pointcut at a position of the declarations. -/
def resolvePointcut (bodies : List String) (types : List TypeEntry) (aspects : List AspectEntry)
    (declared : PointcutDeclaration) (position : Nat) : Checked (Option PointcutEntry) := do
  let owner ← resolveOwner types aspects declared.pattern declared.owner
  let pattern ← resolvePattern declared.pattern (Pattern.parse declared.pattern)
  let body ← resolveBody bodies declared.body ("pointcut `" ++ declared.pattern ++ "`")
  pure do
    some
      { id := ⟨position⟩
        advice := declared.advice
        pattern := ← pattern
        source := declared.pattern
        returns := declared.returns
        body := ← body
        owner := ← owner }

def resolvePointcuts (bodies : List String) (types : List TypeEntry) (aspects : List AspectEntry)
    (declared : List PointcutDeclaration) : Checked (List PointcutEntry) := do
  let pointcuts ← declared.zipIdx.mapM fun (pointcut, position) =>
    resolvePointcut bodies types aspects pointcut position
  pure (pointcuts.filterMap id)

/-- The return type of advice must be assignable to that of a member that it matches. -/
def checkReturn (registry : Registry) (member : MemberEntry) (id : PointcutId) : Checked Unit :=
  match registry.pointcut? id with
  | none => pure ()
  | some pointcut =>
    match pointcut.returns with
    | none => pure ()
    | some declared =>
      require (registry.isAssignable declared member.returns)
        (.adviceReturn pointcut.source (registry.memberPath member.id) declared member.returns)

def checkReturns (registry : Registry) : Checked Unit :=
  registry.members.forM fun member =>
    (Site.ofMember member).forM fun site =>
      (registry.plan site).all.forM (checkReturn registry member)

/-- Whether a pointcut is part of the plan of an explicit join point. -/
def isReached (registry : Registry) (id : PointcutId) : Bool :=
  registry.members.any fun member =>
    (List.range member.points.length).any fun index =>
      (registry.plan (.point member.id index)).all.contains id

def checkReached (registry : Registry) : Checked Unit :=
  registry.pointcuts.forM fun pointcut =>
    require (!pointcut.pattern.explicit || isReached registry pointcut.id) (.pointNotFound pointcut.source)

end Weaving.Resolution
