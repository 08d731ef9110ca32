import Weaving.Advice.Matcher

/-!
Trace events: what happens during an invocation, for people and for programs that follow it.
-/

namespace Weaving

inductive Event where
  /-- A member was entered: the relation of the call, the relation then in force, and the position of
  the variant that serves the call. -/
  | enter (member : MemberId) (classified relation : RelationClass) (variant : Nat)
  /-- An argument was replaced by the default of its parameter. -/
  | masked (member : MemberId) (param : String)
  /-- Advice started. -/
  | advice (pointcut : PointcutId) (kind : AdviceKind) (site : Site)
  /-- Advice returned a value in the place of its join point. -/
  | shortCircuit (pointcut : PointcutId) (site : Site)
  | exit (member : MemberId)
  | fault (member : MemberId) (message : String)
  deriving DecidableEq, Repr

def Site.toDocument : Site → Document
  | .entry member => .table [("entry", .ofNat member.index)]
  | .exit member => .table [("exit", .ofNat member.index)]
  | .point member index =>
    .table [("explicit", .table [("member", .ofNat member.index), ("index", .ofNat index)])]

namespace Event

/-- An event as a record that names its kind. -/
def record (kind : String) (entries : List (String × Document)) : Document :=
  .table (("event", .text kind) :: entries)

def toDocument : Event → Document
  | .enter member classified relation variant =>
    record "enter"
      [("member", .ofNat member.index), ("classified", .text classified.name),
        ("relation", .text relation.name), ("variant", .ofNat variant)]
  | .masked member param =>
    record "masked" [("member", .ofNat member.index), ("param", .text param)]
  | .advice pointcut kind site =>
    record "advice"
      [("pointcut", .ofNat pointcut.index), ("advice", .text kind.name), ("site", site.toDocument)]
  | .shortCircuit pointcut site =>
    record "short_circuit" [("pointcut", .ofNat pointcut.index), ("site", site.toDocument)]
  | .exit member => record "exit" [("member", .ofNat member.index)]
  | .fault member message =>
    record "fault" [("member", .ofNat member.index), ("message", .text message)]

/-- The pointcut whose advice started. -/
def startedAdvice? : Event → Option PointcutId
  | .advice pointcut _ _ => some pointcut
  | _ => none

end Event

namespace Catalog

/-- A pointcut with its pattern. -/
def describePointcut (catalog : Catalog) (id : PointcutId) : String :=
  id.label ++ " `" ++ ((catalog.pointcut? id).map (·.source)).getD "?" ++ "`"

/-- An event in words. -/
def describeEvent (catalog : Catalog) : Event → String
  | .enter member classified relation variant =>
    "enter " ++ catalog.memberPath member ++ " as " ++ relation.name ++
      (if classified = relation then "" else " via " ++ classified.name) ++
      " (variant " ++ Nat.repr variant ++ ")"
  | .masked member param => "mask `" ++ param ++ "` of " ++ catalog.memberPath member
  | .advice pointcut kind site =>
    kind.name ++ " " ++ catalog.describePointcut pointcut ++ " at " ++ catalog.describe site
  | .shortCircuit pointcut site =>
    "short-circuit by " ++ catalog.describePointcut pointcut ++ " at " ++ catalog.describe site
  | .exit member => "exit " ++ catalog.memberPath member
  | .fault member message => "fault in " ++ catalog.memberPath member ++ ": " ++ message

end Catalog

end Weaving
