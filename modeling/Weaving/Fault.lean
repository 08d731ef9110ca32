import Weaving.Value

/-!
Faults: why an invocation ended without a value.
-/

namespace Weaving

inductive Fault where
  /-- By a body. -/
  | raised (message : String)
  | cancelled
  | callDepthExceeded (limit : Nat)
  | argumentCount (member : String) (expected actual : Nat)
  /-- Advice returned a value although it declares no return type. -/
  | illegalAdviceReturn (pattern : String)
  | noSuchMember (member : String)
  | notAnInstance (member : String)
  /-- A body came to a join point that its member does not declare. -/
  | undeclaredJoinPoint (member name : String)
  deriving DecidableEq, Repr

namespace Fault

def message : Fault → String
  | .raised message => message
  | .cancelled => "invocation cancelled"
  | .callDepthExceeded limit => "call depth limit of " ++ Nat.repr limit ++ " exceeded"
  | .argumentCount member expected actual =>
    member ++ " takes " ++ Nat.repr expected ++ " argument(s), got " ++ Nat.repr actual
  | .illegalAdviceReturn pattern =>
    "advice `" ++ pattern ++ "` returned a value but declares no return type"
  | .noSuchMember member => "no such member: " ++ member
  | .notAnInstance member => member ++ " is an instance member and needs a receiver"
  | .undeclaredJoinPoint member name =>
    "join point `" ++ name ++ "` is not declared by " ++ member

def tag : Fault → String
  | .raised _ => "raised"
  | .cancelled => "cancelled"
  | .callDepthExceeded _ => "call_depth_exceeded"
  | .argumentCount _ _ _ => "argument_count"
  | .illegalAdviceReturn _ => "illegal_advice_return"
  | .noSuchMember _ => "no_such_member"
  | .notAnInstance _ => "not_an_instance"
  | .undeclaredJoinPoint _ _ => "undeclared_join_point"

/-- What a fault says beyond its kind. -/
def details : Fault → List (String × Document)
  | .raised message => [("message", .text message)]
  | .cancelled => []
  | .callDepthExceeded limit => [("limit", .ofNat limit)]
  | .argumentCount member expected actual =>
    [("member", .text member), ("expected", .ofNat expected), ("actual", .ofNat actual)]
  | .illegalAdviceReturn pattern => [("pattern", .text pattern)]
  | .noSuchMember member => [("member", .text member)]
  | .notAnInstance member => [("member", .text member)]
  | .undeclaredJoinPoint member name => [("member", .text member), ("name", .text name)]

def toDocument (fault : Fault) : Document := .table (("fault", .text fault.tag) :: fault.details)

end Fault

end Weaving
