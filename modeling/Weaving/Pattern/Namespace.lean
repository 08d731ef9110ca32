import Weaving.Pattern.Token

/-!
Filters over names. A segment stands for one name or for any; a namespace filter accepts a namespace
with all that is nested in it, or the namespace alone; a parameter filter accepts lists of types.
-/

namespace Weaving.Pattern

/-- One name position. -/
inductive Segment where
  | any
  | name (text : String)
  deriving DecidableEq, Repr

namespace Segment

def accepts (segment : Segment) (name : String) : Bool :=
  match segment with
  | .any => true
  | .name text => text = name

def asName? : Segment → Option String
  | .any => none
  | .name text => some text

def text : Segment → String
  | .any => "*"
  | .name text => text

end Segment

/-- `A.B` accepts `A.B` and what is nested in it, `A.B.*` only `A.B` itself, and `*` everything. -/
structure Namespace where
  segments : List String
  directOnly : Bool
  deriving DecidableEq, Repr

namespace Namespace

def accepts (filter : Namespace) (name : List String) : Bool :=
  if filter.directOnly then name = filter.segments else filter.segments.isPrefixOf name

def text (filter : Namespace) : String :=
  match filter.segments, filter.directOnly with
  | [], false => "*"
  | [], true => "<global>.*"
  | segments, directOnly => ".".intercalate segments ++ (if directOnly then ".*" else "")

end Namespace

/-- A filter over lists of parameter types. -/
inductive Params where
  | any
  | exactly (types : List Segment)
  deriving DecidableEq, Repr

namespace Params

def accepts : Params → List String → Bool
  | .any, _ => true
  | .exactly segments, types =>
    segments.length = types.length && (segments.zip types).all fun (segment, type) => segment.accepts type

end Params

end Weaving.Pattern
