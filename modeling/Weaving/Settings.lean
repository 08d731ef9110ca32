import Weaving.Toml.Reader

/-!
Settings: how deep invocations may nest, whether they are traced, and when advice that runs after a
member also runs for one that did not complete.
-/

namespace Weaving

structure Settings where
  /-- The greatest number of invocations inside each other. -/
  maxDepth : Nat := 64
  trace : Bool := true
  /-- Advice after a member runs although advice returned in its place. -/
  afterOnShortCircuit : Bool := false
  /-- Advice after a member runs although its body ended in a fault. -/
  afterOnFault : Bool := false
  deriving DecidableEq, Repr

namespace Settings

/-- Why settings are refused. -/
inductive Error where
  | unreadable
  | noDepth
  deriving DecidableEq, Repr

namespace Error

/-- What is said about settings that can be read but make no sense. -/
def message : Error → String
  | .unreadable => "Failed to parse config"
  | .noDepth => "Invalid config: max_depth must be at least 1"

end Error

def toDocument (settings : Settings) : Document :=
  .table
    [("max_depth", .ofNat settings.maxDepth), ("trace", .bool settings.trace),
      ("after_on_short_circuit", .bool settings.afterOnShortCircuit),
      ("after_on_fault", .bool settings.afterOnFault)]

def ofDocument? (source : Document.Source) (document : Document) : Option Settings := do
  let fields ← document.fields? source
    ["max_depth", "trace", "after_on_short_circuit", "after_on_fault"]
  some
    { maxDepth := ← fields.orElse "max_depth" 64 Document.asCount?
      trace := ← fields.orElse "trace" true Document.asBool?
      afterOnShortCircuit := ← fields.orElse "after_on_short_circuit" false Document.asBool?
      afterOnFault := ← fields.orElse "after_on_fault" false Document.asBool? }

/-- At least one invocation must be allowed. -/
def validate (settings : Settings) : Except Error Settings :=
  if settings.maxDepth = 0 then .error .noDepth else .ok settings

/-- The settings in the table `weave` of a document; all as they are by themselves without it. -/
def ofFile? (document : Document) : Option Settings := do
  let fields ← document.fields? .toml ["weave"]
  fields.orElse "weave" {} (ofDocument? .toml)

def ofToml (text : String) : Except Error Settings :=
  match Toml.read? text >>= ofFile? with
  | none => .error .unreadable
  | some settings => settings.validate

end Settings

end Weaving
