import Weaving.Id
import Weaving.Json.Writer

/-!
Runtime values: what arguments, variables and results hold. An object is known by its number and by the
type that it was made with.
-/

namespace Weaving

/-- A live object. -/
structure ObjectRef where
  id : Nat
  type : TypeId
  deriving DecidableEq, Repr

inductive Value where
  | null
  | bool (value : Bool)
  | int (value : Int)
  | float (value : Float)
  | text (value : String)
  | object (ref : ObjectRef)
  deriving DecidableEq, Repr

namespace Value

instance : Inhabited Value := ⟨.null⟩

def asInt? : Value → Option Int
  | .int value => some value
  | _ => none

def asObject? : Value → Option ObjectRef
  | .object ref => some ref
  | _ => none

/-- Doubles are written without exponent, and whole ones without point. -/
def floatStyle : Decimal.Style :=
  { tie := .up
    positional := none
    keepPoint := false
    nan := "NaN"
    infinity := "inf"
    negativeInfinity := "-inf" }

def intText (value : Int) : String := String.ofList (Json.integer value)

/-- The text of a value, as it stands in output. -/
def display : Value → String
  | .null => "null"
  | .bool value => if value then "true" else "false"
  | .int value => intText value
  | .float value => floatStyle.write value
  | .text value => value
  | .object ref => "object#" ++ Nat.repr ref.id

end Value

namespace ObjectRef

def toDocument (object : ObjectRef) : Document :=
  .table [("id", .ofNat object.id), ("ty", .ofNat object.type.index)]

def ofDocument? (document : Document) : Option ObjectRef := do
  let fields ← document.fields? .jsonPart ["id", "ty"]
  let id ← fields.required "id" Document.asCount?
  let type ← fields.required "ty" (Document.asNat? (Word.count 32 - 1))
  some ⟨id, ⟨type⟩⟩

end ObjectRef

namespace Value

def toDocument : Value → Document
  | .null => .null
  | .bool value => .bool value
  | .int value => .int value
  | .float value => .float value
  | .text value => .text value
  | .object ref => ref.toDocument

/-- The value that a document stands for. Whole numbers of more than 64 bits with sign are doubles, and
a record of an object's number and type is that object. -/
def ofDocument? (document : Document) : Option Value :=
  if document.isReadable then
    match document with
    | .null => some .null
    | .bool value => some (.bool value)
    | .int value => some (if Word.isSigned value then .int value else .float (Float.ofInt value))
    | .float value => some (.float value)
    | .text value => some (.text value)
    | _ => (ObjectRef.ofDocument? document).map .object
  else none

end Value

end Weaving
