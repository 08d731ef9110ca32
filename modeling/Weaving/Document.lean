import Weaving.Word

/-!
Documents: the tree that a text in one of the data formats stands for, before it is read as a
declaration, a script or a setting. Records are read from it by field name, or from a list of their
fields in order.
-/

namespace Weaving

/-- A data tree. `unreadable` stands for a part of a text that is well formed but has no value, such as
a number beyond the range of doubles: it may be skipped, but not read. -/
inductive Document where
  | null
  | bool (value : Bool)
  | int (value : Int)
  | float (value : Float)
  | text (value : String)
  | list (items : List Document)
  | table (entries : List (String × Document))
  | unreadable

instance : Inhabited Document := ⟨.null⟩

namespace Document

mutual

/-- Whether every part of the tree has a value. -/
def isReadable : Document → Bool
  | .list items => allReadable items
  | .table entries => entriesReadable entries
  | .unreadable => false
  | _ => true

def allReadable : List Document → Bool
  | [] => true
  | item :: items => item.isReadable && allReadable items

def entriesReadable : List (String × Document) → Bool
  | [] => true
  | (_, entry) :: entries => entry.isReadable && entriesReadable entries

end

mutual

/-- How deep lists and tables lie in each other. -/
def height : Document → Nat
  | .list items => itemsHeight items + 1
  | .table entries => entriesHeight entries + 1
  | _ => 0

def itemsHeight : List Document → Nat
  | [] => 0
  | item :: items => max item.height (itemsHeight items)

def entriesHeight : List (String × Document) → Nat
  | [] => 0
  | (_, entry) :: entries => max entry.height (entriesHeight entries)

end

def asText? : Document → Option String
  | .text value => some value
  | _ => none

def asBool? : Document → Option Bool
  | .bool value => some value
  | _ => none

/-- A whole number that is not negative and does not exceed `greatest`. -/
def asNat? (greatest : Nat) : Document → Option Nat
  | .int value => if 0 ≤ value ∧ value ≤ greatest then some value.toNat else none
  | _ => none

/-- The greatest number of 64 bits. -/
def greatestWord : Nat := Word.count 64 - 1

/-- A count: a whole number of 64 bits. -/
def asCount? : Document → Option Nat := asNat? greatestWord

def asList? {α : Type} (item? : Document → Option α) : Document → Option (List α)
  | .list items => items.mapM item?
  | _ => none

/-- Where a document comes from. A part is what stands inside a document that is taken in as a whole
before its form is known. -/
inductive Source where
  | json
  | toml
  | jsonPart
  | tomlPart
  deriving DecidableEq

/-- The source of what stands inside a document that is taken in as a whole. -/
def Source.part : Source → Source
  | .json | .jsonPart => .jsonPart
  | .toml | .tomlPart => .tomlPart

/-- What may stand beside a name that is written as a table of one entry but takes no content. -/
def isNoContent (source : Source) : Document → Bool
  | .null => true
  | .table [] => source ≠ .json
  | .list [] => source = .toml
  | _ => false

/-- One of a fixed set of names. -/
def asName? {α : Type} (source : Source) (ofName? : String → Option α) : Document → Option α
  | .text name => ofName? name
  | .table [(name, content)] => if content.isNoContent source then ofName? name else none
  | _ => none

/-- The entries of a table under one key, in order. -/
def entriesAt (key : String) (entries : List (String × Document)) : List Document :=
  (entries.filter (·.1 = key)).map (·.2)

/-- The fields of a record. -/
abbrev Fields := String → Option Document

/-- A table as a record: other keys than the record's are ignored, and none of its own may be repeated. -/
def tableFields? (names : List String) (entries : List (String × Document)) : Option Fields :=
  if names.all fun name => (entriesAt name entries).length ≤ 1 then
    some fun name => (entriesAt name entries).head?
  else none

/-- A list as a record: its items are the first fields in order. Only a list of a TOML document may
have more items than there are fields. -/
def listFields? (source : Source) (names : List String) (items : List Document) : Option Fields :=
  if source = .toml ∨ items.length ≤ names.length then some fun name => (names.zip items).lookup name
  else none

/-- The fields of a record with these names, written as a table or as a list. -/
def fields? (source : Source) (names : List String) : Document → Option Fields
  | .table entries => tableFields? names entries
  | .list items => listFields? source names items
  | _ => none

/-- A record whose form depends on one of its entries, apart from that entry. In a list the entry comes
first. -/
def tagged? (key : String) : Document → Option (Document × Document)
  | .table entries =>
    match entriesAt key entries with
    | [tag] => some (tag, .table (entries.filter (·.1 ≠ key)))
    | _ => none
  | .list (tag :: rest) => some (tag, .list rest)
  | _ => none

/-- A choice among names that each take content: a table of one entry. -/
def choice? : Document → Option (String × Document)
  | .table [entry] => some entry
  | _ => none

namespace Fields

variable {α : Type}

/-- A field that must be present. -/
def required (fields : Fields) (name : String) (read? : Document → Option α) : Option α :=
  fields name >>= read?

/-- A field with a value of its own when it is absent. -/
def orElse (fields : Fields) (name : String) (default : α) (read? : Document → Option α) : Option α :=
  match fields name with
  | none => some default
  | some document => read? document

/-- A field that may be absent, or null for the same. -/
def optional (fields : Fields) (name : String) (read? : Document → Option α) : Option (Option α) :=
  match fields name with
  | none | some .null => some none
  | some document => (read? document).map some

end Fields

/-- An entry that is written only when there is something to write. -/
def optionalEntry {α : Type} (name : String) (write : α → Document) : Option α → List (String × Document)
  | none => []
  | some value => [(name, write value)]

def ofTexts (texts : List String) : Document := .list (texts.map .text)

def ofNat (n : Nat) : Document := .int n

end Document

end Weaving
