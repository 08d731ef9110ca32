import Weaving.Document

/-!
Tables of TOML text while they are being filled. A table may be given bit by bit, but in one way only: a
table that a header has defined takes no more entries through dotted keys, one that dotted keys have made
is not opened by a header, and a value is never replaced.
-/

namespace Weaving.Toml

/-- How a table came to be. -/
inductive Origin where
  /-- By a header of its own. -/
  | header
  /-- As a part of the header of another table. -/
  | path
  /-- As a part of a dotted key. -/
  | dots
  deriving DecidableEq

/-- What a key stands for. The last of several tables with one name is first. -/
inductive Node where
  | value (document : Document)
  | table (origin : Origin) (entries : List (String × Node))
  | tables (items : List (List (String × Node)))

abbrev Entries := List (String × Node)

namespace Node

mutual

def toDocument : Node → Document
  | .value document => document
  | .table _ entries => .table (entriesDocument entries)
  | .tables items => .list (itemDocuments items).reverse

def entriesDocument : List (String × Node) → List (String × Document)
  | [] => []
  | (key, node) :: entries => (key, node.toDocument) :: entriesDocument entries

def itemDocuments : List (List (String × Node)) → List Document
  | [] => []
  | entries :: items => .table (entriesDocument entries) :: itemDocuments items

end

end Node

namespace Entries

/-- The entries with another node in the place of one. -/
def replace (entries : Entries) (key : String) (node : Node) : Entries :=
  entries.map fun (other, held) => if other = key then (other, node) else (other, held)

/-- A change to the table that a path leads to; tables on the way are made if they are missing. The
change is told how the table came to be. -/
def within? (made : Origin) (change : Origin → Entries → Option Entries) :
    List String → Origin → Entries → Option Entries
  | [], origin, entries => change origin entries
  | key :: path, _, entries =>
    match entries.lookup key with
    | none => do
      let inner ← within? made change path made []
      some (entries ++ [(key, .table made inner)])
    | some (.value _) => none
    | some (.tables []) => none
    | some (.tables (item :: items)) => do
      let inner ← within? made change path .header item
      some (entries.replace key (.tables (inner :: items)))
    | some (.table origin inner) =>
      if made = .dots ∧ origin = .header then none
      else do
        let inner ← within? made change path origin inner
        some (entries.replace key (.table origin inner))

/-- A new entry by a dotted key. -/
def assign? (path : List String) (key : String) (document : Document) (entries : Entries) :
    Option Entries :=
  let add (origin : Origin) (entries : Entries) : Option Entries :=
    if (origin = .dots ↔ path.isEmpty) ∨ (entries.lookup key).isSome then none
    else some (entries ++ [(key, .value document)])
  within? .dots add path .header entries

/-- A table opened by a header. -/
def openTable? (path : List String) (key : String) (entries : Entries) : Option Entries :=
  let define (_ : Origin) (entries : Entries) : Option Entries :=
    match entries.lookup key with
    | none => some (entries ++ [(key, .table .header [])])
    | some (.table .path inner) => some (entries.replace key (.table .header inner))
    | _ => none
  within? .path define path .header entries

/-- One more of several tables, opened by a header. -/
def openItem? (path : List String) (key : String) (entries : Entries) : Option Entries :=
  let define (_ : Origin) (entries : Entries) : Option Entries :=
    match entries.lookup key with
    | none => some (entries ++ [(key, .tables [[]])])
    | some (.tables items) => some (entries.replace key (.tables ([] :: items)))
    | _ => none
  within? .path define path .header entries

end Entries

end Weaving.Toml
