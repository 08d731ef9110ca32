import Weaving.Document
import Weaving.Text.Blank
import Weaving.Text.Split

/-!
Relation classes and sets of them. A call stands in exactly one of six relations to the member it
targets. Variants, parameters and code security blocks each name the set of relations that they serve.
-/

namespace Weaving

/-- How a call site is related to the member it targets, most specific first. -/
inductive RelationClass where
  /-- An instance member of the target's own type, on the same object. -/
  | sameInstance
  /-- The target's own type, on another object or with a static side. -/
  | sameTypeDifferentInstance
  /-- A type derived from the target's type. -/
  | derivedType
  /-- A base of the target's type. -/
  | baseType
  /-- The module of the target's type, and none of the above. -/
  | sameModule
  | external
  deriving DecidableEq, Repr

namespace RelationClass

/-- Every class, most specific first. -/
def all : List RelationClass :=
  [.sameInstance, .sameTypeDifferentInstance, .derivedType, .baseType, .sameModule, .external]

theorem mem_all (relation : RelationClass) : relation ∈ all := by cases relation <;> decide

def name : RelationClass → String
  | .sameInstance => "SameInstance"
  | .sameTypeDifferentInstance => "SameTypeDifferentInstance"
  | .derivedType => "DerivedType"
  | .baseType => "BaseType"
  | .sameModule => "SameModule"
  | .external => "External"

/-- The position of a class in a set. -/
def position : RelationClass → Fin 6
  | .sameInstance => 0
  | .sameTypeDifferentInstance => 1
  | .derivedType => 2
  | .baseType => 3
  | .sameModule => 4
  | .external => 5

/-- The class with exactly this name. -/
def ofExactName? (text : String) : Option RelationClass := all.find? (·.name = text)

/-- Letters of ASCII in lower case, the same text otherwise. -/
def folded (cs : List Char) : List Char := cs.map Char.toLower

/-- The class with this name; blanks around it and the case of ASCII letters do not matter. -/
def ofName? (text : List Char) : Option RelationClass :=
  all.find? fun relation => folded relation.name.toList = folded (Text.trim text)

theorem ofExactName?_name (relation : RelationClass) : ofExactName? relation.name = some relation := by
  cases relation <;> decide

def ofDocument? (source : Document.Source) : Document → Option RelationClass :=
  Document.asName? source ofExactName?

end RelationClass

/-- A set of relation classes, one bit for each. -/
structure RelationSet where
  bits : BitVec 6
  deriving DecidableEq, Repr

namespace RelationSet

def empty : RelationSet := ⟨0⟩

def all : RelationSet := ⟨BitVec.allOnes 6⟩

instance : Inhabited RelationSet := ⟨empty⟩

def contains (set : RelationSet) (relation : RelationClass) : Bool :=
  set.bits.getLsb relation.position

def only (relation : RelationClass) : RelationSet := ⟨1#6 <<< relation.position.val⟩

def insert (set : RelationSet) (relation : RelationClass) : RelationSet :=
  ⟨set.bits ||| (only relation).bits⟩

def union (first second : RelationSet) : RelationSet := ⟨first.bits ||| second.bits⟩

def inter (first second : RelationSet) : RelationSet := ⟨first.bits &&& second.bits⟩

def complement (set : RelationSet) : RelationSet := ⟨~~~set.bits⟩

def isEmpty (set : RelationSet) : Bool := set = empty

def isFull (set : RelationSet) : Bool := set = all

def ofList (relations : List RelationClass) : RelationSet := relations.foldl insert empty

/-- The classes of a set, most specific first. -/
def toList (set : RelationSet) : List RelationClass := RelationClass.all.filter set.contains

/-- Names between bars, or the word for every class. -/
def ofNames? (text : String) : Option RelationSet :=
  if RelationClass.folded (Text.trim text.toList) = "all".toList then some all
  else ((Text.splitOn '|' text.toList).mapM RelationClass.ofName?).map ofList

/-- The names of the classes between braces. -/
def listing (set : RelationSet) : String :=
  "\x7b" ++ ", ".intercalate (set.toList.map RelationClass.name) ++ "\x7d"

/-- The full set has a name of its own. -/
def display (set : RelationSet) : String := if set.isFull then "ALL" else set.listing

def toDocument (set : RelationSet) : Document := Document.ofTexts (set.toList.map RelationClass.name)

def ofDocument? (source : Document.Source) (document : Document) : Option RelationSet :=
  (document.asList? (RelationClass.ofDocument? source)).map ofList

/-- Two sets with the same classes are equal. -/
theorem ext_contains {first second : RelationSet}
    (same : ∀ relation, first.contains relation = second.contains relation) : first = second := by
  obtain ⟨first⟩ := first
  obtain ⟨second⟩ := second
  have bit : ∀ i : Fin 6, first.getLsb i = second.getLsb i := by
    intro i
    match i with
    | 0 => exact same .sameInstance
    | 1 => exact same .sameTypeDifferentInstance
    | 2 => exact same .derivedType
    | 3 => exact same .baseType
    | 4 => exact same .sameModule
    | 5 => exact same .external
  congr 1
  apply BitVec.eq_of_getLsbD_eq
  intro i inside
  exact bit ⟨i, inside⟩

@[simp]
theorem contains_empty (relation : RelationClass) : empty.contains relation = false := by
  cases relation <;> decide

@[simp]
theorem contains_all (relation : RelationClass) : all.contains relation = true := by
  cases relation <;> decide

@[simp]
theorem contains_union (first second : RelationSet) (relation : RelationClass) :
    (first.union second).contains relation = (first.contains relation || second.contains relation) := by
  simp [contains, union]

@[simp]
theorem contains_inter (first second : RelationSet) (relation : RelationClass) :
    (first.inter second).contains relation = (first.contains relation && second.contains relation) := by
  simp [contains, inter]

@[simp]
theorem contains_complement (set : RelationSet) (relation : RelationClass) :
    set.complement.contains relation = !set.contains relation := by
  simp [contains, complement]

@[simp]
theorem contains_only (relation other : RelationClass) :
    (only relation).contains other = decide (relation = other) := by
  cases relation <;> cases other <;> decide

theorem insert_eq_union (set : RelationSet) (relation : RelationClass) :
    set.insert relation = set.union (only relation) := rfl

theorem mem_toList {set : RelationSet} {relation : RelationClass} :
    relation ∈ set.toList ↔ set.contains relation = true := by
  simp [toList, RelationClass.mem_all]

theorem contains_ofList (relations : List RelationClass) (relation : RelationClass) :
    (ofList relations).contains relation = decide (relation ∈ relations) := by
  suffices ∀ set : RelationSet, (relations.foldl insert set).contains relation =
      (set.contains relation || decide (relation ∈ relations)) by
    simpa [ofList] using this empty
  induction relations with
  | nil => simp
  | cons first rest ih =>
    intro set
    simp only [List.foldl_cons, ih, insert_eq_union, contains_union, contains_only, List.mem_cons,
      Bool.decide_or, Bool.or_assoc, eq_comm]

theorem ofList_toList (set : RelationSet) : ofList set.toList = set :=
  ext_contains fun relation => by simp [contains_ofList, mem_toList]

end RelationSet

end Weaving
