import Weaving.Document

/-!
Modifier words: kinds of members and visibilities. A word in a pattern is a keyword; a declaration
names the same things by names of their own.
-/

namespace Weaving

inductive MemberKind where
  | function
  | propertyGet
  | propertySet
  | indexerGet
  | indexerSet
  | constructor
  | destructor
  deriving DecidableEq, Repr

namespace MemberKind

def all : List MemberKind :=
  [.function, .propertyGet, .propertySet, .indexerGet, .indexerSet, .constructor, .destructor]

/-- The name in declarations. -/
def name : MemberKind → String
  | .function => "function"
  | .propertyGet => "property-get"
  | .propertySet => "property-set"
  | .indexerGet => "indexer-get"
  | .indexerSet => "indexer-set"
  | .constructor => "constructor"
  | .destructor => "destructor"

/-- The word in patterns. -/
def keyword : MemberKind → String
  | .propertyGet => "get"
  | .propertySet => "set"
  | kind => kind.name

def ofName? (text : String) : Option MemberKind := all.find? (·.name = text)

/-- A pattern may also use the name of a declaration. -/
def ofKeyword? (word : String) : Option MemberKind :=
  all.find? fun kind => kind.keyword = word ∨ kind.name = word

theorem ofName?_name (kind : MemberKind) : ofName? kind.name = some kind := by cases kind <;> decide

end MemberKind

/-- From where a declaration may be seen. -/
inductive Visibility where
  | everywhere
  | derivedTypes
  | insideModule
  | insideType
  deriving DecidableEq, Repr

namespace Visibility

def all : List Visibility := [.everywhere, .derivedTypes, .insideModule, .insideType]

/-- The name in declarations, which is also the word in patterns. -/
def name : Visibility → String
  | .everywhere => "public"
  | .derivedTypes => "protected"
  | .insideModule => "internal"
  | .insideType => "private"

def ofName? (text : String) : Option Visibility := all.find? (·.name = text)

theorem ofName?_name (visibility : Visibility) : ofName? visibility.name = some visibility := by
  cases visibility <;> decide

end Visibility

/-- When advice runs: before its join point, or after it has come to an end. -/
inductive AdviceKind where
  | before
  | after
  deriving DecidableEq, Repr

namespace AdviceKind

def name : AdviceKind → String
  | .before => "before"
  | .after => "after"

def ofName? (text : String) : Option AdviceKind := [before, after].find? (·.name = text)

theorem ofName?_name (kind : AdviceKind) : ofName? kind.name = some kind := by cases kind <;> decide

end AdviceKind

end Weaving
