import Weaving.Catalog
import Weaving.Problem

/-!
Resolving modules and types. A repeated declaration is reported and left out. Bases are resolved when
all types are known, so that the order of declarations does not matter, and every loop of bases is
reported once, at its first type.
-/

namespace Weaving.Resolution

open Checked (report require found)

/-- The module with a name, which some declaration uses. -/
def resolveModule (modules : List ModuleEntry) (name user : String) : Checked (Option ModuleId) :=
  found (findModule? modules name) (.unknownModule name user)

/-- The type with a name, which some declaration uses. -/
def resolveType (types : List TypeEntry) (name user : String) : Checked (Option TypeId) :=
  found (findType? types name) (.unknownType name user)

def addModule (modules : List ModuleEntry) (declared : ModuleDeclaration) :
    Checked (List ModuleEntry) :=
  if modules.any (·.name = declared.name) then do
    report (.duplicateModule declared.name)
    pure modules
  else pure (modules ++ [⟨⟨modules.length⟩, declared.name⟩])

def resolveModules (declared : List ModuleDeclaration) : Checked (List ModuleEntry) :=
  declared.foldlM addModule []

/-- The names between the dots of a namespace, without blanks around them and without empty ones. -/
def scopeSegments (scope : String) : List String :=
  ((Text.splitOn '.' scope.toList).map Text.trim).filterMap fun segment =>
    if segment.isEmpty then none else some (String.ofList segment)

/-- A type whose base is still a name. -/
abbrev Draft := TypeEntry × Option String

def addType (modules : List ModuleEntry) (drafts : List Draft) (declared : TypeDeclaration) :
    Checked (List Draft) := do
  let name := declared.qualifiedName
  if drafts.any (·.1.declaredName = name) then
    report (.duplicateType name)
    pure drafts
  else
    let module ← resolveModule modules declared.module ("type " ++ name)
    let entry : TypeEntry :=
      { id := ⟨drafts.length⟩
        name := declared.name
        scope := scopeSegments declared.scope
        declaredName := name
        module := module.getD ⟨modules.length⟩
        base := none
        capabilities := declared.capabilities
        visibility := declared.visibility
        members := [] }
    pure (drafts ++ [(entry, declared.base)])

/-- A draft with its base resolved. -/
def resolveBase (types : List TypeEntry) : Draft → Checked TypeEntry
  | (entry, none) => pure entry
  | (entry, some base) => do
    let base ← resolveType types base ("type " ++ entry.declaredName)
    pure { entry with base }

/-- At most `limit` types above a type. -/
def ancestors (types : List TypeEntry) : Nat → TypeId → List TypeId
  | 0, _ => []
  | limit + 1, type =>
    match types[type.index]?.bind (·.base) with
    | none => []
    | some base => base :: ancestors types limit base

/-- The loop of bases that a type lies on, if any, from the type on. A loop has no more types than
there are. -/
def loopThrough? (types : List TypeEntry) (type : TypeId) : Option (List TypeId) :=
  let above := ancestors types types.length type
  if type ∈ above then some (type :: above.takeWhile (· ≠ type)) else none

/-- Whether a type is the first declared one of a loop of bases. -/
def startsLoop (types : List TypeEntry) (type : TypeId) : Bool :=
  match loopThrough? types type with
  | none => false
  | some loop => loop.all fun other => type.index ≤ other.index

def checkLoops (types : List TypeEntry) : Checked Unit :=
  types.forM fun type =>
    require (!startsLoop types type.id) (.inheritanceCycle type.qualifiedName)

def resolveTypes (modules : List ModuleEntry) (declared : List TypeDeclaration) :
    Checked (List TypeEntry) := do
  let drafts ← declared.foldlM (addType modules) []
  let types ← drafts.mapM (resolveBase (drafts.map (·.1)))
  checkLoops types
  pure types

end Weaving.Resolution
