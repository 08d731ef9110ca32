import Weaving.Resolution.Types

/-!
Resolving members. The variants of a member must serve each relation at most once; its own body serves
those that no variant does, and without one nothing may be left over. A parameter that some relations
may not supply needs a default.
-/

namespace Weaving.Resolution

open Checked (report require found)

/-- A body by name. Each name is bound once, so the first body that has it is the only one. -/
def findBody? (bodies : List String) (name : String) : Option BodyId :=
  (bodies.findIdx? (· = name)).map Id.mk

/-- The body with a name, which some declaration uses. -/
def resolveBody (bodies : List String) (name user : String) : Checked (Option BodyId) :=
  found (findBody? bodies name) (.unknownBody name user)

def resolveDefault (bodies : List String) (path param : String) :
    Option DefaultDeclaration → Checked (Option Default)
  | none => pure none
  | some (.const value) => pure (some (.const value))
  | some (.computed body) => do
    let body ← resolveBody bodies body ("default of `" ++ param ++ "` in " ++ path)
    pure (body.map .computed)

def resolveParam (bodies : List String) (path : String) (declared : ParamDeclaration) :
    Checked Param := do
  let relations := declared.relations.getD .all
  let default ← resolveDefault bodies path declared.name declared.default
  require (relations.isFull || declared.default.isSome) (.hiddenWithoutDefault path declared.name)
  pure ⟨declared.name, declared.type, default, relations⟩

/-- A variant after others that serve some relations already. -/
def addVariant (bodies : List String) (path : String)
    (state : List Variant × RelationSet) (declared : VariantDeclaration) :
    Checked (List Variant × RelationSet) := do
  let (variants, served) := state
  match (served.inter declared.relations).toList.head? with
  | some relation => report (.ambiguousVariant path relation)
  | none => pure ()
  let body ← resolveBody bodies declared.body ("variant of " ++ path)
  let variant := body.map fun body => ⟨declared.relations, body⟩
  pure (variants ++ variant.toList, served.union declared.relations)

/-- The member's own body, as a variant for the relations that are left over. -/
def remainingVariant (bodies : List String) (path : String) (declared : MemberDeclaration)
    (rest : RelationSet) : Checked (Option Variant) :=
  match declared.body with
  | some body =>
    if rest.isEmpty then pure none
    else do
      let body ← resolveBody bodies body ("member " ++ path)
      pure (body.map fun body => ⟨rest, body⟩)
  | none =>
    if declared.variants.isEmpty then do
      report (.missingBody path)
      pure none
    else do
      require rest.isEmpty (.unservedRelations path rest)
      pure none

def resolveVariants (bodies : List String) (path : String) (declared : MemberDeclaration) :
    Checked (List Variant) := do
  let (variants, served) ← declared.variants.foldlM (addVariant bodies path) ([], .empty)
  let remaining ← remainingVariant bodies path declared served.complement
  pure (variants ++ remaining.toList)

def addPoint (path : String) (points : List PointEntry) (declared : PointDeclaration) :
    Checked (List PointEntry) :=
  if points.any (·.name = declared.name) then do
    report (.duplicatePoint path declared.name)
    pure points
  else pure (points ++ [⟨declared.name, declared.params⟩])

/-- The entry of a member that is declared by a type, under the number that it is given. -/
def resolveMember (bodies : List String) (path : String) (id : MemberId) (owner : TypeId)
    (declared : MemberDeclaration) : Checked MemberEntry := do
  let params ← declared.params.mapM (resolveParam bodies path)
  let variants ← resolveVariants bodies path declared
  let points ← declared.points.foldlM (addPoint path) []
  pure
    { id
      owner
      kind := declared.kind
      name := declared.name
      params
      returns := declared.returns
      visibility := declared.visibility
      isStatic := declared.isStatic
      passthru := declared.passthru
      variants
      points }

/-- Whether a member has the name, the kind and the number of parameters of a declaration. -/
def resembles (member : MemberEntry) (declared : MemberDeclaration) : Bool :=
  member.name = declared.name && member.kind = declared.kind &&
    member.params.length = declared.params.length

/-- The types and the members so far. Each type lists the numbers of its own members. -/
structure Roster where
  types : List TypeEntry
  members : List MemberEntry

namespace Roster

variable (roster : Roster)

/-- What the path of a member begins with. -/
def ownerName (owner : TypeId) : String := ((roster.types[owner.index]?).map (·.qualifiedName)).getD ""

/-- Whether a type already lists a member that resembles a declaration. -/
def lists (owner : TypeId) (declared : MemberDeclaration) : Bool :=
  (roster.types[owner.index]?).any fun type =>
    type.members.any fun id => (roster.members[id.index]?).any (resembles · declared)

/-- The member behind the others, and its number behind those that its owner lists. -/
def add (member : MemberEntry) : Roster where
  types := roster.types.modify member.owner.index fun type => { type with members := type.members ++ [member.id] }
  members := roster.members ++ [member]

end Roster

def addMember (bodies : List String) (roster : Roster) (declared : MemberDeclaration) : Checked Roster := do
  match ← resolveType roster.types declared.owner ("member " ++ declared.qualifiedName) with
  | none => pure roster
  | some owner =>
    let path := roster.ownerName owner ++ "." ++ declared.name
    if roster.lists owner declared then
      report (.duplicateMember path)
      pure roster
    else
      let member ← resolveMember bodies path ⟨roster.members.length⟩ owner declared
      pure (roster.add member)

/-- The declared members, and the types that list them. -/
def resolveMembers (bodies : List String) (types : List TypeEntry)
    (declared : List MemberDeclaration) : Checked Roster :=
  declared.foldlM (addMember bodies) ⟨types, []⟩

end Weaving.Resolution
