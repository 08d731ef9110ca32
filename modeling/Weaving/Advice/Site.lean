import Weaving.Catalog

/-!
Join point sites: where advice can run. Every member has an entry and an exit, and a site for each of
its explicit join points.
-/

namespace Weaving

inductive Site where
  | entry (member : MemberId)
  | exit (member : MemberId)
  | point (member : MemberId) (index : Nat)
  deriving DecidableEq, Repr

namespace Site

def member : Site → MemberId
  | .entry member | .exit member | .point member _ => member

/-- The sites of a member: entry, exit, explicit join points in order. -/
def ofMember (member : MemberEntry) : List Site :=
  .entry member.id :: .exit member.id ::
    (List.range member.points.length).map fun index => .point member.id index

end Site

/-- What a site is called. -/
def Catalog.describe (catalog : Catalog) : Site → String
  | .entry member => "entry of " ++ catalog.memberPath member
  | .exit member => "exit of " ++ catalog.memberPath member
  | .point member index =>
    let point := (catalog.member? member).bind fun entry => entry.points[index]?
    catalog.memberPath member ++ "." ++ (point.map (·.name)).getD "?"

end Weaving
