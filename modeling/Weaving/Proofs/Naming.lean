import Weaving.Proofs.Integrity

/-!
Names that registries print. A type is found under the name that it was declared with, its namespace as it
was written; what is printed is the namespace cut into its segments and put together again. The printed name
finds the type just if the two are the same, or if it is the simple name and no other type has it
(`Registry.printed_names_of_build`). They are the same if the namespace is written with single dots and
without blanks (`TypeDeclaration.plain_of_scope`). Nothing keeps other namespaces out, and then two types
may print the same name and a printed name may lead nowhere (`Registry.printed_names_of_twins`).
-/

namespace Weaving

/-! ## Namespaces as they are written -/

theorem Text.joinWith_eq_intercalate (separator : List Char) (pieces : List (List Char)) :
    joinWith separator pieces = separator.intercalate pieces := by
  match pieces with
  | [] => rfl
  | [piece] => simp [joinWith, List.intercalate]
  | piece :: second :: rest =>
    have later := joinWith_eq_intercalate separator (second :: rest)
    rw [joinWith, later]
    · simp [List.intercalate]
    · simp

/-- Names with single dots between them and no blanks around them, or nothing at all. -/
def PlainScope (scope : String) : Prop :=
  scope = "" ∨ ∀ piece ∈ Text.splitOn '.' scope.toList, piece ≠ [] ∧ Text.trim piece = piece

theorem Resolution.intercalate_scopeSegments {scope : String} (plain : PlainScope scope) :
    ".".intercalate (scopeSegments scope) = scope := by
  rcases plain with rfl | plain
  · rfl
  have segments : (scopeSegments scope).map String.toList = Text.splitOn '.' scope.toList := by
    unfold scopeSegments
    rw [List.map_filterMap, List.filterMap_map]
    refine (List.filterMap_congr fun piece held => ?_).trans List.filterMap_some
    obtain ⟨there, trimmed⟩ := plain piece held
    simp [trimmed, there]
  rw [← String.toList_inj, String.toList_intercalate, segments]
  exact (Text.joinWith_eq_intercalate _ _).symm.trans (Text.joinWith_splitOn '.' scope.toList)

/-- The name that a type was declared with is the name that is printed. -/
def TypeEntry.Plain (type : TypeEntry) : Prop := type.declaredName = type.qualifiedName

theorem TypeDeclaration.plain_of_scope {index : Nat} {type : TypeDeclaration} {entry : TypeEntry}
    (shown : TypeShown index type entry) (plain : PlainScope type.scope) : entry.Plain := by
  rw [TypeEntry.Plain, TypeEntry.qualifiedName, shown.scope, Resolution.intercalate_scopeSegments plain,
    shown.name]
  exact shown.declaredName

/-! ## Names that find types -/

/-- The printed name of a type is its simple name, and no other type has or is declared with this name. -/
structure TypeEntry.Alone (types : List TypeEntry) (type : TypeEntry) : Prop where
  simple : type.name = type.qualifiedName
  undeclared : ∀ other ∈ types, other.declaredName ≠ type.qualifiedName
  only : ∀ other ∈ types, other.name = type.qualifiedName → other = type

section Names

variable {types : List TypeEntry} (numbered : Numbered TypeEntry.id types)

include numbered in
theorem Numbered.eq_of_id {first second : TypeEntry} (held : first ∈ types) (other : second ∈ types)
    (same : first.id = second.id) : first = second := by
  have found := numbered.getElem?_of_mem held
  rw [same, numbered.getElem?_of_mem other] at found
  exact (Option.some.inj found).symm

/-- Types that are declared with different names are found by these. -/
theorem findType?_declaredName
    (distinct : ∀ first ∈ types, ∀ second ∈ types, first.declaredName = second.declaredName → first = second)
    {type : TypeEntry} (held : type ∈ types) : findType? types type.declaredName = some type.id := by
  unfold findType?
  cases found : types.find? (·.declaredName = type.declaredName) with
  | none => simpa using List.find?_eq_none.mp found type held
  | some other =>
    have named : other.declaredName = type.declaredName := by simpa using List.find?_some found
    rw [distinct other (List.mem_of_find?_eq_some found) type held named]

include numbered in
/-- Just which printed names find their types. -/
theorem findType?_qualifiedName_iff
    (distinct : ∀ first ∈ types, ∀ second ∈ types, first.declaredName = second.declaredName → first = second)
    {type : TypeEntry} (held : type ∈ types) :
    findType? types type.qualifiedName = some type.id ↔ type.Plain ∨ type.Alone types := by
  constructor
  · intro finds
    unfold findType? at finds
    cases found : types.find? (·.declaredName = type.qualifiedName) with
    | some other =>
      simp only [found, Option.some.injEq] at finds
      have named : other.declaredName = type.qualifiedName := by simpa using List.find?_some found
      rw [numbered.eq_of_id (List.mem_of_find?_eq_some found) held finds] at named
      exact Or.inl named
    | none =>
      simp only [found] at finds
      split at finds
      · rename_i only alone
        have among (other : TypeEntry) : other ∈ types.filter (·.name = type.qualifiedName) ↔
            other ∈ types ∧ other.name = type.qualifiedName := by simp
        simp only [alone, List.mem_singleton] at among
        obtain ⟨isType, named⟩ := (among only).mp rfl
        obtain rfl := numbered.eq_of_id isType held (Option.some.inj finds)
        exact Or.inr ⟨named, fun other isOther => by simpa using List.find?_eq_none.mp found other isOther,
          fun other isOther alike => (among other).mpr ⟨isOther, alike⟩⟩
      · cases finds
  · rintro (plain | alone)
    · rw [← plain]
      exact findType?_declaredName distinct held
    · have none : types.find? (·.declaredName = type.qualifiedName) = none :=
        List.find?_eq_none.mpr fun other isOther => by simpa using alone.undeclared other isOther
      have single : types.filter (·.name = type.qualifiedName) = [type] := by
        refine eq_singleton_of_nodup (numbered.nodup.filter _) ?_ fun other isOther => ?_
        · simp [held, ← alone.simple]
        · obtain ⟨isType, alike⟩ := List.mem_filter.mp isOther
          exact alone.only other isType (by simpa using alike)
      simp [findType?, none, single]

end Names

/-! ## Names that find members -/

/-- A path is cut where the name of its member begins. -/
theorem Catalog.findMember?_path (catalog : Catalog) {type name : String} (undotted : '.' ∉ name.toList) :
    catalog.findMember? (type ++ "." ++ name) =
      (catalog.findType? type).bind fun id => catalog.findMemberIn? id name := by
  have cut : Text.splitLast? '.' (type ++ "." ++ name).toList = some (type.toList, name.toList) :=
    Text.splitLast?_eq_some_iff.mpr ⟨by simp, undotted⟩
  rw [findMember?, cut]
  simp

/-- What a type lists under the name of one of its members is a member of the same type and name. -/
theorem Catalog.Closed.findMemberIn?_owner {catalog : Catalog} (closed : catalog.Closed) {member : MemberEntry}
    (held : member ∈ catalog.members) :
    ∃ other ∈ catalog.members, catalog.findMemberIn? member.owner member.name = some other.id ∧
      other.owner = member.owner ∧ other.name = member.name := by
  have inside := (closed.member member held).owner
  have owner : catalog.type? member.owner = some catalog.types[member.owner.index] :=
    List.getElem?_eq_getElem inside
  have isOwner := closed.types _ _ owner
  have listed := closed.owned _ (List.mem_of_getElem? owner)
  rw [isOwner] at listed
  have known {other : MemberEntry} (isOther : other ∈ catalog.members) : catalog.member? other.id = some other :=
    closed.members.getElem?_of_mem isOther
  unfold findMemberIn?
  rw [owner]
  dsimp only [Option.bind_eq_bind, Option.bind_some]
  cases found : List.find? _ catalog.types[member.owner.index].members with
  | none =>
    have own : member.id ∈ catalog.types[member.owner.index].members := by
      rw [listed]
      exact List.mem_map_of_mem (List.mem_filter.mpr ⟨held, by simp⟩)
    have unnamed := List.find?_eq_none.mp found member.id own
    simp [known held] at unnamed
  | some id =>
    have isListed := List.mem_of_find?_eq_some found
    rw [listed] at isListed
    obtain ⟨other, among, rfl⟩ := List.mem_map.mp isListed
    obtain ⟨isOther, owned⟩ := List.mem_filter.mp among
    have named := List.find?_some found
    simp only [known isOther, Option.any_some, decide_eq_true_eq] at named
    exact ⟨other, isOther, rfl, by simpa using owned, named⟩

/-! ## Accepted registries -/

namespace Registry

variable {declared : Declarations} {bodies : List String} {registry : Registry}

/-- Types show their declarations, and no two are declared with one name. -/
theorem types_of_build (accepted : Registry.build declared bodies = .ok registry) :
    Mirrors TypeShown declared.types registry.types ∧
      ∀ first ∈ registry.types, ∀ second ∈ registry.types, first.declaredName = second.declaredName →
        first = second := by
  obtain ⟨rfl, clean⟩ := eq_ofCatalog_of_build accepted
  have mirrors := (Resolution.represents_catalog clean).types
  refine ⟨mirrors, fun first held second other same => ?_⟩
  obtain ⟨i, source, atFirst, there, shown⟩ := mirrors.of_mem_entries held
  obtain ⟨j, target, atSecond, isThere, otherShown⟩ := mirrors.of_mem_entries other
  rw [shown.declaredName, otherShown.declaredName] at same
  obtain rfl := index_eq_of_nodup (Resolution.catalog_clean_iff.mp clean).types atFirst atSecond same
  exact Option.some.inj (there.symm.trans isThere)

/-- **Names that are printed lead back** where the namespaces are written as they are printed. In an accepted
registry types are found under the names they are declared with; the printed name finds a type just if it is
declared with it, or stands alone with its simple name; of the types declared with their printed names no two
print the same; and the path of a member without a dot in its name leads to a member of the same type and
name wherever the printed name of the type leads back. A namespace is written as it is printed if there are
single dots between its names and no blanks around them. -/
theorem printed_names_of_build (accepted : Registry.build declared bodies = .ok registry) :
    (∀ type ∈ registry.types, registry.findType? type.declaredName = some type.id) ∧
    (∀ type ∈ registry.types,
      registry.findType? type.qualifiedName = some type.id ↔ type.Plain ∨ type.Alone registry.types) ∧
    (∀ first ∈ registry.types, ∀ second ∈ registry.types, first.Plain → second.Plain →
      first.qualifiedName = second.qualifiedName → first = second) ∧
    (∀ member ∈ registry.members, '.' ∉ member.name.toList →
      registry.findType? (registry.typeName member.owner) = some member.owner →
      ∃ other ∈ registry.members, registry.findMember? (registry.memberPath member.id) = some other.id ∧
        other.owner = member.owner ∧ other.name = member.name) ∧
    ∀ (index : Nat) (type : TypeDeclaration) (entry : TypeEntry), declared.types[index]? = some type →
      registry.types[index]? = some entry → PlainScope type.scope → entry.Plain := by
  have closed := (closed_of_build accepted).toClosed
  obtain ⟨mirrors, distinct⟩ := types_of_build accepted
  refine ⟨fun type held => findType?_declaredName distinct held,
    fun type held => findType?_qualifiedName_iff closed.types distinct held, ?_, ?_, ?_⟩
  · intro first held second other plain alike same
    exact distinct first held second other (plain.trans (same.trans alike.symm))
  · intro member held undotted leads
    have known : registry.member? member.id = some member := closed.members.getElem?_of_mem held
    obtain ⟨other, isOther, found, owner, name⟩ := closed.findMemberIn?_owner held
    refine ⟨other, isOther, ?_, owner, name⟩
    rw [Catalog.memberPath, known]
    exact (registry.findMember?_path undotted).trans (by rw [leads]; exact found)
  · intro index type entry found there plain
    obtain ⟨other, isThere, shown⟩ := mirrors.shown index type found
    obtain rfl := Option.some.inj (there.symm.trans isThere)
    exact TypeDeclaration.plain_of_scope shown plain

/-- Two types whose namespaces differ in blanks alone; only the second has a member. -/
def twins : Declarations where
  modules := [⟨"shop"⟩]
  types :=
    [{ name := "Order", scope := "Acme.Sales", module := "shop" },
      { name := "Order", scope := "Acme . Sales", module := "shop" }]
  members := [{ owner := "Acme . Sales.Order", name := "Total", body := some "total" }]

/-- The first of the twins is found under its printed name. -/
theorem printed_names_of_first_twin :
    ∃ registry, Registry.build twins ["total"] = .ok registry ∧
      ∃ entry ∈ registry.types, entry.Plain ∧ registry.findType? entry.qualifiedName = some entry.id := by
  have runs : (Registry.build twins ["total"]).toOption.map (fun registry => registry.types.length) =
      some 2 := by
    decide +kernel
  obtain ⟨registry, accepted, both⟩ := exists_of_run runs
  have inside : 0 < registry.types.length := by omega
  obtain ⟨-, printed, -, -, plain⟩ := printed_names_of_build accepted
  have there := List.getElem?_eq_getElem inside
  have held := List.mem_of_getElem? there
  have isPlain := plain 0 _ _ rfl there (Or.inr (by decide +kernel))
  exact ⟨registry, accepted, _, held, isPlain, (printed _ held).mpr (Or.inl isPlain)⟩

/-- The twins are accepted together and print the same name. It leads to the first, and the path of the
second one's member leads nowhere. -/
theorem printed_names_of_twins :
    ∃ registry, Registry.build twins ["total"] = .ok registry ∧
      registry.types.map (·.qualifiedName) = ["Acme.Sales.Order", "Acme.Sales.Order"] ∧
      registry.findType? "Acme.Sales.Order" = some ⟨0⟩ ∧
      registry.memberPath ⟨0⟩ = "Acme.Sales.Order.Total" ∧
      registry.findMember? "Acme.Sales.Order.Total" = none := by
  have runs : (Registry.build twins ["total"]).toOption.map (fun registry =>
      (registry.types.map (·.qualifiedName), registry.findType? "Acme.Sales.Order",
        registry.memberPath ⟨0⟩, registry.findMember? "Acme.Sales.Order.Total")) =
      some (["Acme.Sales.Order", "Acme.Sales.Order"], some ⟨0⟩, "Acme.Sales.Order.Total", none) := by
    decide +kernel
  obtain ⟨registry, accepted, answers⟩ := exists_of_run runs
  simp only [Prod.mk.injEq] at answers
  exact ⟨registry, accepted, answers⟩

end Registry

end Weaving
