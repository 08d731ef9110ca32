import Weaving.Resolution.Advice

/-!
Building registries. The declarations are resolved in the order modules, types, members, aspects,
pointcuts, and all problems are collected. Advice is only planned, and checked against its plans, for a
program whose names all resolve.
-/

namespace Weaving

namespace Resolution

/-- The catalog of a program whose bodies have these names. -/
def catalog (declared : Declarations) (bodies : List String) : Checked Catalog := do
  let modules ← resolveModules declared.modules
  let types ← resolveTypes modules declared.types
  let roster ← resolveMembers bodies types declared.members
  let aspects ← resolveAspects modules declared.aspects
  let pointcuts ← resolvePointcuts bodies types aspects declared.pointcuts
  pure ⟨modules, roster.types, roster.members, aspects, pointcuts, bodies⟩

/-- The checks of planned advice. -/
def checkAdvice (registry : Registry) : Checked Unit := do
  checkReturns registry
  checkReached registry

end Resolution

/-- The registry of a program, or all problems found. -/
def Registry.build (declared : Declarations) (bodies : List String) : Except (List Problem) Registry :=
  let resolved := Resolution.catalog declared bodies
  if resolved.problems.isEmpty then
    let registry := Registry.ofCatalog resolved.value
    let checked := Resolution.checkAdvice registry
    if checked.problems.isEmpty then .ok registry else .error checked.problems
  else .error resolved.problems

/-- A registry that comes to something has been accepted. -/
theorem Registry.exists_of_run {α : Type} {declared : Declarations} {bodies : List String} {run : Registry → α}
    {outcome : α} (runs : (build declared bodies).toOption.map run = some outcome) :
    ∃ registry, build declared bodies = .ok registry ∧ run registry = outcome := by
  cases built : build declared bodies with
  | error problems =>
    rw [built] at runs
    cases runs
  | ok registry =>
    rw [built] at runs
    exact ⟨registry, rfl, Option.some.inj runs⟩

end Weaving
