import Weaving.Model
import Weaving.Resolution
import Weaving.Script.Meaning

/-!
Programs: a registry together with the bodies that its declarations name. Scripts are one source of
bodies; any other body may be bound to a name as well.
-/

namespace Weaving

/-- Bodies under names, each name once. -/
abbrev Bindings := List (String × Body)

namespace Bindings

/-- Binds a body to a name, in the place of a body that had it. -/
def bind (bindings : Bindings) (name : String) (body : Body) : Bindings :=
  if bindings.any (·.1 = name) then
    bindings.map fun (other, held) => if other = name then (name, body) else (other, held)
  else bindings ++ [(name, body)]

end Bindings

/-- The bodies of the scripts of a model. -/
def Model.bindings (model : Model) : Bindings :=
  model.scripts.map fun (name, script) => (name, Script.body script)

structure Program where
  registry : Registry
  /-- The bodies, by identifier. -/
  bodies : List Body

namespace Program

/-- The program of some declarations, or everything that is wrong with them. -/
def build (declared : Declarations) (bindings : Bindings) : Except (List Problem) Program :=
  match Registry.build declared (bindings.map (·.1)) with
  | .ok registry => .ok ⟨registry, bindings.map (·.2)⟩
  | .error problems => .error problems

/-- The registry of a program that is built is built from the declarations. -/
theorem registry_of_build {declared : Declarations} {bindings : Bindings} {program : Program}
    (accepted : build declared bindings = .ok program) :
    Registry.build declared (bindings.map (·.1)) = .ok program.registry := by
  unfold build at accepted
  split at accepted
  · rename_i registry built
    cases accepted
    exact built
  · cases accepted

/-- The bodies of a program that is built are those that are bound. -/
theorem bodies_eq_of_build {declared : Declarations} {bindings : Bindings} {program : Program}
    (accepted : build declared bindings = .ok program) : program.bodies = bindings.map (·.2) := by
  unfold build at accepted
  split at accepted <;> cases accepted
  rfl

/-- A program that comes to something when it is run has been accepted. -/
theorem exists_of_run {α : Type} {declared : Declarations} {bindings : Bindings} {run : Program → α}
    {outcome : α} (runs : (build declared bindings).toOption.map run = some outcome) :
    ∃ program, build declared bindings = .ok program ∧ run program = outcome := by
  cases built : build declared bindings with
  | error problems =>
    rw [built] at runs
    cases runs
  | ok program =>
    rw [built] at runs
    exact ⟨program, rfl, Option.some.inj runs⟩

/-- The same of something that it may not come to. -/
theorem exists_of_run? {α : Type} {declared : Declarations} {bindings : Bindings} {run? : Program → Option α}
    {outcome : α} (runs : (build declared bindings).toOption.bind run? = some outcome) :
    ∃ program, build declared bindings = .ok program ∧ run? program = some outcome := by
  cases built : build declared bindings with
  | error problems =>
    rw [built] at runs
    cases runs
  | ok program =>
    rw [built] at runs
    exact ⟨program, rfl, runs⟩

/-- The body with an identifier; one that does not exist does nothing. -/
def body (program : Program) (id : BodyId) : Body :=
  program.bodies[id.index]?.getD fun _ => .done (.ok .next)

/-- The bodies of an accepted model are its scripts. -/
theorem body_of_build {model : Model} {program : Program}
    (accepted : build model.toDeclarations model.bindings = .ok program) (id : BodyId) :
    program.body id = Script.body ((model.scripts[id.index]?.map (·.2)).getD []) := by
  simp only [body, bodies_eq_of_build accepted, Model.bindings, List.map_map, List.getElem?_map]
  cases model.scripts[id.index]? with
  | none => rfl
  | some script => rfl

end Program

end Weaving
