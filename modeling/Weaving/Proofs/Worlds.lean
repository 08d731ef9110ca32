import Weaving.Proofs.Process

/-!
What code may do in a world. A world is what has come about in a run so far: whether the chain has been
cancelled, and which objects have been made. Code is honest if it passes on none but known objects and starts
nothing on a cancelled chain, in the world as it is and in whatever world its calls leave behind
(`Process.Honest`). What counts as known is left open; it may be every object there is.
-/

namespace Weaving

variable {α β : Type}

/-! ## Worlds -/

structure World where
  cancelled : Bool := false
  made : List ObjectRef := []

namespace World

/-- The world when the chain has been cancelled. -/
def cancel (world : World) : World := { world with cancelled := true }

/-- The world when another object has been made. -/
def make (object : ObjectRef) (world : World) : World := { world with made := world.made ++ [object] }

/-- Nothing that has come about in one world is undone in another. -/
structure Before (first second : World) : Prop where
  cancelled : first.cancelled = true → second.cancelled = true
  made : first.made ⊆ second.made

variable {first second third : World}

theorem Before.refl (world : World) : world.Before world := ⟨id, List.Subset.refl _⟩

theorem Before.trans (start : first.Before second) (rest : second.Before third) : first.Before third :=
  ⟨fun set => rest.cancelled (start.cancelled set), List.Subset.trans start.made rest.made⟩

theorem before_cancel (world : World) : world.Before world.cancel := ⟨fun _ => rfl, List.Subset.refl _⟩

theorem before_make (object : ObjectRef) (world : World) : world.Before (world.make object) :=
  ⟨id, List.subset_append_left _ _⟩

end World

/-! ## Objects -/

/-- Things in which objects occur. -/
class Carries (α : Type) where
  objects : α → List ObjectRef

export Carries (objects)

instance : Carries Unit := ⟨fun _ => []⟩

instance : Carries Fault := ⟨fun _ => []⟩

instance : Carries ObjectRef := ⟨fun object => [object]⟩

instance : Carries Value := ⟨fun value => value.asObject?.toList⟩

instance [Carries α] : Carries (Option α) := ⟨fun thing => thing.toList.flatMap objects⟩

instance [Carries α] : Carries (List α) := ⟨fun things => things.flatMap objects⟩

instance [Carries α] [Carries β] : Carries (α × β) := ⟨fun pair => objects pair.1 ++ objects pair.2⟩

instance [Carries α] [Carries β] : Carries (Except α β) where
  objects
    | .error stopped => objects stopped
    | .ok result => objects result

instance : Carries Flow := ⟨fun flow => objects flow.value⟩

instance : Carries Interrupt where
  objects
    | .give value => objects value
    | .fault _ => []

instance : Carries Call := ⟨fun call => objects call.receiver ++ objects call.args⟩

instance : Carries Caller := ⟨fun caller => objects caller.this⟩

instance : Carries Context where
  objects context := objects context.this ++ objects context.args ++ objects context.result

instance : Carries JoinPoint := ⟨fun point => objects point.this ++ objects point.args⟩

instance : Carries Activation := ⟨fun activation => objects activation.this ++ objects activation.args⟩

instance : Carries Arrival := ⟨fun arrival => objects arrival.args⟩

instance : Carries Visits := ⟨fun visits => objects visits.arrivals ++ objects visits.returned⟩

instance : Carries Verdict where
  objects
    | .completed value | .returned value => objects value
    | .failed _ _ => []

instance : Carries Conclusion := ⟨fun conclusion => objects conclusion.result⟩

instance : Carries Default where
  objects
    | .const value => objects value
    | .computed _ => []

instance : Carries Binding where
  objects
    | .supplied value => objects value
    | .masked default | .omitted default => objects default

/-- What it takes for an object to be known, once some objects have been made. -/
structure Standard where
  knows : List ObjectRef → ObjectRef → Prop
  fresh : ∀ {made object}, object ∈ made → knows made object
  mono : ∀ {first second object}, first ⊆ second → knows first object → knows second object

namespace Standard

/-- Every object is known. -/
def any : Standard := ⟨fun _ _ => True, fun _ => trivial, fun _ _ => trivial⟩

/-- No objects are known but those that have been made. -/
def listed : Standard := ⟨fun made object => object ∈ made, id, fun more held => more held⟩

/-- All objects in a thing are known. -/
def Known [Carries α] (standard : Standard) (world : World) (thing : α) : Prop :=
  ∀ object ∈ objects thing, standard.knows world.made object

variable {standard : Standard} {world later : World} [Carries α] [Carries β]

theorem known_any (thing : α) : any.Known world thing := fun _ _ => trivial

theorem Known.mono {thing : α} (known : standard.Known world thing) (before : world.Before later) :
    standard.Known later thing :=
  fun object held => standard.mono before.made (known object held)

/-- What is carried by one thing is known if all of another is. -/
theorem Known.of_subset {thing : α} {other : β} (known : standard.Known world thing)
    (within : objects other ⊆ objects thing) : standard.Known world other :=
  fun object held => known object (within held)

theorem known_of_objects_eq_nil {thing : α} (none : objects thing = []) : standard.Known world thing := by
  intro object held
  rw [none] at held
  cases held

theorem known_append_iff {objects others : List ObjectRef} :
    (∀ object ∈ objects ++ others, standard.knows world.made object) ↔
      (∀ object ∈ objects, standard.knows world.made object) ∧
        ∀ object ∈ others, standard.knows world.made object := by
  simp only [List.mem_append, or_imp, forall_and]

@[simp]
theorem known_none : standard.Known world (none : Option α) := nofun

@[simp]
theorem known_some {thing : α} : standard.Known world (some thing) ↔ standard.Known world thing := by
  simp [Known, objects]

@[simp]
theorem known_nil : standard.Known world ([] : List α) := nofun

@[simp]
theorem known_cons {thing : α} {things : List α} :
    standard.Known world (thing :: things) ↔ standard.Known world thing ∧ standard.Known world things :=
  known_append_iff

theorem known_list_iff {things : List α} :
    standard.Known world things ↔ ∀ thing ∈ things, standard.Known world thing := by
  induction things with
  | nil => simp
  | cons thing things ih => simp [ih]

theorem known_append {things others : List α} :
    standard.Known world (things ++ others) ↔ standard.Known world things ∧ standard.Known world others := by
  simp only [known_list_iff, List.mem_append, or_imp, forall_and]

@[simp]
theorem known_pair {first : α} {second : β} :
    standard.Known world (first, second) ↔ standard.Known world first ∧ standard.Known world second :=
  known_append_iff

@[simp]
theorem known_fault (fault : Fault) : standard.Known world fault := nofun

@[simp]
theorem known_unit (nothing : Unit) : standard.Known world nothing := nofun

@[simp]
theorem known_null : standard.Known world Value.null := nofun

theorem known_context_iff {context : Context} : standard.Known world context ↔
    standard.Known world context.this ∧ standard.Known world context.args ∧
      standard.Known world context.result :=
  known_append_iff.trans ((and_congr_left fun _ => known_append_iff).trans and_assoc)

theorem known_point_iff {point : JoinPoint} :
    standard.Known world point ↔ standard.Known world point.this ∧ standard.Known world point.args :=
  known_append_iff

theorem known_activation_iff {activation : Activation} : standard.Known world activation ↔
    standard.Known world activation.this ∧ standard.Known world activation.args :=
  known_append_iff

theorem known_visits_iff {visits : Visits} : standard.Known world visits ↔
    standard.Known world visits.arrivals ∧ standard.Known world visits.returned :=
  known_append_iff

end Standard

open Standard (Known)

/-! ## Honest code -/

/-- Something of the program is started: a member or advice. -/
def Event.Starts : Event → Prop
  | .enter _ _ _ _ | .advice _ _ _ => True
  | .masked _ _ | .shortCircuit _ _ | .exit _ | .fault _ _ => False

/-- An action that passes on none but known objects. -/
def Action.Honest [Carries α] (standard : Standard) : Action α → World → Prop
  | .done result, world => standard.Known world result
  | .emit _ next, world => next.Honest standard world
  | .relation next, world => ∀ relation, (next relation).Honest standard world
  | .call request next, world => standard.Known world request ∧
    ∀ later result, world.Before later → standard.Known later result → (next result).Honest standard later
  | .join _ args next, world => standard.Known world args ∧
    ∀ later result, world.Before later → standard.Known later result → (next result).Honest standard later
  | .allocate type next, world => ∀ id, (next ⟨id, type⟩).Honest standard (world.make ⟨id, type⟩)
  | .poll next, world => ∀ cancelled, (next cancelled).Honest standard world
  | .cancel next, world => next.Honest standard world.cancel

/-- A process that passes on none but known objects and starts nothing on a cancelled chain. -/
def Process.Honest [Carries α] (standard : Standard) : Process α → World → Prop
  | .done result, world => standard.Known world result
  | .emit _ next, world => next.Honest standard world
  | .record event next, world => (world.cancelled = true → ¬ event.Starts) ∧ next.Honest standard world
  | .relation next, world => ∀ relation, (next relation).Honest standard world
  | .poll next, world => (next world.cancelled).Honest standard world
  | .allocate type next, world => ∀ id, (next ⟨id, type⟩).Honest standard (world.make ⟨id, type⟩)
  | .cancel next, world => next.Honest standard world.cancel
  | .call caller request next, world => standard.Known world caller ∧ standard.Known world request ∧
    ∀ later result, world.Before later → standard.Known later result → (next result).Honest standard later

/-- Where every object is known every action is honest. -/
theorem Action.honest_any [Carries α] (action : Action α) (world : World) : action.Honest .any world := by
  induction action generalizing world with
  | done result => exact Standard.known_any result
  | emit line next ih => exact ih world
  | relation next ih => exact fun relation => ih relation world
  | call request next ih => exact ⟨Standard.known_any request, fun later result _ _ => ih result later⟩
  | join name args next ih => exact ⟨Standard.known_any args, fun later result _ _ => ih result later⟩
  | allocate type next ih => exact fun id => ih _ _
  | poll next ih => exact fun cancelled => ih cancelled world
  | cancel next ih => exact ih _

variable {standard : Standard} {world : World}

/-- Honest code goes on honestly from whatever it has come to. -/
theorem Action.Honest.bind [Carries α] [Carries β] {action : Action α} {next : α → Action β}
    (start : action.Honest standard world)
    (rest : ∀ later a, world.Before later → standard.Known later a → (next a).Honest standard later) :
    (action.bind next).Honest standard world := by
  induction action generalizing world with
  | done result => exact rest world result (.refl world) start
  | emit line action ih => exact ih start rest
  | relation action ih => exact fun relation => ih relation (start relation) rest
  | call request action ih =>
    refine ⟨start.1, fun later result before known => ih result (start.2 later result before known) ?_⟩
    exact fun last a between => rest last a (before.trans between)
  | join name args action ih =>
    refine ⟨start.1, fun later result before known => ih result (start.2 later result before known) ?_⟩
    exact fun last a between => rest last a (before.trans between)
  | allocate type action ih =>
    exact fun id => ih _ (start id) fun last a between => rest last a ((world.before_make _).trans between)
  | poll action ih => exact fun cancelled => ih cancelled (start cancelled) rest
  | cancel action ih =>
    exact ih start fun last a between => rest last a (world.before_cancel.trans between)

namespace Process

theorem Honest.bind [Carries α] [Carries β] {process : Process α} {next : α → Process β}
    (start : process.Honest standard world)
    (rest : ∀ later a, world.Before later → standard.Known later a → (next a).Honest standard later) :
    (process >>= next).Honest standard world := by
  change (process.bind next).Honest standard world
  induction process generalizing world with
  | done result => exact rest world result (.refl world) start
  | emit line process ih => exact ih start rest
  | record event process ih => exact ⟨start.1, ih start.2 rest⟩
  | relation process ih => exact fun relation => ih relation (start relation) rest
  | poll process ih => exact ih _ start rest
  | allocate type process ih =>
    exact fun id => ih _ (start id) fun last a between => rest last a ((world.before_make _).trans between)
  | cancel process ih =>
    exact ih start fun last a between => rest last a (world.before_cancel.trans between)
  | call caller request process ih =>
    refine ⟨start.1, start.2.1, fun later result before known => ?_⟩
    exact ih result (start.2.2 later result before known) fun last a between =>
      rest last a (before.trans between)

variable [Carries α] [Carries β]

/-- Goes on with what an attempt has come to, unless that is a fault. -/
theorem Honest.attempt {trial : Trial α} {rest : α → Trial β} (start : trial.run.Honest standard world)
    (each : ∀ later a, world.Before later → standard.Known later a → (rest a).run.Honest standard later) :
    (trial >>= rest).run.Honest standard world := by
  change (trial.run >>= ExceptT.bindCont rest).Honest standard world
  apply start.bind
  intro later result before known
  cases result with
  | ok a => exact each later a before known
  | error fault => exact known

theorem Honest.lift {process : Process α} {rest : α → Trial β} (start : process.Honest standard world)
    (each : ∀ later a, world.Before later → standard.Known later a → (rest a).run.Honest standard later) :
    ((liftM process : Trial α) >>= rest).run.Honest standard world := by
  change (ExceptT.lift process >>= rest).run.Honest standard world
  rw [ExceptT.run_bind_lift]
  exact start.bind each

theorem honest_ofAction {caller : Caller} {join : String → List Value → Passage (Except Interrupt Unit)}
    {action : Action α} (honest : action.Honest standard world) (calls : standard.Known world caller)
    (joins : ∀ later name args visits, world.Before later → standard.Known later args →
      standard.Known later visits → ((join name args).run visits).Honest standard later)
    {visits : Visits} (known : standard.Known world visits) :
    ((ofAction caller join action).run visits).Honest standard world := by
  induction action generalizing world visits with
  | done result => exact Standard.known_pair.mpr ⟨honest, known⟩
  | emit line next ih => exact ih honest calls joins known
  | relation next ih => exact fun relation => ih relation (honest relation) calls joins known
  | call request next ih =>
    refine ⟨calls, honest.1, fun later result before isKnown => ?_⟩
    exact ih result (honest.2 later result before isKnown) (calls.mono before)
      (fun last name args visits between => joins last name args visits (before.trans between))
      (known.mono before)
  | join name args next ih =>
    apply (joins world name args visits (.refl world) honest.1 known).bind
    intro later reached before isKnown
    obtain ⟨result, visits⟩ := reached
    obtain ⟨isResult, isVisits⟩ := Standard.known_pair.mp isKnown
    exact ih result (honest.2 later result before isResult) (calls.mono before)
      (fun last name args visits between => joins last name args visits (before.trans between)) isVisits
  | allocate type next ih =>
    intro id
    have before := world.before_make ⟨id, type⟩
    exact ih _ (honest id) (calls.mono before)
      (fun last name args visits between => joins last name args visits (before.trans between))
      (known.mono before)
  | poll next ih => exact ih _ (honest _) calls joins known
  | cancel next ih =>
    have before := world.before_cancel
    exact ih honest (calls.mono before)
      (fun last name args visits between => joins last name args visits (before.trans between))
      (known.mono before)

/-- Code that may not come to join points. -/
theorem honest_ofPlain {caller : Caller} {context : Context} {action : Action α}
    (honest : action.Honest standard world) (calls : standard.Known world caller) :
    (ofPlain caller context action).Honest standard world := by
  have joins (later : World) (name : String) (args : List Value) (visits : Visits) (_ : world.Before later)
      (_ : standard.Known later args) (known : standard.Known later visits) :
      ((refuse context name args).run visits).Honest standard later :=
    Standard.known_pair.mpr ⟨Standard.known_of_objects_eq_nil rfl, known⟩
  apply (honest_ofAction honest calls joins (Standard.known_of_objects_eq_nil rfl)).bind
  intro later reached _ known
  exact (Standard.known_pair.mp known).1

end Process

end Weaving
