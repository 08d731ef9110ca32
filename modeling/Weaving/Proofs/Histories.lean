import Weaving.Proofs.Honesty
import Weaving.Proofs.Records

/-!
Runs through worlds. A run goes from moment to moment through worlds in which more and more has come about
(`Weaver.Comes`). If the bodies of a weaver are honest, so are at every moment the code that is running and all
callers that wait for it (`Weaver.honest_of_comes`).
-/

namespace Weaving

variable {α : Type}

/-- The world when code has done the next thing. -/
def Process.change (machine : Machine) : Process α → World → World
  | .allocate type _, world => world.make ⟨machine.nextObject, type⟩
  | .cancel _, world => world.cancel
  | .done _, world | .emit _ _, world | .record _ _, world | .relation _, world | .poll _, world
  | .call _ _ _, world => world

/-- The world after a moment. -/
def Moment.change (moment : Moment) (world : World) : World := moment.focus.change moment.machine world

theorem Process.before_change (process : Process α) (machine : Machine) (world : World) :
    world.Before (process.change machine world) := by
  cases process with
  | allocate type next => exact world.before_make _
  | cancel next => exact world.before_cancel
  | _ => exact .refl world

/-- The code that is running is honest in a world, the callers that wait are honest from there on, and the
chain is cancelled just if the world says so. -/
structure Moment.Honest (standard : Standard) (moment : Moment) (world : World) : Prop where
  cancelled : moment.machine.chain.cancelled = world.cancelled
  focus : moment.focus.Honest standard world
  waiting : ∀ pending ∈ moment.underWay, ∀ later result, world.Before later →
    standard.Known later result → (pending.rest result).Honest standard later

variable {standard : Standard} {world : World}

theorem Process.Honest.after_act {process next : Process (Except Fault Value)} {machine after : Machine}
    (honest : process.Honest standard world) (cancelled : machine.chain.cancelled = world.cancelled)
    (acts : process.act? machine = some (after, next)) :
    next.Honest standard (process.change machine world) ∧
      after.chain.cancelled = (process.change machine world).cancelled := by
  cases process with
  | done result => cases acts
  | call caller request rest => cases acts
  | record event rest =>
    cases acts
    exact ⟨honest.2, (machine.chain.cancelled_record event).trans cancelled⟩
  | relation rest =>
    cases acts
    exact ⟨honest _, cancelled⟩
  | poll rest =>
    cases acts
    refine ⟨?_, cancelled⟩
    rw [cancelled]
    exact honest
  | allocate type rest =>
    cases acts
    exact ⟨honest _, cancelled⟩
  | cancel rest =>
    cases acts
    exact ⟨honest, rfl⟩
  | emit line rest =>
    cases acts
    exact ⟨honest, cancelled⟩

namespace Weaver

variable (weaver : Weaver)

/-- A run from one moment and its world to another. -/
inductive Comes (start : Moment) (first : World) : Moment → World → Prop
  | refl : Comes start first start first
  | step {moment next world} (comes : Comes start first moment world) (step : weaver.Proceeds moment next) :
    Comes start first next (moment.change world)

variable {weaver} {start moment next : Moment} {first : World}

theorem comes_of_leads (leads : weaver.Leads start moment) (first : World) :
    ∃ world, weaver.Comes start first moment world := by
  induction leads with
  | refl => exact ⟨first, .refl⟩
  | tail _ step ih =>
    obtain ⟨world, comes⟩ := ih
    exact ⟨_, comes.step step⟩

/-- The run of a call, in a world. -/
theorem comes_invoke (weaver : Weaver) (caller : Caller) (call : Call) (machine : Machine) (first : World) :
    let ended := (weaver.invoke caller call).run.run machine
    ∃ world, weaver.Comes (.start caller call machine) first ⟨ended.2, .done ended.1, []⟩ world :=
  comes_of_leads (weaver.leads_invoke caller call machine) first

theorem Comes.trans {middle : Moment} {between : World} (comes : weaver.Comes start first middle between)
    (rest : weaver.Comes middle between moment world) : weaver.Comes start first moment world := by
  induction rest with
  | refl => exact comes
  | step _ step ih => exact ih.step step

/-- A run that goes on at all goes on with a first step. -/
theorem Comes.head (comes : weaver.Comes start first moment world) :
    (start = moment ∧ first = world) ∨
      ∃ next, weaver.Proceeds start next ∧ weaver.Comes next (start.change first) moment world := by
  induction comes with
  | refl => exact .inl ⟨rfl, rfl⟩
  | step _ step ih =>
    rcases ih with ⟨rfl, rfl⟩ | ⟨next, begins, rest⟩
    · exact .inr ⟨_, step, .refl⟩
    · exact .inr ⟨next, begins, rest.step step⟩

/-- Nothing happens any more. -/
def Stops (weaver : Weaver) (moment : Moment) : Prop := ∀ next, ¬ weaver.Proceeds moment next

theorem stops_done (weaver : Weaver) (machine : Machine) (result : Except Fault Value) :
    weaver.Stops ⟨machine, .done result, []⟩ := by
  intro next step
  cases step with
  | acts acts => cases acts

/-- A run that stops has come through all moments that it can come to. -/
theorem Comes.through {middle : Moment} {between : World} (comes : weaver.Comes start first moment world)
    (stops : weaver.Stops moment) (other : weaver.Comes start first middle between) :
    weaver.Comes middle between moment world := by
  induction other with
  | refl => exact comes
  | step _ step ih =>
    rcases ih.head with ⟨rfl, -⟩ | ⟨next, begins, rest⟩
    · exact absurd step (stops _)
    · cases begins.unique step
      exact rest

/-- A run stops in one way. -/
theorem Comes.unique {other : Moment} {last : World} (comes : weaver.Comes start first moment world)
    (stops : weaver.Stops moment) (others : weaver.Comes start first other last)
    (otherStops : weaver.Stops other) : moment = other ∧ world = last := by
  rcases (others.through otherStops comes).head with same | ⟨next, begins, -⟩
  · exact same
  · exact absurd begins (stops next)

/-- What holds at the beginning and is kept by every step holds at every moment of a run. -/
theorem Comes.induction {holds : Moment → World → Prop} (comes : weaver.Comes start first moment world)
    (begins : holds start first)
    (each : ∀ moment next world, holds moment world → weaver.Proceeds moment next →
      holds next (moment.change world)) : holds moment world := by
  induction comes with
  | refl => exact begins
  | step _ step ih => exact each _ _ _ ih step

/-- Nothing is entered on a cancelled chain. -/
theorem going_of_entrant (weaver : Weaver) {call : Call} {machine : Machine} {member : MemberEntry}
    (enters : weaver.entrant call machine = .ok member) : machine.chain.cancelled = false := by
  have admits := (weaver.entrant_eq_ok_iff.mp enters).1
  cases flag : machine.chain.cancelled with
  | false => rfl
  | true => simp [flag, admitted] at admits

/-- One step keeps code honest. -/
theorem honest_of_proceeds (honest : weaver.Honest standard) (held : moment.Honest standard world)
    (step : weaver.Proceeds moment next) : next.Honest standard (moment.change world) := by
  obtain ⟨cancelled, focus, waiting⟩ := held
  cases step with
  | acts acts =>
    obtain ⟨running, flag⟩ := focus.after_act cancelled acts
    refine ⟨flag, running, fun pending waits later result before known => ?_⟩
    exact waiting pending waits later result ((Process.before_change _ _ world).trans before) known
  | @refuses _ _ _ _ _ fault =>
    exact ⟨cancelled, focus.2.2 world _ (.refl world) (Standard.known_fault fault), waiting⟩
  | @enters _ caller _ _ _ _ enters =>
    have held := List.mem_of_getElem? (weaver.member?_of_entrant enters)
    have going : world.cancelled = false := cancelled.symm.trans (weaver.going_of_entrant enters)
    exact ⟨cancelled, honest.invocationProcess held caller focus.2.1 going,
      List.forall_mem_cons.mpr ⟨focus.2.2, waiting⟩⟩
  | leaves =>
    obtain ⟨rest, others⟩ := List.forall_mem_cons.mp waiting
    exact ⟨cancelled, rest world _ (.refl world) focus, others⟩

/-- **Honest weavers stay honest** at every moment of a run. -/
theorem honest_of_comes (honest : weaver.Honest standard) (begins : start.Honest standard first)
    (comes : weaver.Comes start first moment world) : moment.Honest standard world :=
  comes.induction begins fun _ _ _ => honest_of_proceeds honest

end Weaver

end Weaving
