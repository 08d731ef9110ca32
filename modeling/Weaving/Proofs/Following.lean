import Weaving.Proofs.Histories
import Weaving.Proofs.Telling

/-!
Runs of bodies that tell. A weaver whose bodies tell comes through the same moments as one whose bodies do not,
with the same machine and in the same world, apart from the moments at which something is said to nobody
(`Weaver.Comes.follow`). So its invocations come to the same, with the same effect (`Weaver.invoke_told`).
-/

namespace Weaving

variable {nobody : MemberId}

/-- The caller that waits for the first invocation goes on like that of the second, apart from what it says to
nobody. -/
def Pending.Tells (nobody : MemberId) (pending other : Pending) : Prop :=
  ∀ result, (pending.rest result).Tells nobody (other.rest result)

/-- The first moment is like the second, apart from what the code that is running and the callers that wait
say to nobody. -/
structure Moment.Tells (nobody : MemberId) (moment other : Moment) : Prop where
  machine : moment.machine = other.machine
  focus : moment.focus.Tells nobody other.focus
  waiting : List.Forall₂ (Pending.Tells nobody) moment.underWay other.underWay

namespace Weaver

variable {weaver : Weaver} {others : List Body}

/-- What is said to a member that does not exist is not carried out. -/
theorem entrant_of_unheard (weaver : Weaver) {call : Call} (unheard : call.target = weaver.registry.nowhere)
    (machine : Machine) : ∃ fault, weaver.entrant call machine = .error fault := by
  cases entrant : weaver.entrant call machine with
  | error fault => exact ⟨fault, rfl⟩
  | ok member =>
    have found := weaver.member?_of_entrant entrant
    rw [unheard, weaver.registry.member?_nowhere] at found
    cases found

section Runs

variable (told : weaver.Told others)
include told

/-- What the code does next, telling code does after it has said what it has to say. -/
theorem proceeds_told {process telling : Process (Except Fault Value)}
    (tells : telling.Tells weaver.registry.nowhere process) {machine : Machine}
    {underWay waiting : List Pending}
    (waits : List.Forall₂ (Pending.Tells weaver.registry.nowhere) waiting underWay) {next : Moment}
    (step : weaver.Proceeds ⟨machine, process, underWay⟩ next) (world : World) :
    ∃ after, (weaver.withBodies others).Comes ⟨machine, telling, waiting⟩ world after
        (process.change machine world) ∧ after.Tells weaver.registry.nowhere next := by
  -- by what the telling code still says before it does the same
  induction tells with
  | done result =>
    cases step with
    | acts acts => cases acts
    | leaves =>
      cases waits with
      | cons rest waits => exact ⟨_, .step .refl .leaves, rfl, rest result, waits⟩
  | emit _ rest | record _ rest | cancel rest =>
    cases step with
    | acts acts =>
      cases acts
      exact ⟨_, .step .refl (.acts rfl), rfl, rest, waits⟩
  | relation rest | poll rest | allocate _ rest =>
    cases step with
    | acts acts =>
      cases acts
      exact ⟨_, .step .refl (.acts rfl), rfl, rest _, waits⟩
  | call caller request rest =>
    cases step with
    | acts acts => cases acts
    | refuses refuses => exact ⟨_, .step .refl (.refuses refuses), rfl, rest _, waits⟩
    | @enters _ _ _ _ _ member enters =>
      have inside := invocationProcess_tells told caller request member
      exact ⟨_, .step .refl (.enters enters), rfl, inside, .cons rest waits⟩
  | @tell caller request unheard telling process rest ih =>
    obtain ⟨fault, refuses⟩ := (weaver.withBodies others).entrant_of_unheard unheard machine
    obtain ⟨after, comes, tells⟩ := ih (.error fault) step
    have said : (weaver.withBodies others).Comes ⟨machine, .call caller request telling, waiting⟩ world
        ⟨machine, telling (.error fault), waiting⟩ world := .step .refl (.refuses refuses)
    exact ⟨after, said.trans comes, tells⟩

/-- **Telling runs come through the same moments.** -/
theorem Comes.follow {start moment other : Moment} {first world : World}
    (comes : weaver.Comes start first moment world) (tells : other.Tells weaver.registry.nowhere start) :
    ∃ after, (weaver.withBodies others).Comes other first after world ∧
      after.Tells weaver.registry.nowhere moment := by
  induction comes with
  | refl => exact ⟨other, .refl, tells⟩
  | step _ step ih =>
    obtain ⟨⟨machine, telling, waiting⟩, reached, same, focus, waits⟩ := ih
    cases same
    obtain ⟨after, goes, tells⟩ := proceeds_told told focus waits step _
    exact ⟨after, reached.trans goes, tells⟩

omit told in
/-- Telling code ends when it has said the last. -/
theorem comes_done {telling process : Process (Except Fault Value)}
    (tells : telling.Tells weaver.registry.nowhere process) {result : Except Fault Value}
    (done : process = .done result) (machine : Machine) (world : World) :
    (weaver.withBodies others).Comes ⟨machine, telling, []⟩ world ⟨machine, .done result, []⟩ world := by
  induction tells with
  | done _ =>
    cases done
    exact .refl
  | @tell caller request unheard telling process rest ih =>
    obtain ⟨fault, refuses⟩ := (weaver.withBodies others).entrant_of_unheard unheard machine
    have said : (weaver.withBodies others).Comes ⟨machine, .call caller request telling, []⟩ world
        ⟨machine, telling (.error fault), []⟩ world := .step .refl (.refuses refuses)
    exact said.trans (ih (.error fault) done)
  | _ => cases done

/-- An invocation ends on the same machine and in the same world. -/
theorem Comes.follow_done {caller : Caller} {call : Call} {machine after : Machine}
    {result : Except Fault Value} {first world : World}
    (comes : weaver.Comes (.start caller call machine) first ⟨after, .done result, []⟩ world) :
    (weaver.withBodies others).Comes (.start caller call machine) first ⟨after, .done result, []⟩ world := by
  obtain ⟨⟨machine, telling, waiting⟩, reached, same, focus, waits⟩ := comes.follow told ⟨rfl, .refl _, .nil⟩
  cases same
  cases waits
  exact reached.trans (comes_done focus rfl _ world)

/-- **Telling makes no difference to invocations.** -/
theorem invoke_told : (weaver.withBodies others).invoke = weaver.invoke := by
  funext caller call
  refine ExceptT.ext (StateT.ext fun machine => ?_)
  obtain ⟨world, comes⟩ := weaver.comes_invoke caller call machine {}
  obtain ⟨last, telling⟩ := (weaver.withBodies others).comes_invoke caller call machine {}
  have same := (telling.unique (stops_done _ _ _) (comes.follow_done told) (stops_done _ _ _)).1
  have results := congrArg Moment.focus same
  have machines := congrArg Moment.machine same
  exact Prod.ext (Process.done.inj results) machines

end Runs

end Weaver

end Weaving
