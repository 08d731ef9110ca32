import Mathlib.Logic.Relation
import Weaving.Proofs.Process

/-!
Moments of a run. A run of an invocation is a sequence of moments: the machine, what the code that is
running has still to do, and the invocations under way, each with what its caller goes on with. From one
moment to the next the code does one thing, or an invocation begins or ends (`Weaver.Proceeds`), so that a
property of all moments is a property of the beginning that one step keeps. A run comes to what the
invocation comes to (`Weaver.leads_invoke`), and it always does: it cannot go deeper than the settings
allow, and the code of each invocation comes to an end (`Weaver.invoke_bounded`).
-/

namespace Weaving

variable {α : Type}

/-- An invocation under way. -/
structure Pending where
  caller : Caller
  call : Call
  member : MemberEntry
  /-- The machine when the call was made. -/
  origin : Machine
  /-- What the code that made the call goes on with. -/
  rest : Except Fault Value → Process (Except Fault Value)

structure Moment where
  machine : Machine
  /-- What the running code has still to do. -/
  focus : Process (Except Fault Value)
  /-- The invocations under way, innermost first. -/
  underWay : List Pending

/-- The moment at which a call is made from outside. -/
def Moment.start (caller : Caller) (call : Call) (machine : Machine) : Moment :=
  ⟨machine, .call caller call .done, []⟩

/-! ## Steps -/

/-- What code does next by itself, unless it is done or makes a call. -/
def Process.act? (machine : Machine) : Process α → Option (Machine × Process α)
  | .done _ | .call _ _ _ => none
  | .emit line next => some (((Execution.emit line).run machine).2, next)
  | .record event next => some (machine.record event, next)
  | .relation next => some (machine, next machine.chain.current)
  | .poll next => some (machine, next machine.chain.cancelled)
  | .allocate type next =>
    some (((Execution.allocate type).run machine).2, next ((Execution.allocate type).run machine).1)
  | .cancel next => some (((Execution.onChain Chain.cancel).run machine).2, next)

namespace Process

variable {process next : Process α} {machine after : Machine}

/-- Code by itself leaves the frames alone. -/
theorem frames_of_act? (acts : process.act? machine = some (after, next)) :
    after.chain.frames = machine.chain.frames := by
  cases process with
  | done result => cases acts
  | call caller request next => cases acts
  | record event next =>
    cases acts
    exact machine.chain.frames_record event
  | emit line next | relation next | poll next | allocate type next | cancel next =>
    cases acts
    rfl

theorem enact_of_act? (calling : Calling) (acts : process.act? machine = some (after, next)) :
    (process.enact calling).run machine = (next.enact calling).run after := by
  cases process <;> cases acts <;> rfl

end Process

namespace Weaver

variable (weaver : Weaver)

/-- The member that a call enters, if it is admitted and the chain is not at its greatest depth. -/
def entrant (call : Call) (machine : Machine) : Except Fault MemberEntry :=
  match weaver.admitted call machine.chain.cancelled with
  | .error fault => .error fault
  | .ok member =>
    if weaver.settings.maxDepth ≤ machine.chain.depth then
      .error (.callDepthExceeded weaver.settings.maxDepth)
    else .ok member

/-- The moment at which an invocation begins. -/
def entering (pending : Pending) (underWay : List Pending) : Moment where
  machine := pending.origin.enter
    (weaver.registry.classify pending.caller pending.call.receiver pending.member) pending.member.passthru
  focus := weaver.invocationProcess pending.caller pending.call pending.member
  underWay := pending :: underWay

/-- What happens from one moment to the next. -/
inductive Proceeds : Moment → Moment → Prop
  /-- The code that is running does something by itself. -/
  | acts {machine after process next underWay} (acts : process.act? machine = some (after, next)) :
    Proceeds ⟨machine, process, underWay⟩ ⟨after, next, underWay⟩
  /-- A call is not carried out. -/
  | refuses {machine caller call next underWay fault} (refuses : weaver.entrant call machine = .error fault) :
    Proceeds ⟨machine, .call caller call next, underWay⟩ ⟨machine, next (.error fault), underWay⟩
  | enters {machine caller call next underWay member} (enters : weaver.entrant call machine = .ok member) :
    Proceeds ⟨machine, .call caller call next, underWay⟩
      (weaver.entering ⟨caller, call, member, machine, next⟩ underWay)
  | leaves {machine result pending underWay} :
    Proceeds ⟨machine, .done result, pending :: underWay⟩ ⟨machine.leave, pending.rest result, underWay⟩

/-- One moment comes to another in a run. -/
def Leads : Moment → Moment → Prop := Relation.ReflTransGen weaver.Proceeds

variable {weaver}

/-- What happens next is determined. -/
theorem Proceeds.unique {moment first second : Moment} (one : weaver.Proceeds moment first)
    (other : weaver.Proceeds moment second) : first = second := by
  cases one with
  | acts acts =>
    cases other with
    | acts same =>
      cases acts.symm.trans same
      rfl
    | refuses => cases acts
    | enters => cases acts
    | leaves => cases acts
  | refuses refuses =>
    cases other with
    | acts acts => cases acts
    | refuses same =>
      cases refuses.symm.trans same
      rfl
    | enters enters => cases refuses.symm.trans enters
  | enters enters =>
    cases other with
    | acts acts => cases acts
    | refuses refuses => cases enters.symm.trans refuses
    | enters same =>
      cases enters.symm.trans same
      rfl
  | leaves =>
    cases other with
    | acts acts => cases acts
    | leaves => rfl

/-- What holds at the beginning and is kept by every step holds at every moment. -/
theorem Leads.induction {holds : Moment → Prop} {start moment : Moment} (leads : weaver.Leads start moment)
    (first : holds start) (each : ∀ before after, holds before → weaver.Proceeds before after → holds after) :
    holds moment := by
  induction leads with
  | refl => exact first
  | tail _ step ih => exact each _ _ ih step

variable (weaver)

/-! ## Runs come to what invocations come to -/

theorem run_invoke_eq_entrant (caller : Caller) (call : Call) (machine : Machine) :
    (weaver.invoke caller call).run.run machine =
      match weaver.entrant call machine with
      | .error fault => (.error fault, machine)
      | .ok member => (weaver.activate weaver.invoke caller call member).run.run machine := by
  rw [run_invoke_eq, entrant]
  cases weaver.admitted call machine.chain.cancelled with
  | error fault => rfl
  | ok member =>
    dsimp only
    split <;> rfl

theorem run_invoke_of_refusal {caller : Caller} {call : Call} {machine : Machine} {fault : Fault}
    (refuses : weaver.entrant call machine = .error fault) :
    (weaver.invoke caller call).run.run machine = (.error fault, machine) := by
  rw [run_invoke_eq_entrant, refuses]

/-- An invocation carries out its process under a frame. -/
theorem run_invoke_of_entrant (pending : Pending) (underWay : List Pending)
    (enters : weaver.entrant pending.call pending.origin = .ok pending.member) :
    (weaver.invoke pending.caller pending.call).run.run pending.origin =
      let began := weaver.entering pending underWay
      let (result, ended) := (began.focus.enact weaver.invoke).run began.machine
      (result, ended.leave) := by
  have code := weaver.enacts_invocationProcess weaver.invoke pending.caller pending.call pending.member
  rw [run_invoke_eq_entrant, enters]
  dsimp only [entering]
  rw [code]
  rfl

/-- A call enters a member if it is admitted and there is room for it. -/
theorem entrant_eq_ok_iff {call : Call} {machine : Machine} {member : MemberEntry} :
    weaver.entrant call machine = .ok member ↔
      weaver.admitted call machine.chain.cancelled = .ok member ∧
        machine.chain.depth < weaver.settings.maxDepth := by
  unfold entrant
  cases weaver.admitted call machine.chain.cancelled with
  | error fault => simp
  | ok admitted =>
    dsimp only
    split
    · have full : ¬ machine.chain.depth < weaver.settings.maxDepth := by omega
      simp [full]
    · have room : machine.chain.depth < weaver.settings.maxDepth := by omega
      simp [room]

theorem member?_of_entrant {call : Call} {machine : Machine} {member : MemberEntry}
    (enters : weaver.entrant call machine = .ok member) :
    weaver.registry.member? call.target = some member :=
  weaver.member?_of_admitted (weaver.entrant_eq_ok_iff.mp enters).1

theorem depth_of_entrant {call : Call} {machine : Machine} {member : MemberEntry}
    (enters : weaver.entrant call machine = .ok member) :
    machine.chain.depth < weaver.settings.maxDepth :=
  (weaver.entrant_eq_ok_iff.mp enters).2

/-- The moment at which some code has come to its end. -/
def ended (process : Process (Except Fault Value)) (machine : Machine) (underWay : List Pending) : Moment :=
  let (result, after) := (process.enact weaver.invoke).run machine
  ⟨after, .done result, underWay⟩

theorem ended_call {caller : Caller} {call : Call} {machine after : Machine} {result : Except Fault Value}
    (runs : (weaver.invoke caller call).run.run machine = (result, after))
    (next : Except Fault Value → Process (Except Fault Value)) (underWay : List Pending) :
    weaver.ended (.call caller call next) machine underWay = weaver.ended (next result) after underWay := by
  have code : ((Process.call caller call next).enact weaver.invoke).run machine =
      ((next ((weaver.invoke caller call).run.run machine).1).enact weaver.invoke).run
        ((weaver.invoke caller call).run.run machine).2 := rfl
  rw [ended, code, runs, ended]

/-- Code comes to its end, with the result and on the machine that it comes to when it is carried out. -/
theorem leads_ended (process : Process (Except Fault Value)) (machine : Machine)
    (underWay : List Pending) :
    weaver.Leads ⟨machine, process, underWay⟩ (weaver.ended process machine underWay) := by
  -- outside by the room that is left for nested calls, inside by the code
  induction room : weaver.settings.maxDepth - machine.chain.depth using Nat.strongRecOn
    generalizing process machine underWay with
  | ind room deeper =>
    induction process generalizing machine with
    | done result => exact .refl
    | emit line next ih => exact .head (.acts rfl) (ih _ room)
    | record event next ih =>
      refine .head (.acts rfl) (ih _ ?_)
      rw [← room]
      exact congrArg _ (congrArg List.length (machine.chain.frames_record event))
    | relation next ih => exact .head (.acts rfl) (ih _ machine room)
    | poll next ih => exact .head (.acts rfl) (ih _ machine room)
    | allocate type next ih => exact .head (.acts rfl) (ih _ _ room)
    | cancel next ih => exact .head (.acts rfl) (ih _ room)
    | call caller call next ih =>
      cases entrant : weaver.entrant call machine with
      | error fault =>
        rw [weaver.ended_call (weaver.run_invoke_of_refusal entrant)]
        exact .head (.refuses entrant) (ih _ machine room)
      | ok member =>
        have runs := weaver.run_invoke_of_entrant ⟨caller, call, member, machine, next⟩ underWay entrant
        have frames := (weaver.invoke_balanced caller call machine).1
        have shallow := weaver.depth_of_entrant entrant
        rw [runs] at frames
        rw [weaver.ended_call runs]
        have inside := deeper (weaver.settings.maxDepth - (machine.chain.depth + 1)) (by omega)
          (weaver.entering ⟨caller, call, member, machine, next⟩ underWay).focus
          (weaver.entering ⟨caller, call, member, machine, next⟩ underWay).machine
          (weaver.entering ⟨caller, call, member, machine, next⟩ underWay).underWay rfl
        refine .head (.enters entrant) (inside.trans (.head .leaves (ih _ _ ?_)))
        rw [← room]
        exact congrArg _ (congrArg List.length frames)

/-- **A run comes to what the invocation comes to.** -/
theorem leads_invoke (caller : Caller) (call : Call) (machine : Machine) :
    let (result, after) := (weaver.invoke caller call).run.run machine
    weaver.Leads (.start caller call machine) ⟨after, .done result, []⟩ := by
  have runs := weaver.leads_ended (.call caller call .done) machine []
  rw [weaver.ended_call rfl] at runs
  exact runs

end Weaver

end Weaving
