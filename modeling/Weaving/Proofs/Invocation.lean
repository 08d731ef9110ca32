import Weaving.Weaver.Invocation

/-!
Invocations as functions of the machine: who is admitted, and what an activation does to the machine around
the member that it runs.
-/

namespace Weaving

variable {α β : Type}

theorem Execution.run_bind (first : Execution α) (next : α → Execution β) (machine : Machine) :
    (first >>= next).run machine = (next (first.run machine).1).run (first.run machine).2 := rfl

theorem Attempt.run_bind (first : Attempt α) (next : α → Attempt β) (machine : Machine) :
    (first >>= next).run.run machine =
      match first.run.run machine with
      | (.ok a, after) => (next a).run.run after
      | (.error fault, after) => (.error fault, after) := by
  change (ExceptT.bindCont next (first.run.run machine).1).run (first.run.run machine).2 = _
  obtain ⟨result, after⟩ := first.run.run machine
  cases result <;> rfl

namespace Machine

/-- The machine with an event recorded. -/
def record (event : Event) (machine : Machine) : Machine :=
  { machine with chain := machine.chain.record event }

/-- The machine inside a call, under a frame of its own. -/
def enter (relation : RelationClass) (passthru : Bool) (machine : Machine) : Machine :=
  { machine with chain := machine.chain.enter relation passthru }

/-- The machine when its innermost invocation is over. -/
def leave (machine : Machine) : Machine := { machine with chain := machine.chain.leave }

end Machine

namespace Weaver

variable (weaver : Weaver) (calling : Calling)

/-- The member that a call is admitted to, on a chain that is cancelled or not. -/
def admitted (call : Call) (cancelled : Bool) : Except Fault MemberEntry :=
  if cancelled then .error .cancelled
  else
    match weaver.registry.member? call.target with
    | none => .error (.noSuchMember call.target.label)
    | some member =>
      if !member.isStatic && call.receiver.isNone then
        .error (.notAnInstance (weaver.registry.memberPath call.target))
      else .ok member

theorem run_screen (call : Call) (machine : Machine) :
    (weaver.screen call).run.run machine =
      (weaver.admitted call machine.chain.cancelled, machine) := by
  change (if machine.chain.cancelled = true then _ else _ : Attempt MemberEntry).run.run machine = _
  unfold admitted
  split
  · rfl
  cases weaver.registry.member? call.target with
  | none => rfl
  | some member =>
    change (if (!member.isStatic && call.receiver.isNone) = true then _ else _ :
      Attempt MemberEntry).run.run machine = (if _ then _ else _, machine)
    split <;> rfl

/-- Only members of the registry are admitted. -/
theorem member?_of_admitted {call : Call} {cancelled : Bool} {member : MemberEntry}
    (admits : weaver.admitted call cancelled = .ok member) :
    weaver.registry.member? call.target = some member := by
  unfold admitted at admits
  split at admits
  · cases admits
  cases found : weaver.registry.member? call.target with
  | none => simp [found] at admits
  | some entry =>
    simp only [found] at admits
    split at admits
    · cases admits
    · cases admits
      rfl

/-- An activation runs its member under a frame that is gone in the end. -/
theorem run_activate (caller : Caller) (call : Call) (member : MemberEntry) (machine : Machine) :
    (weaver.activate calling caller call member).run.run machine =
      let classified := weaver.registry.classify caller call.receiver member
      let (result, ended) := (weaver.runMember calling member classified call).run.run
        (machine.enter classified member.passthru)
      (result, (ended.record (closing member.id result)).leave) := rfl

/-- Calls beyond the greatest depth are refused if they are admitted at all. -/
theorem run_invokeWithin_zero (caller : Caller) (call : Call) (machine : Machine) :
    (weaver.invokeWithin 0 caller call).run.run machine =
      match weaver.admitted call machine.chain.cancelled with
      | .ok _ => (.error (.callDepthExceeded weaver.settings.maxDepth), machine)
      | .error fault => (.error fault, machine) := by
  unfold invokeWithin
  rw [Attempt.run_bind, run_screen]
  cases weaver.admitted call machine.chain.cancelled <;> rfl

theorem run_invokeWithin_succ (room : Nat) (caller : Caller) (call : Call) (machine : Machine) :
    (weaver.invokeWithin (room + 1) caller call).run.run machine =
      match weaver.admitted call machine.chain.cancelled with
      | .ok member => (weaver.activate (weaver.invokeWithin room) caller call member).run.run machine
      | .error fault => (.error fault, machine) := by
  unfold invokeWithin
  rw [Attempt.run_bind, run_screen]
  cases weaver.admitted call machine.chain.cancelled <;> rfl

/-- An invocation has room for as many others inside it as the chain has not used up. -/
theorem run_invoke (caller : Caller) (call : Call) (machine : Machine) :
    (weaver.invoke caller call).run.run machine =
      (weaver.invokeWithin (weaver.settings.maxDepth - machine.chain.depth) caller call).run.run
        machine := rfl

/-- A call on a chain of its own has all the room there is. -/
theorem run_callFrom (caller : Caller) (call : Call) (shared : Shared) :
    (weaver.callFrom caller call).run shared =
      let finished := (weaver.invokeWithin weaver.settings.maxDepth caller call).run.run
        { shared with chain := weaver.chain }
      (⟨finished.1, finished.2.chain.trace⟩, finished.2.toShared) := rfl

/-- On a cancelled chain no advice begins. -/
theorem run_runAdvice_of_cancelled {point : JoinPoint} {result : Option Value} {id : PointcutId}
    {machine : Machine} (cancelled : machine.chain.cancelled = true) :
    (weaver.runAdvice calling point result id).run.run machine = (.error .cancelled, machine) := by
  change (if machine.chain.cancelled = true then _ else _ : Attempt (Option Value)).run.run machine = _
  rw [cancelled]
  rfl

/-- Advice runs its body on a chain that is not cancelled, once it has been recorded. -/
theorem run_runAdvice_of_known {point : JoinPoint} {result : Option Value} {id : PointcutId}
    {pointcut : PointcutEntry} {machine : Machine} (going : machine.chain.cancelled = false)
    (known : weaver.registry.pointcut? id = some pointcut) :
    (weaver.runAdvice calling point result id).run.run machine =
      let (ending, after) := (weaver.runAdviceBody calling pointcut point result).run
        (machine.record (.advice pointcut.id pointcut.advice point.site))
      (adviceReturn pointcut point.site ending).run.run after := by
  change (if machine.chain.cancelled = true then _ else _ : Attempt (Option Value)).run.run machine = _
  rw [going, known]
  rfl

end Weaver

end Weaving
