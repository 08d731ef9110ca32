import Weaving.Proofs.Agreement

/-!
Security frames are balanced. Whatever an invocation does and however it ends, it leaves the frames as they
were and only adds to the trace (`invoke_balanced`). Two things follow. The number of invocations under way
can be read off the chain, so that the calls from inside an activation are invocations like any other
(`run_invoke_eq`). And the relation in force does not change while the code of one activation runs: that code
does the same if it is told the relation once instead of asking for it at every step.
-/

namespace Weaving

variable {α : Type}

/-! ## Machines with the same frames -/

namespace Bond

/-- Both runs are on the same machine, with these frames and at least this history. -/
def within (frames : SecurityStack) (history : List Event) : Bond := fun left right =>
  left = right ∧ left.chain.frames = frames ∧ history <:+ left.chain.history

variable (frames : SecurityStack) (history : List Event)

theorem within_kept : (within frames history).Kept where
  cancelled bonded := by rw [bonded.1]
  current bonded := by rw [bonded.1]
  nextObject bonded := by rw [bonded.1]
  record := by
    rintro left _ ⟨rfl, same, older⟩ event
    exact ⟨rfl, (left.chain.frames_record event).trans same,
      older.trans (left.chain.history_suffix_record event)⟩
  emit := by rintro left _ ⟨rfl, same, older⟩ line; exact ⟨rfl, same, older⟩
  allocate := by rintro left _ ⟨rfl, same, older⟩ type; exact ⟨rfl, same, older⟩

theorem within_cancel (left right : Machine) (bonded : within frames history left right) :
    within frames history ((Execution.onChain Chain.cancel).run left).2
      ((Execution.onChain Chain.cancel).run right).2 := by
  obtain ⟨rfl, same, older⟩ := bonded
  exact ⟨rfl, same, older⟩

end Bond

/-- Across such a bond agreement is equality on one machine, whose frames stay. -/
theorem Execution.agree_within_iff {frames : SecurityStack} {history : List Event}
    {first second : Execution α} :
    Agree (Bond.within frames history) first second ↔
      ∀ machine : Machine, machine.chain.frames = frames → history <:+ machine.chain.history →
        first.run machine = second.run machine ∧ (first.run machine).2.chain.frames = frames ∧
          history <:+ (first.run machine).2.chain.history := by
  constructor
  · intro agree machine same older
    obtain ⟨result, ended, kept⟩ := agree machine machine ⟨rfl, same, older⟩
    exact ⟨Prod.ext result ended, kept⟩
  · rintro equal machine _ ⟨rfl, same, older⟩
    obtain ⟨run, kept⟩ := equal machine same older
    exact ⟨congrArg Prod.fst run, congrArg Prod.snd run, kept⟩

/-- Work that agrees does the same on one machine. -/
theorem Execution.Agree.run_eq {machine : Machine} {first second : Execution α}
    (agree : Agree (Bond.within machine.chain.frames machine.chain.history) first second) :
    first.run machine = second.run machine :=
  (agree_within_iff.mp agree machine rfl List.suffix_rfl).1

/-! ## Actions that are told the relation -/

/-- The action that is told the relation in force instead of asking for it. -/
def Action.answering (relation : RelationClass) : Action α → Action α
  | .done result => .done result
  | .emit line next => .emit line (next.answering relation)
  | .relation next => (next relation).answering relation
  | .call request next => .call request fun result => (next result).answering relation
  | .join name args next => .join name args fun result => (next result).answering relation
  | .allocate type next => .allocate type fun object => (next object).answering relation
  | .poll next => .poll fun cancelled => (next cancelled).answering relation
  | .cancel next => .cancel (next.answering relation)

/-- The weaver whose bodies are told the relation in force. -/
def Weaver.answering (weaver : Weaver) (relation : RelationClass) : Weaver :=
  weaver.withBodies (weaver.bodies.map fun body context => (body context).answering relation)

theorem Weaver.body_answering (weaver : Weaver) (relation : RelationClass) (id : BodyId)
    (context : Context) :
    (weaver.answering relation).body id context = (weaver.body id context).answering relation := by
  simp only [Program.body, answering, withBodies, List.getElem?_map]
  cases weaver.bodies[id.index]? <;> rfl

theorem Activity.perform_answering_agree {frames : SecurityStack} {history : List Event}
    {call other : Call → Attempt Value} {join arrive : Join}
    (hosts : HostsAgree (Bond.within frames history) call other join arrive) (action : Action α) :
    Agree (Bond.within frames history) (perform call join action)
      (perform other arrive (action.answering frames.current)) := by
  have kept := Bond.within_kept frames history
  induction action with
  | done result => exact Agree.pure result
  | emit line next ih => exact (Agree.lift (Execution.emit_agree kept line)).bind fun _ => ih
  | relation next ih =>
    -- the answer is known from the bond, so only one side asks
    rintro visits left right ⟨rfl, same, older⟩
    have answer : left.chain.current = frames.current := by rw [← same]; rfl
    change (((perform call join (next left.chain.current)).run visits).run left).1 = _ ∧
      Bond.within frames history (((perform call join (next left.chain.current)).run visits).run left).2 _
    rw [answer]
    exact ih frames.current visits left left ⟨rfl, same, older⟩
  | call request next ih => exact (Agree.lift (hosts.call request)).bind ih
  | join name args next ih => exact (hosts.join name args).bind ih
  | allocate type next ih => exact (Agree.lift (Execution.allocate_agree kept type)).bind ih
  | poll next ih =>
    refine chain_agree kept fun left right cancelled _ => ?_
    rw [cancelled]
    exact ih _
  | cancel next ih =>
    have cancels : Agree (Bond.within frames history) (liftM (Execution.onChain Chain.cancel))
        (liftM (Execution.onChain Chain.cancel)) :=
      Agree.lift fun left right bonded =>
        ⟨rfl, Bond.within_cancel frames history left right bonded⟩
    exact cancels.bind fun _ => ih

namespace Weaver

variable (weaver : Weaver) {calling other : Calling} {frames : SecurityStack} {history : List Event}

theorem bodies_agree : weaver.BodiesAgree (Bond.within frames history) weaver.bodies :=
  fun id context _ _ _ _ hosts =>
    Activity.perform_agree (Bond.within_kept frames history) hosts (weaver.body id context)
      (Or.inr (Bond.within_cancel frames history))

theorem code_agrees :
    weaver.CodeAgrees (Bond.within frames history) weaver.registry.plans weaver.bodies :=
  weaver.bodies_agree.code (Bond.within_kept frames history)

theorem answering_bodies_agree : weaver.BodiesAgree (Bond.within frames history)
    (weaver.bodies.map fun body context => (body context).answering frames.current) := by
  intro id context call other join arrive hosts
  have told := weaver.body_answering frames.current id context
  change Activity.Agree _ _ (Activity.perform other arrive ((weaver.answering frames.current).body id context))
  rw [told]
  exact Activity.perform_answering_agree hosts _

/-! ## Invocations -/

/-- A call pushes one frame, and it is popped again. -/
theorem within_nested (history : List Event) :
    Nested (Bond.within · history) (fun frames relation passthru => frames.push relation passthru) where
  kept frames := Bond.within_kept frames history
  depth bonded := by rw [bonded.1]
  enter := by rintro frames left _ ⟨rfl, rfl, older⟩ relation passthru; exact ⟨rfl, rfl, older⟩
  leave := by
    rintro frames left _ relation passthru ⟨rfl, pushed, older⟩
    exact ⟨rfl, congrArg List.tail pushed, older⟩

theorem invoke_balanced_agree : CallsAgree (Bond.within frames history) weaver.invoke weaver.invoke :=
  invoke_agree (within_nested history) (fun _ => weaver.code_agrees) frames

/-- From as deep inside as these frames are, an invocation has this much room. -/
theorem invokeWithin_invoke_agree {room : Nat}
    (deep : weaver.settings.maxDepth - frames.length = room) :
    CallsAgree (Bond.within frames history) (weaver.invokeWithin room) weaver.invoke := by
  subst deep
  rintro caller call machine _ ⟨rfl, rfl, older⟩
  exact invokeWithin_agree (within_nested history) (fun _ => weaver.code_agrees) _ machine.chain.frames
    caller call machine machine ⟨rfl, rfl, older⟩

/-- **The equation of invocations.** A call that is admitted is refused at the greatest depth; otherwise it
is carried out under a frame of its own, and the calls that it makes are invocations in turn. -/
theorem run_invoke_eq (caller : Caller) (call : Call) (machine : Machine) :
    (weaver.invoke caller call).run.run machine =
      match weaver.admitted call machine.chain.cancelled with
      | .error fault => (.error fault, machine)
      | .ok member =>
        if weaver.settings.maxDepth ≤ machine.chain.depth then
          (.error (.callDepthExceeded weaver.settings.maxDepth), machine)
        else (weaver.activate weaver.invoke caller call member).run.run machine := by
  rw [run_invoke]
  cases left : weaver.settings.maxDepth - machine.chain.depth with
  | zero =>
    rw [run_invokeWithin_zero]
    cases weaver.admitted call machine.chain.cancelled with
    | error fault => rfl
    | ok member => exact (if_pos (by omega)).symm
  | succ room =>
    rw [run_invokeWithin_succ]
    cases weaver.admitted call machine.chain.cancelled with
    | error fault => rfl
    | ok member =>
      have deeper : weaver.settings.maxDepth - (machine.chain.frames.push
          (weaver.registry.classify caller call.receiver member) member.passthru).length = room := by
        change weaver.settings.maxDepth - (machine.chain.depth + 1) = room
        omega
      have nested : Attempt.Agree (Bond.within machine.chain.frames machine.chain.history)
          (weaver.activate (weaver.invokeWithin room) caller call member)
          (weaver.activate weaver.invoke caller call member) :=
        activate_agree (within_nested _) caller call member weaver.code_agrees
          (weaver.invokeWithin_invoke_agree deeper)
      exact (Execution.Agree.run_eq nested).trans (if_neg (by omega)).symm

/-- The code of an activation does the same if it is told the relation in force. -/
theorem runMember_answering (member : MemberEntry) (classified : RelationClass) (call : Call)
    (machine : Machine) :
    (weaver.runMember weaver.invoke member classified call).run.run machine =
      ((weaver.answering machine.chain.current).runMember weaver.invoke member classified call).run.run
        machine :=
  have kept := Bond.within_kept machine.chain.frames machine.chain.history
  Execution.Agree.run_eq (runMember_agree kept (weaver.answering_bodies_agree.code kept)
    weaver.invoke_balanced_agree member classified call)

/-- **Frames are balanced.** However an invocation ends, it leaves the frames that it found and only adds to
the trace; and inside any activation the relation in force is the same at every step, so that the code of
the activation (its defaults, its advice and its body) may as well be told it once. -/
theorem invoke_balanced (caller : Caller) (call : Call) (machine : Machine) :
    ((weaver.invoke caller call).run.run machine).2.chain.frames = machine.chain.frames ∧
    machine.chain.trace <+: ((weaver.invoke caller call).run.run machine).2.chain.trace ∧
    ∀ (member : MemberEntry) (classified : RelationClass) (nested : Call) (inside : Machine),
      (weaver.runMember weaver.invoke member classified nested).run.run inside =
        ((weaver.answering inside.chain.current).runMember weaver.invoke member classified
          nested).run.run inside := by
  obtain ⟨-, same, longer⟩ := Execution.agree_within_iff.mp (weaver.invoke_balanced_agree caller call)
    machine rfl List.suffix_rfl
  exact ⟨same, List.reverse_prefix.mpr longer, weaver.runMember_answering⟩

end Weaver

end Weaving
