import Weaving.Proofs.Segments

/-!
What runs record. Code that records only events of a kind does so still when it has done the next thing, and
nothing but the code of invocations adds to a trace. So if the code of every invocation records only events of
a kind, there are no others in any trace (`Weaver.trace_of_leads`).
-/

namespace Weaving

variable {α β : Type} {own : Event → Prop}

namespace Process

/-- Code that records only events of a kind, whatever the calls from it come to. -/
def Records (own : Event → Prop) (process : Process α) : Prop :=
  ∀ failed, process.Keeps own (fun _ _ => True) failed

variable {process next : Process α} {machine after : Machine}

theorem Keeps.records {post : Bool → α → Prop} {failed : Bool} (keeps : process.Keeps own post failed) :
    process.Records own := fun already => keeps.regardless already

theorem Records.bind {rest : α → Process β} (start : process.Records own)
    (each : ∀ a, (rest a).Records own) : (process >>= rest).Records own :=
  fun failed => (start failed).bind fun failed a _ => each a failed

theorem Records.after_act (records : process.Records own)
    (acts : process.act? machine = some (after, next)) : next.Records own := by
  cases process with
  | done result => cases acts
  | call caller request rest => cases acts
  | record event rest =>
    cases acts
    exact fun failed => (records failed).2
  | emit line rest | cancel rest =>
    cases acts
    exact records
  | relation rest | poll rest | allocate type rest =>
    cases acts
    exact fun failed => records failed _

theorem Records.after_call {caller : Caller} {call : Call} {rest : Except Fault Value → Process α}
    (records : (Process.call caller call rest).Records own) (result : Except Fault Value) :
    (rest result).Records own := by
  cases result with
  | ok value => exact fun failed => (records failed).1 value
  | error fault => exact ((records false).2 fault).records

/-- Code adds to the trace only what it records. -/
theorem trace_of_act? (acts : process.act? machine = some (after, next)) :
    after.chain.trace = machine.chain.trace ∨
      ∃ event, process = .record event next ∧ after = machine.record event ∧
        after.chain.trace = machine.chain.trace ++ [event] := by
  cases process with
  | done result => cases acts
  | call caller request rest => cases acts
  | record event rest =>
    cases acts
    cases tracing : machine.chain.tracing with
    | true => exact Or.inr ⟨event, rfl, rfl, Chain.trace_record tracing event⟩
    | false => exact Or.inl (congrArg Chain.trace (if_neg (by simp [tracing])))
  | emit line rest | relation rest | poll rest | allocate type rest | cancel rest =>
    cases acts
    exact Or.inl rfl

end Process

/-- The end of an invocation is recorded, and before it perhaps a fault that is dropped. -/
theorem Conclusion.finish_records {member : MemberId} (conclusion : Conclusion)
    (exits : own (.exit member)) (faults : ∀ message, own (.fault member message)) :
    (conclusion.finish member).Records own := by
  obtain ⟨result, dropped⟩ := conclusion
  have closes (failed : Bool) : (Process.record (Weaver.closing member result) (.done result)).Keeps own
      (fun _ _ => True) failed := by
    cases result with
    | ok value => exact ⟨exits, trivial⟩
    | error fault => exact ⟨faults fault.message, trivial⟩
  cases dropped with
  | none => exact closes
  | some fault => exact fun failed => ⟨faults fault.message, closes failed⟩

namespace Weaver

variable {weaver : Weaver} {start moment before after : Moment}

/-- An invocation records that it enters its member and how it ends, and what its activation may record. -/
theorem invocationProcess_records {member : MemberEntry} (permits : weaver.Permits own member.id)
    (enters : ∀ classified relation variant, own (.enter member.id classified relation variant))
    (exits : own (.exit member.id)) (faults : ∀ message, own (.fault member.id message)) (caller : Caller)
    (call : Call) : (weaver.invocationProcess caller call member).Records own := by
  have finishes (conclusion : Conclusion) : (conclusion.finish member.id).Records own :=
    conclusion.finish_records exits faults
  cases selects : weaver.registry.select member (weaver.registry.classify caller call.receiver member)
    call.args with
  | error fault =>
    rw [invocationProcess_of_unfit selects]
    exact finishes _
  | ok selection =>
    have clear : weaver.Clear false := fun _ => rfl
    have entered : (weaver.enteredProcess member call selection).Records own :=
      (enteredProcess_keeps permits clear).records
    rw [invocationProcess_of_select selects]
    exact fun failed relation => ⟨enters _ relation _, entered.bind finishes failed⟩

theorem Proceeds.trace (step : weaver.Proceeds before after) :
    after.machine.chain.trace = before.machine.chain.trace ∨
      ∃ event next, before.focus = .record event next ∧
        after = ⟨before.machine.record event, next, before.underWay⟩ ∧
        after.machine.chain.trace = before.machine.chain.trace ++ [event] := by
  cases step with
  | acts acts =>
    rcases Process.trace_of_act? acts with same | ⟨event, records, rfl, trace⟩
    · exact Or.inl same
    · exact Or.inr ⟨event, _, records, rfl, trace⟩
  | refuses | enters | leaves => exact Or.inl rfl

/-- The code that is running and the callers that wait for it record only events of a kind. -/
structure Recording (own : Event → Prop) (moment : Moment) : Prop where
  focus : moment.focus.Records own
  waiting : ∀ pending ∈ moment.underWay, ∀ result, (pending.rest result).Records own

section Runs

variable (invocations : ∀ caller call member, (weaver.invocationProcess caller call member).Records own)
include invocations

theorem recording_of_proceeds (recording : Recording own before) (step : weaver.Proceeds before after) :
    Recording own after := by
  obtain ⟨focus, waiting⟩ := recording
  cases step with
  | acts acts => exact ⟨focus.after_act acts, waiting⟩
  | refuses => exact ⟨focus.after_call _, waiting⟩
  | enters => exact ⟨invocations _ _ _, List.forall_mem_cons.mpr ⟨focus.after_call, waiting⟩⟩
  | leaves =>
    obtain ⟨rest, others⟩ := List.forall_mem_cons.mp waiting
    exact ⟨rest _, others⟩

/-- **What runs record.** At every moment of a run the trace has been extended by events of the kind that the
code of invocations keeps to. -/
theorem trace_of_leads (recording : Recording own start) (leads : weaver.Leads start moment) :
    ∃ events, moment.machine.chain.trace = start.machine.chain.trace ++ events ∧ ∀ event ∈ events, own event := by
  have each (before after : Moment)
      (held : Recording own before ∧ ∃ events, before.machine.chain.trace = start.machine.chain.trace ++ events ∧
        ∀ event ∈ events, own event)
      (step : weaver.Proceeds before after) :
      Recording own after ∧ ∃ events, after.machine.chain.trace = start.machine.chain.trace ++ events ∧
        ∀ event ∈ events, own event := by
    obtain ⟨recording, events, trace, among⟩ := held
    refine ⟨recording_of_proceeds invocations recording step, ?_⟩
    rcases step.trace with same | ⟨event, next, records, -, extended⟩
    · exact ⟨events, same.trans trace, among⟩
    · have focus := recording.focus false
      rw [records] at focus
      refine ⟨events ++ [event], by rw [extended, trace, List.append_assoc], ?_⟩
      simpa [or_imp, forall_and] using ⟨among, focus.1⟩
  have first : Recording own start ∧ ∃ events,
      start.machine.chain.trace = start.machine.chain.trace ++ events ∧ ∀ event ∈ events, own event :=
    ⟨recording, [], (List.append_nil _).symm, nofun⟩
  exact (leads.induction first each).2

end Runs

/-- A call from outside has recorded nothing yet. -/
theorem recording_start (caller : Caller) (call : Call) (machine : Machine) :
    Recording own (.start caller call machine) where
  focus _ := ⟨fun _ => trivial, fun _ => trivial⟩
  waiting := by
    intro pending waits
    cases waits

end Weaver

end Weaving
