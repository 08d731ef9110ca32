import Weaving.Proofs.Conduct
import Weaving.Proofs.Moments

/-!
Traces are well bracketed. The events of an invocation form a segment: nothing if the call is refused, one
fault if its arguments do not fit, and otherwise what happens between entering the member and leaving it,
in which the calls from inside have segments of their own (`Segment`). Where bodies are prompt no fault is
swallowed: the segment of an invocation that comes to a value has no fault in it, however deep inside
(`invoke_segment`).
-/

namespace Weaving

variable {α : Type}

/-! ## Segments -/

/-- The faults of calls that are not carried out. -/
inductive Fault.Refusal : Fault → Prop
  | cancelled : Refusal .cancelled
  | noSuchMember (member : String) : Refusal (.noSuchMember member)
  | notAnInstance (member : String) : Refusal (.notAnInstance member)
  | callDepthExceeded (limit : Nat) : Refusal (.callDepthExceeded limit)

namespace Weaver

/-- A fault of advice that is dropped is recorded if another fault stays, and if the settings let advice
observe faults at all. -/
def Dropped (weaver : Weaver) (member : MemberId) (result : Except Fault Value)
    (events : List Event) : Prop :=
  events = [] ∨ weaver.settings.afterOnFault = true ∧ (∃ fault, result = .error fault) ∧
    ∃ message, events = [.fault member message]

/-- The event at the beginning of an invocation. -/
def entry (weaver : Weaver) (caller : Caller) (call : Call) (member : MemberEntry) (machine : Machine)
    (variant : Nat) : Event :=
  let classified := weaver.registry.classify caller call.receiver member
  .enter member.id classified (machine.enter classified member.passthru).chain.current variant

mutual

/-- The events of a call that is made on a machine. -/
inductive Segment (weaver : Weaver) :
    Machine → Caller → Call → Except Fault Value → List Event → Prop
  | refused {machine caller call fault} (refuses : weaver.entrant call machine = .error fault)
      (refusal : fault.Refusal) : Segment weaver machine caller call (.error fault) []
  /-- The arguments do not fit the member. -/
  | unfit {machine caller call member fault} (enters : weaver.entrant call machine = .ok member)
      (unfit : weaver.registry.select member (weaver.registry.classify caller call.receiver member)
        call.args = .error fault) :
      Segment weaver machine caller call (.error fault) [.fault member.id fault.message]
  | ran {machine caller call member selection events dropped result}
      (enters : weaver.entrant call machine = .ok member)
      (selects : weaver.registry.select member (weaver.registry.classify caller call.receiver member)
        call.args = .ok selection)
      (inside : Within weaver (machine.chain.frames.push
        (weaver.registry.classify caller call.receiver member) member.passthru) member.id events)
      (drops : weaver.Dropped member.id result dropped) :
      Segment weaver machine caller call result
        (weaver.entry caller call member machine selection.index ::
          (events ++ dropped ++ [closing member.id result]))

/-- Events inside the activation of a member that has these frames: its own, and the segments of the calls
that its code makes. -/
inductive Within (weaver : Weaver) : SecurityStack → MemberId → List Event → Prop
  | nil {frames member} : Within weaver frames member []
  | own {frames member event events} (inside : event.Inside member)
      (rest : Within weaver frames member events) : Within weaver frames member (event :: events)
  | nested {member machine caller call result segment events}
      (call : Segment weaver machine caller call result segment)
      (rest : Within weaver machine.chain.frames member events) :
      Within weaver machine.chain.frames member (segment ++ events)

end

end Weaver

/-- No event is that of a fault. -/
def Faultless (events : List Event) : Prop :=
  ∀ event ∈ events, ∀ member message, event ≠ .fault member message

theorem Faultless.nil : Faultless [] := fun _ none => nomatch none

theorem faultless_append {first second : List Event} :
    Faultless (first ++ second) ↔ Faultless first ∧ Faultless second := by
  simp only [Faultless, List.mem_append, or_imp, forall_and]

theorem Faultless.singleton {event : Event} (other : ∀ member message, event ≠ .fault member message) :
    Faultless [event] := by
  intro event only
  rw [List.mem_singleton.mp only]
  exact other

theorem Event.Inside.faultless {member : MemberId} {event : Event} (inside : event.Inside member) :
    Faultless [event] := by
  refine .singleton fun other message isFault => ?_
  rw [isFault] at inside
  exact inside

/-- Nothing is dropped in favour of a value. -/
theorem Weaver.Dropped.eq_nil {weaver : Weaver} {member : MemberId} {value : Value} {events : List Event}
    (drops : weaver.Dropped member (.ok value) events) : events = [] := by
  rcases drops with none | ⟨-, ⟨fault, isFault⟩, -⟩
  · exact none
  · cases isFault

/-! ## Traces -/

theorem Chain.trace_record {chain : Chain} (tracing : chain.tracing = true) (event : Event) :
    (chain.record event).trace = chain.trace ++ [event] := by
  rw [record, if_pos tracing]
  exact List.reverse_cons

/-- Work on a machine that is traced has recorded these events, and is traced still. -/
structure Machine.Extends (before after : Machine) (events : List Event) : Prop where
  trace : after.chain.trace = before.chain.trace ++ events
  tracing : after.chain.tracing = true

namespace Machine.Extends

variable {before between after : Machine} {first second : List Event}

theorem refl (tracing : before.chain.tracing = true) : before.Extends before [] :=
  ⟨(List.append_nil _).symm, tracing⟩

theorem trans (start : before.Extends between first) (rest : between.Extends after second) :
    before.Extends after (first ++ second) :=
  ⟨by rw [rest.trace, start.trace, List.append_assoc], rest.tracing⟩

/-- What leaves the trace alone may come before. -/
theorem of_trace_eq (same : between.chain.trace = before.chain.trace) (rest : between.Extends after first) :
    before.Extends after first :=
  ⟨by rw [rest.trace, same], rest.tracing⟩

theorem record (tracing : before.chain.tracing = true) (event : Event) :
    before.Extends (before.record event) [event] :=
  ⟨Chain.trace_record tracing event, (before.chain.tracing_record event).trans tracing⟩

end Machine.Extends

namespace Weaver

variable (weaver : Weaver)

/-- Calls from this machine have segments, and no faults in them if they come to values. -/
def CallsHaveSegments (machine : Machine) : Prop :=
  ∀ caller call, ∃ events,
    machine.Extends ((weaver.invoke caller call).run.run machine).2 events ∧
    Segment weaver machine caller call ((weaver.invoke caller call).run.run machine).1 events ∧
    ∀ value, ((weaver.invoke caller call).run.run machine).1 = .ok value → Faultless events

/-- What code has recorded inside an activation, and what it has come to. -/
structure Account (member : MemberId) (post : Bool → α → Prop) (failed : Bool) (machine : Machine)
    (reached : α × Machine) (events : List Event) (ended : Bool) : Prop where
  extended : machine.Extends reached.2 events
  within : Within weaver machine.chain.frames member events
  faultless : ended = false → failed = false ∧ Faultless events
  holds : post ended reached.1

variable {weaver}

namespace Account

variable {member : MemberId} {post : Bool → α → Prop} {failed ended : Bool} {machine after : Machine}
  {process next : Process α} {events : List Event}

/-- Something that is not recorded may happen before. -/
theorem after_act (acts : process.act? machine = some (after, next))
    (same : after.chain.trace = machine.chain.trace)
    (rest : weaver.Account member post failed after ((next.enact weaver.invoke).run after) events ended) :
    weaver.Account member post failed machine ((process.enact weaver.invoke).run machine) events ended := by
  rw [Process.enact_of_act? weaver.invoke acts]
  exact {
    extended := rest.extended.of_trace_eq same
    within := Process.frames_of_act? acts ▸ rest.within
    faultless := rest.faultless
    holds := rest.holds }

theorem after_record {event : Event} (inside : event.Inside member) (tracing : machine.chain.tracing = true)
    (rest : weaver.Account member post failed (machine.record event)
      ((next.enact weaver.invoke).run (machine.record event)) events ended) :
    weaver.Account member post failed machine
      (((Process.record event next).enact weaver.invoke).run machine) (event :: events) ended where
  extended := (Machine.Extends.record tracing event).trans rest.extended
  within := .own inside (machine.chain.frames_record event ▸ rest.within)
  faultless none :=
    ⟨(rest.faultless none).1, faultless_append.mpr ⟨inside.faultless, (rest.faultless none).2⟩⟩
  holds := rest.holds

/-- The segment of a call may come before. The call counts as failed if it does not come to a value. -/
theorem after_call {caller : Caller} {call : Call} {next : Except Fault Value → Process α}
    {result : Except Fault Value} {segment : List Event} {failing : Bool}
    (runs : (weaver.invoke caller call).run.run machine = (result, after))
    (extended : machine.Extends after segment) (isSegment : Segment weaver machine caller call result segment)
    (sound : failing = false → failed = false ∧ Faultless segment)
    (rest : weaver.Account member post failing after (((next result).enact weaver.invoke).run after) events
      ended) :
    weaver.Account member post failed machine
      (((Process.call caller call next).enact weaver.invoke).run machine) (segment ++ events) ended := by
  have code : ((Process.call caller call next).enact weaver.invoke).run machine =
      ((next ((weaver.invoke caller call).run.run machine).1).enact weaver.invoke).run
        ((weaver.invoke caller call).run.run machine).2 := rfl
  have balanced : after.chain.frames = machine.chain.frames := by
    have frames := (weaver.invoke_balanced caller call machine).1
    rwa [runs] at frames
  rw [code, runs]
  refine ⟨extended.trans rest.extended, .nested isSegment (balanced ▸ rest.within), fun none => ?_,
    rest.holds⟩
  obtain ⟨none, after⟩ := rest.faultless none
  exact ⟨(sound none).1, faultless_append.mpr ⟨(sound none).2, after⟩⟩

end Account

variable (weaver)

/-- What code records inside an activation, if the calls that it makes have segments. -/
theorem account_of_keeps {member : MemberId} {post : Bool → α → Prop} {frames : SecurityStack}
    (calls : ∀ machine : Machine, machine.chain.frames = frames → machine.chain.tracing = true →
      weaver.CallsHaveSegments machine)
    {process : Process α} {failed : Bool} (keeps : process.Keeps (Event.Inside member) post failed)
    (machine : Machine) (same : machine.chain.frames = frames) (tracing : machine.chain.tracing = true) :
    ∃ events ended, weaver.Account member post failed machine
      ((process.enact weaver.invoke).run machine) events ended := by
  induction process generalizing failed machine with
  | done result => exact ⟨[], failed, .refl tracing, .nil, fun none => ⟨none, .nil⟩, keeps⟩
  | emit line next ih =>
    obtain ⟨events, ended, rest⟩ := ih keeps ((Execution.emit line).run machine).2 same tracing
    exact ⟨events, ended, rest.after_act rfl rfl⟩
  | record event next ih =>
    obtain ⟨events, ended, rest⟩ := ih keeps.2 (machine.record event)
      ((machine.chain.frames_record event).trans same) ((machine.chain.tracing_record event).trans tracing)
    exact ⟨event :: events, ended, rest.after_record keeps.1 tracing⟩
  | relation next ih => exact ih _ (keeps machine.chain.current) machine same tracing
  | poll next ih => exact ih _ (keeps machine.chain.cancelled) machine same tracing
  | allocate type next ih =>
    obtain ⟨events, ended, rest⟩ := ih ((Execution.allocate type).run machine).1 (keeps _)
      ((Execution.allocate type).run machine).2 same tracing
    exact ⟨events, ended, rest.after_act rfl rfl⟩
  | cancel next ih =>
    obtain ⟨events, ended, rest⟩ :=
      ih keeps ((Execution.onChain Chain.cancel).run machine).2 same tracing
    exact ⟨events, ended, rest.after_act rfl rfl⟩
  | call caller call next ih =>
    obtain ⟨segment, extended, isSegment, sound⟩ := calls machine same tracing caller call
    have balanced := (weaver.invoke_balanced caller call machine).1.trans same
    rcases runs : (weaver.invoke caller call).run.run machine with ⟨result, after⟩
    rw [runs] at extended isSegment sound balanced
    cases result with
    | ok value =>
      obtain ⟨events, ended, rest⟩ := ih (.ok value) (keeps.1 value) after balanced extended.tracing
      exact ⟨_, ended, rest.after_call runs extended isSegment fun none => ⟨none, sound value rfl⟩⟩
    | error fault =>
      obtain ⟨events, ended, rest⟩ := ih (.error fault) (keeps.2 fault) after balanced extended.tracing
      refine ⟨_, ended, rest.after_call runs extended isSegment fun none => ?_⟩
      cases none

/-! ## Invocations -/

theorem refusal_of_admitted {call : Call} {cancelled : Bool} {fault : Fault}
    (refuses : weaver.admitted call cancelled = .error fault) : fault.Refusal := by
  unfold admitted at refuses
  split at refuses
  · cases refuses
    exact .cancelled
  · split at refuses
    · cases refuses
      exact .noSuchMember _
    · split at refuses
      · cases refuses
        exact .notAnInstance _
      · cases refuses

theorem refusal_of_entrant {call : Call} {machine : Machine} {fault : Fault}
    (refuses : weaver.entrant call machine = .error fault) : fault.Refusal := by
  unfold entrant at refuses
  split at refuses
  · rename_i admits
    cases refuses
    exact weaver.refusal_of_admitted admits
  · split at refuses
    · cases refuses
      exact .callDepthExceeded _
    · cases refuses

/-- What is recorded once the code of an activation has come to its conclusion. -/
theorem extends_finish {member : MemberId} {conclusion : Conclusion} {failed : Bool}
    (heeds : weaver.HeedsConclusion failed conclusion) {machine : Machine}
    (tracing : machine.chain.tracing = true) :
    ∃ dropped, weaver.Dropped member conclusion.result dropped ∧
      (((conclusion.finish member).enact weaver.invoke).run machine).1 = conclusion.result ∧
      machine.Extends (((conclusion.finish member).enact weaver.invoke).run machine).2
        (dropped ++ [closing member conclusion.result]) := by
  obtain ⟨result, dropped⟩ := conclusion
  cases dropped with
  | none => exact ⟨[], Or.inl rfl, rfl, .record tracing _⟩
  | some fault =>
    obtain ⟨follows, isFault⟩ := heeds.dropped fault rfl
    have first := Machine.Extends.record tracing (.fault member fault.message)
    exact ⟨_, Or.inr ⟨follows, isFault, fault.message, rfl⟩, rfl, first.trans (.record first.tracing _)⟩

/-- What is recorded around the code of an activation that comes to a value has no faults in it. -/
theorem faultless_of_account (prompt : weaver.Prompt) {member : MemberId} {machine : Machine}
    {reached : Conclusion × Machine} {events dropped : List Event} {failed : Bool}
    (account : weaver.Account member weaver.HeedsConclusion false machine reached events failed)
    {value : Value} (isValue : reached.1.result = .ok value)
    (drops : weaver.Dropped member reached.1.result dropped) (classified relation : RelationClass)
    (variant : Nat) :
    Faultless ([.enter member classified relation variant] ++ events ++
      (dropped ++ [closing member reached.1.result])) := by
  have heeds := account.holds.result
  rw [isValue] at heeds drops ⊢
  have none := drops.eq_nil
  have inside := (account.faultless (heeds prompt)).2
  rw [none, faultless_append, faultless_append]
  exact ⟨⟨.singleton nofun, inside⟩, .singleton nofun⟩

/-- The events of an invocation that enters its member, if the calls from inside have segments. -/
theorem segment_of_entrant (prompt : weaver.Prompt) {caller : Caller} {call : Call} {machine : Machine}
    {member : MemberEntry} (enters : weaver.entrant call machine = .ok member)
    (tracing : machine.chain.tracing = true) :
    let began := machine.enter (weaver.registry.classify caller call.receiver member) member.passthru
    let reached := ((weaver.invocationProcess caller call member).enact weaver.invoke).run began
    (∀ inside : Machine, inside.chain.frames = began.chain.frames → inside.chain.tracing = true →
      weaver.CallsHaveSegments inside) →
    ∃ events, began.Extends reached.2 events ∧ Segment weaver machine caller call reached.1 events ∧
      ∀ value, reached.1 = .ok value → Faultless events := by
  intro began reached calls
  have began_tracing : began.chain.tracing = true := tracing
  cases selects : weaver.registry.select member
    (weaver.registry.classify caller call.receiver member) call.args with
  | error fault =>
    have runs : reached = (.error fault, began.record (closing member.id (.error fault))) := by
      simp only [reached, invocationProcess_of_unfit selects]
      rfl
    rw [runs]
    exact ⟨_, .record began_tracing _, .unfit enters selects, nofun⟩
  | ok selection =>
    let entered := began.record (weaver.entry caller call member machine selection.index)
    let ended := ((weaver.enteredProcess member call selection).enact weaver.invoke).run entered
    have runs : reached = ((ended.1.finish member.id).enact weaver.invoke).run ended.2 := by
      simp only [reached, invocationProcess_of_select selects, Process.enact, Process.enact_bind]
      rfl
    have enter := Machine.Extends.record began_tracing
      (weaver.entry caller call member machine selection.index)
    have clear : weaver.Clear false := fun _ => rfl
    obtain ⟨events, failed, account⟩ := weaver.account_of_keeps calls
      (enteredProcess_keeps (weaver.permits_inside member.id) clear) entered
      (began.chain.frames_record _) enter.tracing
    obtain ⟨dropped, drops, result, finish⟩ :=
      weaver.extends_finish account.holds account.extended.tracing
    rw [← runs] at result finish
    have bracketed : [weaver.entry caller call member machine selection.index] ++ events ++
        (dropped ++ [closing member.id ended.1.result]) =
        weaver.entry caller call member machine selection.index ::
          (events ++ dropped ++ [closing member.id ended.1.result]) := by simp
    refine ⟨_, (enter.trans account.extended).trans finish, ?_, fun value isValue => ?_⟩
    · rw [bracketed, result]
      have frames : entered.chain.frames = began.chain.frames := began.chain.frames_record _
      have within := account.within
      rw [frames] at within
      exact .ran enters selects within drops
    · rw [result] at isValue
      exact weaver.faultless_of_account prompt account isValue drops _ _ _

/-- Every call from a machine that is traced has its segment. -/
theorem callsHaveSegments (prompt : weaver.Prompt) (machine : Machine)
    (tracing : machine.chain.tracing = true) : weaver.CallsHaveSegments machine := by
  induction room : weaver.settings.maxDepth - machine.chain.depth using Nat.strongRecOn
    generalizing machine with
  | ind room deeper =>
    intro caller call
    cases entrant : weaver.entrant call machine with
    | error fault =>
      rw [weaver.run_invoke_of_refusal entrant]
      exact ⟨[], .refl tracing, .refused entrant (weaver.refusal_of_entrant entrant), nofun⟩
    | ok member =>
      have shallow := weaver.depth_of_entrant entrant
      obtain ⟨events, extended, isSegment, sound⟩ :=
        weaver.segment_of_entrant prompt entrant tracing fun inside same tracing => by
          have deep := congrArg List.length same
          change inside.chain.depth = machine.chain.depth + 1 at deep
          exact deeper _ (by omega) inside tracing rfl
      rw [weaver.run_invoke_of_entrant ⟨caller, call, member, machine, .done⟩ [] entrant]
      exact ⟨events, ⟨extended.trace, extended.tracing⟩, isSegment, sound⟩

/-- **Traces are well bracketed, and faults are never swallowed.** In a program of scripts the events that
an invocation adds to the trace form its segment, and if it comes to a value, there is no fault among them.
-/
theorem invoke_segment {model : Model} (accepted : Program.build model.toDeclarations model.bindings =
    .ok weaver.toProgram) (caller : Caller) (call : Call) (machine : Machine)
    (tracing : machine.chain.tracing = true) :
    ∃ events, ((weaver.invoke caller call).run.run machine).2.chain.trace = machine.chain.trace ++ events ∧
      Segment weaver machine caller call ((weaver.invoke caller call).run.run machine).1 events ∧
      ∀ value, ((weaver.invoke caller call).run.run machine).1 = .ok value → Faultless events := by
  obtain ⟨events, extended, isSegment, sound⟩ :=
    weaver.callsHaveSegments (Program.prompt_of_build accepted) machine tracing caller call
  exact ⟨events, extended.trace, isSegment, sound⟩

/-- A clerk who is watched, and who asks for something that is locked away. -/
def clerk : Model where
  modules := [⟨"bank"⟩]
  types := [{ name := "Clerk", module := "bank" }]
  members :=
    [{ owner := "Clerk", name := "Serve", isStatic := true, body := some "serve" },
      { owner := "Clerk", name := "Fetch", isStatic := true, body := some "fetch" }]
  aspects := [{ name := "Log", module := "bank" }]
  pointcuts := [{ advice := .before, pattern := "Serve", body := "note", owner := .aspect "Log" }]
  scripts :=
    [("fetch", [.fault "locked"]), ("note", []),
      ("serve", [.call "Fetch" .static false [] none, .emit "done"])]

/-- The fault from inside is that of the whole. -/
theorem invoke_segment_clerk :
    ∃ program, Program.build clerk.toDeclarations clerk.bindings = .ok program ∧
      ∃ events, Segment ⟨program, {}⟩ { chain := { tracing := true } } .external ⟨⟨0⟩, none, []⟩
          (invoke ⟨program, {}⟩ .external ⟨⟨0⟩, none, []⟩ |>.run.run { chain := { tracing := true } }).1
          events ∧
        events = [.enter ⟨0⟩ .external .external 0, .advice ⟨0⟩ .before (.entry ⟨0⟩),
          .enter ⟨1⟩ .sameTypeDifferentInstance .sameTypeDifferentInstance 0, .fault ⟨1⟩ "locked",
          .fault ⟨0⟩ "locked"] := by
  have runs : (Program.build clerk.toDeclarations clerk.bindings).toOption.map (fun program =>
      ((invoke ⟨program, {}⟩ .external ⟨⟨0⟩, none, []⟩).run.run
        { chain := { tracing := true } }).2.chain.trace) =
      some [.enter ⟨0⟩ .external .external 0, .advice ⟨0⟩ .before (.entry ⟨0⟩),
        .enter ⟨1⟩ .sameTypeDifferentInstance .sameTypeDifferentInstance 0, .fault ⟨1⟩ "locked",
        .fault ⟨0⟩ "locked"] := by
    decide +kernel
  obtain ⟨program, built, recorded⟩ := Program.exists_of_run runs
  have accepted : Program.build clerk.toDeclarations clerk.bindings =
      .ok (Weaver.toProgram ⟨program, {}⟩) := built
  obtain ⟨events, trace, isSegment, -⟩ := invoke_segment ⟨program, {}⟩ accepted .external ⟨⟨0⟩, none, []⟩
    { chain := { tracing := true } } rfl
  exact ⟨program, built, events, isSegment, trace.symm.trans recorded⟩

end Weaver

end Weaving
