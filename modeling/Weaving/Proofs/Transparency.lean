import Weaving.Proofs.Depth
import Weaving.Proofs.Records
import Weaving.Proofs.Selections

/-!
Members that pass their callers through are transparent. At every moment of a run the relation in force is
that of the innermost call under way to any other member, as if the frames of such members were not there
(`Weaver.inForce`). An event of entering a member goes back to a call that was made in the run, and tells
its own relation, which selects the variant and masks the arguments, from the one that is in force inside
(`Weaver.invoke_transparent`).
-/

namespace Weaving

/-- The frames without those of members that pass their callers through. -/
def SecurityStack.proper (stack : SecurityStack) : SecurityStack := stack.filter (!·.passthru)

/-- The event of entering a member. -/
def Event.IsEnter : Event → Prop
  | .enter _ _ _ _ => True
  | _ => False

namespace Weaver

variable (weaver : Weaver)

/-! ## The relation in force -/

/-- The relation of the call that an invocation under way goes back to. -/
def classified (pending : Pending) : RelationClass :=
  weaver.registry.classify pending.caller pending.call.receiver pending.member

/-- The relation of the innermost call under way to a member that does not pass its caller through. -/
def inForce (underWay : List Pending) : RelationClass :=
  ((underWay.find? (!·.member.passthru)).map weaver.classified).getD .external

/-- The frames of invocations under way. -/
def framesOf : List Pending → SecurityStack
  | [] => []
  | pending :: outer => (framesOf outer).push (weaver.classified pending) pending.member.passthru

theorem current_framesOf (underWay : List Pending) :
    (weaver.framesOf underWay).current = weaver.inForce underWay := by
  induction underWay with
  | nil => rfl
  | cons pending outer ih =>
    unfold framesOf inForce
    cases passes : pending.member.passthru with
    | true =>
      -- the frame repeats the relation of the one below, and the search goes on there
      rw [SecurityStack.current_push_of_passthru, ih, List.find?_cons_of_neg (by simp [passes])]
      rfl
    | false =>
      rw [SecurityStack.current_push_of_not_passthru, List.find?_cons_of_pos (by simp [passes])]
      rfl

/-- Nothing changes if the frames of members that pass their callers through are taken away. -/
theorem current_proper_framesOf (underWay : List Pending) :
    (weaver.framesOf underWay).proper.current = (weaver.framesOf underWay).current := by
  induction underWay with
  | nil => rfl
  | cons pending outer ih =>
    unfold framesOf
    cases pending.member.passthru with
    | true =>
      rw [SecurityStack.current_push_of_passthru]
      exact ih
    | false => rfl

variable {weaver}

theorem frames_of_proceeds {before after : Moment} (step : weaver.Proceeds before after)
    (framed : before.machine.chain.frames = weaver.framesOf before.underWay) :
    after.machine.chain.frames = weaver.framesOf after.underWay := by
  cases step with
  | acts acts => exact (Process.frames_of_act? acts).trans framed
  | refuses => exact framed
  | enters => exact congrArg (SecurityStack.push · _ _) framed
  | leaves => exact congrArg List.tail framed

theorem frames_of_leads {start moment : Moment} (leads : weaver.Leads start moment)
    (framed : start.machine.chain.frames = weaver.framesOf start.underWay) :
    moment.machine.chain.frames = weaver.framesOf moment.underWay :=
  leads.induction framed fun _ _ framed step => frames_of_proceeds step framed

/-! ## Where events of entering come from -/

variable (weaver)

/-- The moment at which an invocation has recorded that its member is entered. -/
def entered (pending : Pending) (selection : Selection) (outer : List Pending) : Moment where
  machine := (weaver.entering pending outer).machine.record
    (weaver.entry pending.caller pending.call pending.member pending.origin selection.index)
  focus := weaver.enteredProcess pending.member pending.call selection >>= Conclusion.finish pending.member.id
  underWay := pending :: outer

/-- A call is made in a run and selects a variant of its member. -/
structure Carries (start : Moment) (pending : Pending) (selection : Selection) (outer : List Pending) :
    Prop where
  made : weaver.Leads start ⟨pending.origin, .call pending.caller pending.call pending.rest, outer⟩
  enters : weaver.entrant pending.call pending.origin = .ok pending.member
  selects : weaver.registry.select pending.member (weaver.classified pending) pending.call.args =
    .ok selection

/-- An event goes back to a call that was made in a run when this much had been recorded: it has been
recorded next, where the member of the call is entered, and from there the run has come to this moment. -/
structure GoesBack (start moment : Moment) (earlier : List Event) (event : Event) (pending : Pending)
    (selection : Selection) (outer : List Pending) : Prop
    extends Carries weaver start pending selection outer where
  recorded : pending.origin.chain.trace = start.machine.chain.trace ++ earlier
  isEntry : event = weaver.entry pending.caller pending.call pending.member pending.origin selection.index
  onward : weaver.Leads (weaver.entered pending selection outer) moment

end Weaver

/-- Code that records no events of entering. -/
abbrev Process.Quiet {α : Type} (process : Process α) : Prop := process.Records fun event => ¬ event.IsEnter

namespace Weaver

variable {weaver : Weaver} {start : Moment}

theorem finish_quiet (member : MemberId) (conclusion : Conclusion) : (conclusion.finish member).Quiet :=
  conclusion.finish_records id fun _ => id

/-- Inside an invocation only calls come to events of entering. -/
theorem entered_quiet (pending : Pending) (selection : Selection) (outer : List Pending) :
    (weaver.entered pending selection outer).focus.Quiet := by
  have permits : weaver.Permits (fun event => ¬ event.IsEnter) pending.member.id :=
    ⟨fun _ => id, fun _ _ _ _ => ⟨fun _ _ => id, fun _ _ _ => id⟩⟩
  have clear : weaver.Clear false := fun _ => rfl
  exact (enteredProcess_keeps permits clear).records.bind fun conclusion => finish_quiet _ conclusion

/-- How far an invocation has come with recording that its member is entered. -/
inductive Stage (weaver : Weaver) (start : Moment) : Moment → Prop
  /-- It has been recorded already, or it never will be. -/
  | quiet {moment : Moment} (quiet : moment.focus.Quiet) : Stage weaver start moment
  | asking {pending selection outer} (carries : weaver.Carries start pending selection outer) :
    Stage weaver start ⟨(weaver.entering pending outer).machine,
      .relation fun relation => .record
        (.enter pending.member.id (weaver.classified pending) relation selection.index)
        (weaver.entered pending selection outer).focus, pending :: outer⟩
  | recording {pending selection outer} (carries : weaver.Carries start pending selection outer) :
    Stage weaver start ⟨(weaver.entering pending outer).machine, .record
      (weaver.entry pending.caller pending.call pending.member pending.origin selection.index)
      (weaver.entered pending selection outer).focus, pending :: outer⟩

/-- An invocation begins by asking for the relation in force, unless the arguments do not fit. -/
theorem stage_entering {pending : Pending} {outer : List Pending}
    (made : weaver.Leads start ⟨pending.origin, .call pending.caller pending.call pending.rest, outer⟩)
    (enters : weaver.entrant pending.call pending.origin = .ok pending.member) :
    weaver.Stage start (weaver.entering pending outer) := by
  cases selects : weaver.registry.select pending.member (weaver.classified pending) pending.call.args with
  | error fault =>
    refine .quiet ?_
    have refused : (weaver.entering pending outer).focus =
        Conclusion.finish pending.member.id ⟨.error fault, none⟩ := invocationProcess_of_unfit selects
    rw [refused]
    exact finish_quiet _ _
  | ok selection =>
    have begun : weaver.entering pending outer = ⟨(weaver.entering pending outer).machine,
        .relation fun relation => .record
          (.enter pending.member.id (weaver.classified pending) relation selection.index)
          (weaver.entered pending selection outer).focus, pending :: outer⟩ := by
      rw [entering, invocationProcess_of_select selects]
      rfl
    rw [begun]
    exact .asking ⟨made, enters, selects⟩

/-- A moment of a run, with what its code and the callers that wait may still record. -/
structure Regular (weaver : Weaver) (start moment : Moment) : Prop where
  led : weaver.Leads start moment
  stage : weaver.Stage start moment
  waiting : ∀ pending ∈ moment.underWay, ∀ result, (pending.rest result).Quiet

theorem regular_of_proceeds {before after : Moment} (regular : weaver.Regular start before)
    (step : weaver.Proceeds before after) : weaver.Regular start after := by
  have led := regular.led.tail step
  obtain ⟨made, stage, waiting⟩ := regular
  cases step with
  | acts acts =>
    -- the first two stages last for one act each
    refine ⟨led, ?_, waiting⟩
    cases stage with
    | quiet quiet => exact .quiet (quiet.after_act acts)
    | asking carries =>
      cases acts
      exact .recording carries
    | recording carries =>
      cases acts
      exact .quiet (entered_quiet _ _ _)
  | refuses refuses =>
    refine ⟨led, ?_, waiting⟩
    cases stage with
    | quiet quiet => exact .quiet (quiet.after_call _)
  | enters enters =>
    cases stage with
    | quiet quiet =>
      -- what the caller goes on with waits below, and is as quiet as the code that made the call
      refine ⟨led, stage_entering made enters, ?_⟩
      exact List.forall_mem_cons.mpr ⟨quiet.after_call, waiting⟩
  | leaves =>
    obtain ⟨rest, others⟩ := List.forall_mem_cons.mp waiting
    exact ⟨led, .quiet (rest _), others⟩

/-- What has been recorded since the start of a run, all events of entering being accounted for. -/
structure Traced (weaver : Weaver) (start moment : Moment) (events : List Event) : Prop where
  trace : moment.machine.chain.trace = start.machine.chain.trace ++ events
  back : ∀ earlier event later, events = earlier ++ event :: later → event.IsEnter →
    ∃ pending selection outer, weaver.GoesBack start moment earlier event pending selection outer

theorem Traced.step {before after : Moment} {events : List Event} (traced : weaver.Traced start before events)
    (step : weaver.Proceeds before after) {earlier later : List Event} {event : Event}
    (parts : events = earlier ++ event :: later) (isEnter : event.IsEnter) :
    ∃ pending selection outer, weaver.GoesBack start after earlier event pending selection outer := by
  obtain ⟨pending, selection, outer, back⟩ := traced.back earlier event later parts isEnter
  exact ⟨pending, selection, outer, { back with onward := back.onward.tail step }⟩

/-- An event of entering is recorded only where the member of a call is entered. -/
theorem Stage.goesBack_of_enter {moment : Moment} (stage : weaver.Stage start moment) {earlier : List Event}
    (trace : moment.machine.chain.trace = start.machine.chain.trace ++ earlier) {event : Event}
    (isEnter : event.IsEnter) {next : Process (Except Fault Value)}
    (records : moment.focus = .record event next) :
    ∃ pending selection outer, weaver.GoesBack start ⟨moment.machine.record event, next, moment.underWay⟩
      earlier event pending selection outer := by
  cases stage with
  | quiet quiet =>
    have silent := quiet false
    rw [records] at silent
    exact absurd isEnter silent.1
  | asking carries => cases records
  | recording carries =>
    cases records
    exact ⟨_, _, _, carries, trace, rfl, .refl⟩

theorem traced_of_proceeds {before after : Moment} (regular : weaver.Regular start before)
    {events : List Event} (traced : weaver.Traced start before events) (step : weaver.Proceeds before after) :
    ∃ events, weaver.Traced start after events := by
  rcases step.trace with same | ⟨event, next, records, rfl, extended⟩
  · exact ⟨events, same.trans traced.trace, fun _ _ _ => traced.step step⟩
  · refine ⟨events ++ [event], ?_, fun earlier other later parts isEnter => ?_⟩
    · rw [extended, traced.trace, List.append_assoc]
    · rcases List.eq_nil_or_concat later with rfl | ⟨front, last, rfl⟩
      · obtain ⟨rfl, only⟩ := List.append_inj' parts rfl
        cases only
        exact regular.stage.goesBack_of_enter traced.trace isEnter records
      · have whole : events ++ [event] = (earlier ++ other :: front) ++ [last] := by simp [parts]
        exact traced.step step (List.append_inj' whole rfl).1 isEnter

theorem traced_of_leads {moment : Moment} (quiet : start.focus.Quiet) (outside : start.underWay = [])
    (leads : weaver.Leads start moment) : ∃ events, weaver.Traced start moment events := by
  have first : weaver.Regular start start ∧ ∃ events, weaver.Traced start start events := by
    refine ⟨⟨.refl, .quiet quiet, by simp [outside]⟩, [], (List.append_nil _).symm, ?_⟩
    intro earlier event later parts
    simp at parts
  have each (before after : Moment)
      (held : weaver.Regular start before ∧ ∃ events, weaver.Traced start before events)
      (step : weaver.Proceeds before after) :
      weaver.Regular start after ∧ ∃ events, weaver.Traced start after events := by
    obtain ⟨regular, events, traced⟩ := held
    exact ⟨regular_of_proceeds regular step, traced_of_proceeds regular traced step⟩
  exact (leads.induction first each).2

/-! ## Transparency -/

/-- The relation that is in force inside an invocation. -/
theorem entry_eq (pending : Pending) (variant : Nat) :
    weaver.entry pending.caller pending.call pending.member pending.origin variant =
      .enter pending.member.id (weaver.classified pending)
        (if pending.member.passthru then pending.origin.chain.current else weaver.classified pending)
        variant := by
  cases passes : pending.member.passthru <;> simp only [entry, passes] <;> rfl

/-- An event of entering goes back to a call that was made in a run when this much had been recorded. It was
recorded next, and from there the run has come to this moment. It names the relation of the call, which only the
selected variant serves and which masks the arguments, and besides it the relation in force, which differs only if
the member passes its caller through, and then is the one that was in force at the call. -/
structure EntersBy (weaver : Weaver) (start moment : Moment) (earlier : List Event) (event : Event)
    (pending : Pending) (selection : Selection) (outer : List Pending) : Prop where
  made : weaver.Leads start ⟨pending.origin, .call pending.caller pending.call pending.rest, outer⟩
  recorded : pending.origin.chain.trace = start.machine.chain.trace ++ earlier
  enters : weaver.entrant pending.call pending.origin = .ok pending.member
  onward : weaver.Leads (weaver.entered pending selection outer) moment
  serves : selection.Serves pending.member (weaver.classified pending) pending.call.args
  isEntry : event = .enter pending.member.id (weaver.classified pending)
    (if pending.member.passthru then pending.origin.chain.current else weaver.classified pending)
    selection.index

/-- Every event of entering that a run has recorded goes back to a call of its own. -/
theorem entersBy_of_leads {declared : Declarations} {bindings : Bindings}
    (accepted : Program.build declared bindings = .ok weaver.toProgram) {moment : Moment}
    (quiet : start.focus.Quiet) (outside : start.underWay = []) (leads : weaver.Leads start moment) :
    ∃ events, moment.machine.chain.trace = start.machine.chain.trace ++ events ∧
      ∀ earlier event later, events = earlier ++ event :: later → event.IsEnter →
        ∃ pending selection outer, weaver.EntersBy start moment earlier event pending selection outer := by
  obtain ⟨events, traced⟩ := traced_of_leads quiet outside leads
  refine ⟨events, traced.trace, fun earlier event later parts isEnter => ?_⟩
  obtain ⟨pending, selection, outer, back⟩ := traced.back earlier event later parts isEnter
  have known := Registry.apart_of_build (Program.registry_of_build accepted)
    (List.mem_of_getElem? (weaver.member?_of_entrant back.enters))
  exact ⟨pending, selection, outer, back.made, back.recorded, back.enters, back.onward,
    Catalog.serves_of_select known back.selects, back.isEntry.trans (entry_eq pending _)⟩

/-- **Pass-through members are transparent over whole runs.** At every moment of a run that starts outside
all invocations, the relation in force is that of the innermost call under way to a member that does not
pass its caller through; code that asks for it would be told the same without the frames of the others. And
every event of entering a member is the first one after a call of the run and goes back to it. The run comes
to what the invocation comes to, and all events of entering in the trace that the invocation leaves go back to
calls in the same way. -/
theorem invoke_transparent {declared : Declarations} {bindings : Bindings}
    (accepted : Program.build declared bindings = .ok weaver.toProgram) (caller : Caller) (call : Call)
    (machine : Machine) (outside : machine.chain.frames = []) {moment : Moment}
    (leads : weaver.Leads (.start caller call machine) moment) :
    moment.machine.chain.current = weaver.inForce moment.underWay ∧
    moment.machine.chain.frames.proper.current = moment.machine.chain.current ∧
    (∀ next, moment.focus = .relation next → ∀ after, weaver.Proceeds moment after ↔
      after = { moment with focus := next moment.machine.chain.frames.proper.current }) ∧
    (∃ events, moment.machine.chain.trace = machine.chain.trace ++ events ∧
      ∀ earlier event later, events = earlier ++ event :: later → event.IsEnter →
        ∃ pending selection outer,
          weaver.EntersBy (.start caller call machine) moment earlier event pending selection outer) ∧
    ∃ result after, (weaver.invoke caller call).run.run machine = (result, after) ∧
      weaver.Leads moment ⟨after, .done result, []⟩ ∧
      ∃ events, after.chain.trace = machine.chain.trace ++ events ∧
        ∀ earlier event later, events = earlier ++ event :: later → event.IsEnter →
          ∃ pending selection outer, weaver.EntersBy (.start caller call machine) ⟨after, .done result, []⟩
            earlier event pending selection outer := by
  have framed : moment.machine.chain.frames = weaver.framesOf moment.underWay :=
    frames_of_leads leads outside
  have proper : moment.machine.chain.frames.proper.current = moment.machine.chain.current := by
    rw [framed, current_proper_framesOf, ← framed]
    rfl
  have quiet : (Moment.start caller call machine).focus.Quiet := fun _ =>
    ⟨fun _ => trivial, fun _ => trivial⟩
  have ends := weaver.leads_invoke caller call machine
  refine ⟨?_, proper, fun next asks after => ?_, entersBy_of_leads accepted quiet rfl leads, _, _, rfl,
    weaver.leads_last ends (fun _ => weaver.not_proceeds_done) leads, entersBy_of_leads accepted quiet rfl ends⟩
  · rw [Chain.current, framed, current_framesOf]
  · obtain ⟨now, focus, underWay⟩ := moment
    obtain rfl : focus = .relation next := asks
    have step : weaver.Proceeds ⟨now, .relation next, underWay⟩ ⟨now, next now.chain.current, underWay⟩ :=
      .acts rfl
    rw [proper]
    exact ⟨fun other => other.unique step, fun same => same ▸ step⟩

/-- An account with a helper that passes its callers through and that only the account itself may tell a
secret. -/
def account : Model where
  modules := [⟨"bank"⟩]
  types := [{ name := "Account", module := "bank" }]
  members :=
    [{ owner := "Account", name := "Outer", isStatic := true, body := some "outer" },
      { owner := "Account", name := "Helper", isStatic := true, passthru := true, body := some "helper"
        params := [{ name := "secret", type := "int", default := some (.const (.int (-1)))
                     relations := some (.only .sameTypeDifferentInstance) }] }]
  scripts :=
    [("helper", [.emit "{0} {relation}"]),
      ("outer", [.call "Helper" .static false [.literal (.int 42)] none])]

/-- Inside the helper the account's caller is in force, although the call that enters it is one of the
account. -/
theorem invoke_transparent_account :
    ∃ program, Program.build account.toDeclarations account.bindings = .ok program ∧
      ∃ (pending : Pending) (selection : Selection),
        entrant ⟨program, {}⟩ pending.call pending.origin = .ok pending.member ∧
        selection.Serves pending.member (classified ⟨program, {}⟩ pending) pending.call.args ∧
        classified ⟨program, {}⟩ pending = .sameTypeDifferentInstance ∧
        pending.member.id = ⟨1⟩ ∧ pending.member.passthru = true ∧
        pending.origin.chain.current = .external := by
  have runs : (Program.build account.toDeclarations account.bindings).toOption.map (fun program =>
      ((invoke ⟨program, {}⟩ .external ⟨⟨0⟩, none, []⟩).run.run
        { chain := { tracing := true } }).2.chain.trace) =
      some [.enter ⟨0⟩ .external .external 0, .enter ⟨1⟩ .sameTypeDifferentInstance .external 0, .exit ⟨1⟩,
        .exit ⟨0⟩] := by
    decide +kernel
  obtain ⟨program, built, recorded⟩ := Program.exists_of_run runs
  have accepted : Program.build account.toDeclarations account.bindings =
      .ok (Weaver.toProgram ⟨program, {}⟩) := built
  obtain ⟨-, -, -, -, result, after, ran, -, events, trace, back⟩ := invoke_transparent accepted .external
    ⟨⟨0⟩, none, []⟩ { chain := { tracing := true } } rfl (leads_invoke ⟨program, {}⟩ .external ⟨⟨0⟩, none, []⟩ _)
  rw [ran] at recorded
  have listed : events = _ := trace.symm.trans recorded
  obtain ⟨pending, selection, -, -, -, enters, -, serves, isEntry⟩ :=
    back [.enter ⟨0⟩ .external .external 0] (.enter ⟨1⟩ .sameTypeDifferentInstance .external 0) _ listed
      trivial
  injection isEntry with member called inside
  cases passes : pending.member.passthru with
  | true =>
    rw [passes] at inside
    exact ⟨program, built, pending, selection, enters, serves, called.symm, member.symm, passes, inside.symm⟩
  | false =>
    rw [passes, ← called] at inside
    cases inside

end Weaver

end Weaving
