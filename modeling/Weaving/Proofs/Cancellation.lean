import Weaving.Proofs.Histories

/-!
Cancelled chains. Every way of starting anything looks first whether the chain has been cancelled: calls do,
and so does every piece of advice, whatever invocations and join points are still under way. Once a chain has
been cancelled, by a body or from outside, nothing is started on it any more, and calls change nothing at all
(`Weaver.cancelled_for_good`). Nothing is asked of the bodies.
-/

namespace Weaving

variable {α : Type}

/-- Where every object is known, code is honest if it records nothing that starts. -/
theorem Process.honest_any [Carries α] {process : Process α}
    (silent : process.Records fun event => ¬ event.Starts) (world : World) : process.Honest .any world := by
  induction process generalizing world with
  | done result => exact Standard.known_any result
  | emit line next ih => exact ih silent world
  | record event next ih => exact ⟨fun _ => (silent false).1, ih (fun failed => (silent failed).2) world⟩
  | relation next ih => exact fun relation => ih relation (fun failed => silent failed relation) world
  | poll next ih => exact ih _ (fun failed => silent failed _) world
  | allocate type next ih => exact fun id => ih _ (fun failed => silent failed _) _
  | cancel next ih => exact ih silent _
  | call caller request next ih =>
    exact ⟨Standard.known_any caller, Standard.known_any request,
      fun later result _ _ => ih result (silent.after_call result) later⟩

namespace Weaver

variable {weaver : Weaver} {before after moment : Moment}

/-- Where every object is known, every weaver is honest. -/
theorem honest_any (weaver : Weaver) : weaver.Honest .any where
  body id world context _ _ := (weaver.body id context).honest_any world
  const _ _ _ _ value _ _ := Standard.known_any value

/-- No call enters a member on a cancelled chain. -/
theorem invoke_of_cancelled (weaver : Weaver) (caller : Caller) (call : Call) {machine : Machine}
    (cancelled : machine.chain.cancelled = true) :
    (weaver.invoke caller call).run.run machine = (.error .cancelled, machine) := by
  refine weaver.run_invoke_of_refusal ?_
  simp [entrant, admitted, cancelled]

/-- Nothing takes back that a chain has been cancelled. -/
theorem cancelled_of_proceeds (step : weaver.Proceeds before after)
    (cancelled : before.machine.chain.cancelled = true) : after.machine.chain.cancelled = true := by
  cases step with
  | @acts machine _ process _ _ acts =>
    cases process with
    | done result => cases acts
    | call caller request rest => cases acts
    | record event rest =>
      cases acts
      exact (machine.chain.cancelled_record event).trans cancelled
    | emit line rest | relation rest | poll rest | allocate type rest =>
      cases acts
      exact cancelled
    | cancel rest =>
      cases acts
      rfl
  | refuses | enters | leaves => exact cancelled

/-- On a cancelled chain the code that is running starts nothing. -/
def Quiet (moment : Moment) : Prop :=
  moment.machine.chain.cancelled = true → ∀ event next, moment.focus = .record event next → ¬ event.Starts

/-- At every moment of a run nothing is started if the chain has been cancelled by then. -/
theorem quiet_of_leads {host : Process (Except Fault Value)}
    (silent : host.Records fun event => ¬ event.Starts) {machine : Machine}
    (leads : weaver.Leads ⟨machine, host, []⟩ moment) : Quiet moment := by
  let first : World := ⟨machine.chain.cancelled, []⟩
  obtain ⟨world, comes⟩ := comes_of_leads leads first
  have begins : Moment.Honest .any ⟨machine, host, []⟩ first :=
    ⟨rfl, Process.honest_any silent first, fun _ waits => absurd waits List.not_mem_nil⟩
  obtain ⟨flag, focus, -⟩ := honest_of_comes (honest_any weaver) begins comes
  intro cancelled event next records
  rw [records] at focus
  exact focus.1 (flag.symm.trans cancelled)

/-- **Cancellation is final.** Someone outside makes calls on a chain, and may cancel it between them; the
bodies of the program may cancel it as well. From the moment at which the chain has been cancelled it stays so,
no member and no advice is started or recorded as started, whatever is under way, and every call is refused and
leaves everything as it is. -/
theorem cancelled_for_good {host : Process (Except Fault Value)}
    (silent : host.Records fun event => ¬ event.Starts) {machine : Machine}
    (leads : weaver.Leads ⟨machine, host, []⟩ before) (cancelled : before.machine.chain.cancelled = true)
    (goes : weaver.Leads before after) :
    after.machine.chain.cancelled = true ∧
    (∀ event next, after.focus = .record event next → ¬ event.Starts) ∧
    (∃ events, after.machine.chain.trace = before.machine.chain.trace ++ events ∧
      ∀ event ∈ events, ¬ event.Starts) ∧
    ∀ caller call, (weaver.invoke caller call).run.run after.machine = (.error .cancelled, after.machine) := by
  have each (middle next : Moment)
      (held : weaver.Leads before middle ∧ middle.machine.chain.cancelled = true ∧
        ∃ events, middle.machine.chain.trace = before.machine.chain.trace ++ events ∧
          ∀ event ∈ events, ¬ event.Starts)
      (step : weaver.Proceeds middle next) :
      weaver.Leads before next ∧ next.machine.chain.cancelled = true ∧
        ∃ events, next.machine.chain.trace = before.machine.chain.trace ++ events ∧
          ∀ event ∈ events, ¬ event.Starts := by
    obtain ⟨between, still, events, trace, quiet⟩ := held
    refine ⟨between.tail step, cancelled_of_proceeds step still, ?_⟩
    rcases step.trace with same | ⟨event, rest, records, -, extended⟩
    · exact ⟨events, same.trans trace, quiet⟩
    · have starts := quiet_of_leads silent (leads.trans between) still event rest records
      refine ⟨events ++ [event], by rw [extended, trace, List.append_assoc], ?_⟩
      simpa [or_imp, forall_and] using ⟨quiet, starts⟩
  obtain ⟨between, still, traced⟩ :=
    goes.induction ⟨.refl, cancelled, [], (List.append_nil _).symm, nofun⟩ each
  exact ⟨still, quiet_of_leads silent (leads.trans between) still, traced,
    fun caller call => weaver.invoke_of_cancelled caller call still⟩

/-- A valve that shuts the chain on its first use, watched at its exit. -/
def valve : Declarations where
  modules := [⟨"plant"⟩]
  types := [{ name := "Valve", module := "plant" }]
  members :=
    [{ owner := "Valve", name := "Shut", isStatic := true, body := some "shut" },
      { owner := "Valve", name := "Open", isStatic := true, body := some "look" }]
  aspects := [{ name := "Watch", module := "plant" }]
  pointcuts := [{ advice := .after, pattern := "Shut", body := "look", owner := .aspect "Watch" }]

/-- The watch is not started when the valve is shut, and the call that follows changes nothing. -/
theorem cancelled_for_good_valve :
    ∃ program, Program.build valve [("shut", fun _ => .cancel (.done (.ok .next))),
        ("look", fun _ => .done (.ok .next))] = .ok program ∧
      ∃ machine, (invoke ⟨program, {}⟩ .external ⟨⟨0⟩, none, []⟩).run.run { chain := { tracing := true } } =
          (.error .cancelled, machine) ∧
        machine.chain.trace = [.enter ⟨0⟩ .external .external 0, .fault ⟨0⟩ Fault.cancelled.message] ∧
        ∀ caller call, (invoke ⟨program, {}⟩ caller call).run.run machine = (.error .cancelled, machine) := by
  have runs : (Program.build valve [("shut", fun _ => .cancel (.done (.ok .next))),
      ("look", fun _ => .done (.ok .next))]).toOption.map (fun program =>
        let ended := (invoke ⟨program, {}⟩ .external ⟨⟨0⟩, none, []⟩).run.run { chain := { tracing := true } }
        (ended.1, ended.2.chain.trace, ended.2.chain.cancelled)) =
      some (.error .cancelled, [.enter ⟨0⟩ .external .external 0, .fault ⟨0⟩ Fault.cancelled.message],
        true) := by
    decide +kernel
  obtain ⟨program, built, outcome⟩ := Program.exists_of_run runs
  simp only [Prod.mk.injEq] at outcome
  obtain ⟨result, trace, cancelled⟩ := outcome
  have leads := leads_invoke ⟨program, {}⟩ .external ⟨⟨0⟩, none, []⟩ { chain := { tracing := true } }
  have silent : (Process.call .external ⟨⟨0⟩, none, []⟩ .done).Records fun event => ¬ event.Starts :=
    fun _ => ⟨fun _ => trivial, fun _ => trivial⟩
  obtain ⟨-, -, -, refused⟩ := cancelled_for_good silent leads cancelled .refl
  exact ⟨program, built, _, Prod.ext result rfl, trace, refused⟩

end Weaver

end Weaving
