import Weaving.Proofs.Moments

/-!
Depth. No moment of a run has more invocations under way than the settings allow, whatever calls whatever:
bodies, advice and defaults all come to a call at last, and a call at the greatest depth is refused without
a trace. Since the code of each invocation is finite, it follows that every run comes to an end
(`invoke_bounded`).
-/

namespace Weaving.Weaver

variable (weaver : Weaver)

/-! ## At the greatest depth -/

/-- Calls at the greatest depth are refused, if they are admitted at all. -/
theorem entrant_of_deepest {call : Call} {machine : Machine} {member : MemberEntry}
    (deepest : weaver.settings.maxDepth ≤ machine.chain.depth)
    (admits : weaver.admitted call machine.chain.cancelled = .ok member) :
    weaver.entrant call machine = .error (.callDepthExceeded weaver.settings.maxDepth) := by
  rw [entrant, admits]
  exact if_pos deepest

/-- One step does not go deeper than the settings allow. -/
theorem depth_le_of_proceeds {before after : Moment} (step : weaver.Proceeds before after)
    (fits : before.machine.chain.depth ≤ weaver.settings.maxDepth) :
    after.machine.chain.depth ≤ weaver.settings.maxDepth := by
  cases step with
  | acts acts =>
    have same := congrArg List.length (Process.frames_of_act? acts)
    exact Nat.le_trans (Nat.le_of_eq same) fits
  | refuses => exact fits
  | enters enters => exact weaver.depth_of_entrant enters
  | leaves => exact Nat.le_trans (List.tail_sublist _).length_le fits

theorem depth_le_of_leads {start moment : Moment} (leads : weaver.Leads start moment)
    (fits : start.machine.chain.depth ≤ weaver.settings.maxDepth) :
    moment.machine.chain.depth ≤ weaver.settings.maxDepth :=
  leads.induction fits fun _ _ fits step => weaver.depth_le_of_proceeds step fits

/-! ## Runs come to an end -/

/-- Nothing happens once all code is done. -/
theorem not_proceeds_done {result : Except Fault Value} {machine : Machine} {after : Moment} :
    ¬ weaver.Proceeds ⟨machine, .done result, []⟩ after := by
  rintro ⟨acts⟩
  cases acts

/-- A run that comes to a last moment is not endless. -/
theorem not_endless {start last : Moment} (leads : weaver.Leads start last)
    (final : ∀ after, ¬ weaver.Proceeds last after) :
    ¬ ∃ run : Nat → Moment, run 0 = start ∧ ∀ n, weaver.Proceeds (run n) (run (n + 1)) := by
  rintro ⟨run, first, goes⟩
  -- there is only one way to go on, so that the last moment is one of the run
  obtain ⟨n, reached⟩ : ∃ n, run n = last := by
    have reaches (before after : Moment) (held : ∃ n, run n = before)
        (step : weaver.Proceeds before after) : ∃ n, run n = after := by
      obtain ⟨n, rfl⟩ := held
      exact ⟨n + 1, (goes n).unique step⟩
    exact leads.induction ⟨0, first⟩ reaches
  exact final _ (reached ▸ goes n)

/-- From every moment of a run it comes to its last moment. -/
theorem leads_last {start moment last : Moment} (ends : weaver.Leads start last)
    (final : ∀ after, ¬ weaver.Proceeds last after) (leads : weaver.Leads start moment) :
    weaver.Leads moment last := by
  have unique : Relator.RightUnique weaver.Proceeds := fun _ _ _ one other => one.unique other
  rcases Relation.ReflTransGen.total_of_right_unique unique leads ends with before | beyond
  · exact before
  · rcases beyond.cases_head with same | ⟨after, step, -⟩
    · exact same ▸ .refl
    · exact absurd step (final after)

/-- A run goes on until it comes to its last moment. -/
theorem proceeds_or_last {start moment last : Moment} (ends : weaver.Leads start last)
    (final : ∀ after, ¬ weaver.Proceeds last after) (leads : weaver.Leads start moment) :
    (∃ after, weaver.Proceeds moment after) ∨ moment = last := by
  rcases (weaver.leads_last ends final leads).cases_head with same | ⟨after, step, -⟩
  · exact Or.inr same
  · exact Or.inl ⟨after, step⟩

/-- **Invocations are bounded.** Within the depth that the settings allow, a run is never endless: it goes
on until it has the result of the invocation. At no moment are more invocations under way than are allowed,
and a call that is made when there are as many is refused, if it is admitted at all, and changes nothing.
-/
theorem invoke_bounded (caller : Caller) (call : Call) (machine : Machine)
    (fits : machine.chain.depth ≤ weaver.settings.maxDepth) :
    (¬ ∃ run : Nat → Moment, run 0 = .start caller call machine ∧
      ∀ n, weaver.Proceeds (run n) (run (n + 1))) ∧
    ∀ moment, weaver.Leads (.start caller call machine) moment →
      ((∃ after, weaver.Proceeds moment after) ∨
        ∃ result after, (weaver.invoke caller call).run.run machine = (result, after) ∧
          moment = ⟨after, .done result, []⟩) ∧
      moment.machine.chain.depth ≤ weaver.settings.maxDepth ∧
      ∀ inner nested rest member, moment.focus = .call inner nested rest →
        moment.machine.chain.depth = weaver.settings.maxDepth →
        weaver.admitted nested moment.machine.chain.cancelled = .ok member →
        (∀ after, weaver.Proceeds moment after ↔ after =
          { moment with focus := rest (.error (.callDepthExceeded weaver.settings.maxDepth)) }) ∧
        (weaver.invoke inner nested).run.run moment.machine =
          (.error (.callDepthExceeded weaver.settings.maxDepth), moment.machine) := by
  have ends := weaver.leads_invoke caller call machine
  refine ⟨weaver.not_endless ends fun _ => weaver.not_proceeds_done, fun moment leads => ⟨?_, ?_, ?_⟩⟩
  · exact (weaver.proceeds_or_last ends (fun _ => weaver.not_proceeds_done) leads).imp_right fun last =>
      ⟨_, _, rfl, last⟩
  · exact weaver.depth_le_of_leads leads fits
  · rintro inner nested rest member calls deepest admits
    have refuses := weaver.entrant_of_deepest (Nat.le_of_eq deepest.symm) admits
    refine ⟨fun after => ?_, weaver.run_invoke_of_refusal refuses⟩
    obtain ⟨machine, focus, underWay⟩ := moment
    obtain rfl : focus = _ := calls
    have step : weaver.Proceeds ⟨machine, .call inner nested rest, underWay⟩
        ⟨machine, rest (.error (.callDepthExceeded weaver.settings.maxDepth)), underWay⟩ := .refuses refuses
    exact ⟨fun other => other.unique step, fun same => same ▸ step⟩

/-- A member that calls itself. -/
def echo : Weaver where
  registry :=
    { modules := [⟨⟨0⟩, "hills"⟩]
      types := [⟨⟨0⟩, "Valley", [], "Valley", ⟨0⟩, none, [], .everywhere, [⟨0⟩]⟩]
      members :=
        [{ id := ⟨0⟩, owner := ⟨0⟩, kind := .function, name := "Shout", params := [], returns := "void"
           visibility := .everywhere, isStatic := true, passthru := false
           variants := [⟨.all, ⟨0⟩⟩], points := [] }]
      aspects := []
      pointcuts := []
      bodyNames := ["shout"]
      plans := [] }
  bodies := [Script.body [.emit "{relation}", .call "Shout" .static false [] none]]
  settings := { maxDepth := 3 }

/-- A shout comes back until the greatest depth is reached. -/
theorem invoke_bounded_echo :
    (Machine.chain { chain := echo.chain }).depth ≤ echo.settings.maxDepth ∧
    (¬ ∃ run : Nat → Moment, run 0 = .start .external ⟨⟨0⟩, none, []⟩ { chain := echo.chain } ∧
      ∀ n, echo.Proceeds (run n) (run (n + 1))) ∧
    ((echo.invoke .external ⟨⟨0⟩, none, []⟩).run.run { chain := echo.chain }).1 =
      .error (.callDepthExceeded 3) ∧
    ((echo.invoke .external ⟨⟨0⟩, none, []⟩).run.run { chain := echo.chain }).2.output =
      ["External", "SameTypeDifferentInstance", "SameTypeDifferentInstance"] := by
  have fits : (Machine.chain { chain := echo.chain }).depth ≤ echo.settings.maxDepth := by decide
  exact ⟨fits, (echo.invoke_bounded .external ⟨⟨0⟩, none, []⟩ { chain := echo.chain } fits).1,
    rfl, by decide +kernel⟩

end Weaving.Weaver
