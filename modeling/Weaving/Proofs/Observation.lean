import Weaving.Proofs.Acceptance
import Weaving.Proofs.Promptness

/-!
Observing faults changes no outcome. Two weavers that differ only in whether advice at the exit of a member also
observes the faults of its body do the same until a fault is observed; from then on the fault is passed on by
everything under way, and all that the observing advice does is to add to the output and to the trace
(`Weaver.callFrom_withObservation`).
-/

namespace Weaving

variable {α β : Type}

/-! ## Machines that drift apart -/

/-- Both runs are on the same machine, which has come from this one by adding to its lines and its history. -/
structure Bond.Grown (origin left right : Machine) : Prop where
  same : left = right
  lines : origin.lines <:+ left.lines
  history : origin.chain.history <:+ left.chain.history
  tracing : origin.chain.tracing = left.chain.tracing

/-- The second machine has been used for more than the first. -/
structure Machine.Drifted (left right : Machine) : Prop where
  lines : left.lines <:+ right.lines
  history : left.chain.history.Sublist right.chain.history
  tracing : left.chain.tracing = right.chain.tracing

namespace Bond

variable {origin left right : Machine}

theorem Grown.refl (machine : Machine) : Grown machine machine machine :=
  ⟨rfl, List.suffix_rfl, List.suffix_rfl, rfl⟩

theorem grown_kept (origin : Machine) : Kept (Grown origin) where
  cancelled bonded := by rw [bonded.same]
  current bonded := by rw [bonded.same]
  nextObject bonded := by rw [bonded.same]
  record := by
    rintro left _ ⟨rfl, lines, history, tracing⟩ event
    exact ⟨rfl, lines, history.trans (left.chain.history_suffix_record event),
      tracing.trans (left.chain.tracing_record event).symm⟩
  emit := by
    rintro left _ ⟨rfl, lines, history, tracing⟩ line
    exact ⟨rfl, lines.trans (List.suffix_cons line left.lines), history, tracing⟩
  allocate := by
    rintro left _ ⟨rfl, lines, history, tracing⟩ type
    exact ⟨rfl, lines, history, tracing⟩

theorem grown_nested (origin : Machine) :
    Weaver.Nested (fun _ : Unit => Grown origin) (fun _ _ _ => ()) where
  kept _ := grown_kept origin
  depth bonded := by rw [bonded.same]
  enter := by
    rintro _ left _ ⟨rfl, lines, history, tracing⟩ relation passthru
    exact ⟨rfl, lines, history, tracing⟩
  leave := by
    rintro _ left _ relation passthru ⟨rfl, lines, history, tracing⟩
    exact ⟨rfl, lines, history, tracing⟩

end Bond

namespace Machine.Drifted

variable {left right after : Machine}

theorem refl (machine : Machine) : Drifted machine machine := ⟨List.suffix_rfl, List.Sublist.refl _, rfl⟩

theorem grown (drifted : Drifted left right) {same : Machine} (grown : Bond.Grown right after same) :
    Drifted left after where
  lines := drifted.lines.trans grown.lines
  history := drifted.history.trans grown.history.sublist
  tracing := drifted.tracing.trans grown.tracing

theorem record (drifted : Drifted left right) (event : Event) :
    Drifted (left.record event) (right.record event) where
  lines := drifted.lines
  history := by
    have tracing := drifted.tracing
    unfold Machine.record Chain.record
    rw [tracing]
    split
    · exact drifted.history.cons_cons event
    · exact drifted.history
  tracing := (left.chain.tracing_record event).trans
    (drifted.tracing.trans (right.chain.tracing_record event).symm)

theorem leave (drifted : Drifted left right) : Drifted left.leave right.leave :=
  ⟨drifted.lines, drifted.history, drifted.tracing⟩

end Machine.Drifted

/-! ## Work that keeps track -/

namespace Execution

/-- From one machine both come to the same result, and on the same machine if that is no failure. Otherwise the
second machine may have been used for more. -/
def Tracks (failed : α → Prop) (first second : Execution α) : Prop :=
  ∀ machine, (first.run machine).1 = (second.run machine).1 ∧
    ((first.run machine).2 = (second.run machine).2 ∨
      failed (first.run machine).1 ∧ Machine.Drifted (first.run machine).2 (second.run machine).2)

/-- From machines that have drifted apart both come to the same failure. -/
def Trails (failed : α → Prop) (first second : Execution α) : Prop :=
  ∀ left right, Machine.Drifted left right → (first.run left).1 = (second.run right).1 ∧
    failed (first.run left).1 ∧ Machine.Drifted (first.run left).2 (second.run right).2

variable {failed : α → Prop} {fails : β → Prop}

theorem Tracks.refl (work : Execution α) : Tracks failed work work := fun _ => ⟨rfl, Or.inl rfl⟩

theorem Tracks.bind {first second : Execution α} {next other : α → Execution β}
    (start : Tracks failed first second) (each : ∀ a, Tracks fails (next a) (other a))
    (stopped : ∀ a, failed a → Trails fails (next a) (other a)) :
    Tracks fails (first >>= next) (second >>= other) := by
  intro machine
  rw [run_bind, run_bind]
  obtain ⟨result, same | ⟨fault, drifted⟩⟩ := start machine
  · rw [← result, ← same]
    exact each _ _
  · -- they have drifted apart: only code that passes on what has failed may follow
    rw [← result]
    obtain ⟨result, failure, still⟩ := stopped _ fault _ _ drifted
    exact ⟨result, Or.inr ⟨failure, still⟩⟩

end Execution

/-- An attempt has failed. -/
def Failed (result : Except Fault α) : Prop := ∃ fault, result = .error fault

namespace Attempt

def Tracks (first second : Attempt α) : Prop := Execution.Tracks Failed first.run second.run

theorem Tracks.refl (work : Attempt α) : Tracks work work := Execution.Tracks.refl work.run

/-- A failure is passed on, whatever the machine is. -/
theorem Tracks.bind {first second : Attempt α} {next other : α → Attempt β} (start : Tracks first second)
    (each : ∀ a, Tracks (next a) (other a)) : Tracks (first >>= next) (second >>= other) := by
  change Execution.Tracks Failed (first.run >>= ExceptT.bindCont next) (second.run >>= ExceptT.bindCont other)
  refine Execution.Tracks.bind start (fun result => ?_) ?_
  · cases result with
    | ok a => exact each a
    | error fault => exact Execution.Tracks.refl _
  · rintro _ ⟨fault, rfl⟩ left right drifted
    exact ⟨rfl, ⟨fault, rfl⟩, drifted⟩

end Attempt

namespace Weaver

/-- Calls keep track, whoever makes them. -/
def CallsTrack (calling other : Calling) : Prop :=
  ∀ caller call, Attempt.Tracks (calling caller call) (other caller call)

end Weaver

/-- Prompt code keeps track if the calls from it do. -/
theorem Process.Prompt.tracks {post : α → Prop} {stop : Fault → α → Prop} {process : Process α}
    (prompt : process.Prompt post stop) {calling other : Calling} (calls : Weaver.CallsTrack calling other) :
    Execution.Tracks (fun a => ∃ fault, stop fault a) (process.enact calling) (process.enact other) := by
  induction process with
  | done result => exact Execution.Tracks.refl _
  | emit line next ih => exact fun machine => ih prompt ((Execution.emit line).run machine).2
  | record event next ih => exact fun machine => ih prompt (machine.record event)
  | relation next ih => exact fun machine => ih machine.chain.current (prompt _) machine
  | poll next ih => exact fun machine => ih machine.chain.cancelled (prompt _) machine
  | allocate type next ih =>
    intro machine
    exact ih ((Execution.allocate type).run machine).1 (prompt _) ((Execution.allocate type).run machine).2
  | cancel next ih => exact fun machine => ih prompt ((Execution.onChain Chain.cancel).run machine).2
  | call caller call next ih =>
    refine Execution.Tracks.bind (calls caller call) (fun result => ?_) ?_
    · cases result with
      | ok value => exact ih _ (prompt.1 value)
      | error fault =>
        obtain ⟨a, ended, -⟩ := prompt.2 fault
        rw [ended]
        exact Execution.Tracks.refl _
    · rintro _ ⟨fault, rfl⟩ left right drifted
      obtain ⟨a, ended, stops⟩ := prompt.2 fault
      rw [ended]
      exact ⟨rfl, ⟨fault, stops⟩, drifted⟩

namespace Weaver

/-! ## What does not depend on observation -/

/-- The same program with settings that let advice observe faults, or not. -/
def withObservation (weaver : Weaver) (observes : Bool) : Weaver :=
  { weaver with settings := { weaver.settings with afterOnFault := observes } }

section Processes

variable (weaver : Weaver) (observes : Bool)

@[simp] theorem withObservation_maxDepth :
    (weaver.withObservation observes).settings.maxDepth = weaver.settings.maxDepth := rfl

@[simp] theorem withObservation_chain : (weaver.withObservation observes).chain = weaver.chain := rfl

@[simp] theorem withObservation_admitted (call : Call) (cancelled : Bool) :
    (weaver.withObservation observes).admitted call cancelled = weaver.admitted call cancelled := rfl

@[simp] theorem withObservation_select (member : MemberEntry) (classified : RelationClass)
    (args : List Value) :
    (weaver.withObservation observes).registry.select member classified args =
      weaver.registry.select member classified args := rfl

@[simp] theorem withObservation_classify (caller : Caller) (receiver : Option ObjectRef) (member : MemberEntry) :
    (weaver.withObservation observes).registry.classify caller receiver member =
      weaver.registry.classify caller receiver member := rfl

theorem adviceListProcess_withObservation (point : JoinPoint) (result : Option Value) (ids : List PointcutId) :
    (weaver.withObservation observes).adviceListProcess point result ids =
      weaver.adviceListProcess point result ids := by
  induction ids with
  | nil => rfl
  | cons id ids ih =>
    rw [adviceListProcess, adviceListProcess, ih]
    rfl

theorem beforeProcess_withObservation (point : JoinPoint) :
    (weaver.withObservation observes).beforeProcess point = weaver.beforeProcess point :=
  weaver.adviceListProcess_withObservation observes point none _

theorem afterProcess_withObservation (point : JoinPoint) (result : Value) :
    (weaver.withObservation observes).afterProcess point result = weaver.afterProcess point result :=
  weaver.adviceListProcess_withObservation observes point (some result) _

theorem arrivalProcess_withObservation (context : Context) :
    (weaver.withObservation observes).arrivalProcess context = weaver.arrivalProcess context := by
  funext name args
  simp only [arrivalProcess, beforeProcess_withObservation]

theorem settlingProcess_withObservation (activation : Activation) (value : Value) (arrivals : List Arrival) :
    (weaver.withObservation observes).settlingProcess activation value arrivals =
      weaver.settlingProcess activation value arrivals := by
  induction arrivals with
  | nil => rfl
  | cons arrival arrivals ih => simp only [settlingProcess, afterProcess_withObservation, ih]

theorem insideProcess_withObservation (activation : Activation) :
    (weaver.withObservation observes).insideProcess activation = weaver.insideProcess activation := by
  have judges (ending : Ending) (visits : Visits) :
      (weaver.withObservation observes).judgingProcess activation ending visits =
        weaver.judgingProcess activation ending visits := by
    simp only [judgingProcess, settlingProcess_withObservation]
  have body : (weaver.withObservation observes).bodyProcess activation = weaver.bodyProcess activation := by
    simp only [bodyProcess, arrivalProcess_withObservation, judges]
    rfl
  simp only [insideProcess, beforeProcess_withObservation, body]

theorem exitProcess_withObservation (activation : Activation) (value : Value) :
    (weaver.withObservation observes).exitProcess activation value = weaver.exitProcess activation value := by
  simp only [exitProcess, afterProcess_withObservation]

theorem paramsProcess_withObservation (member : MemberId) (this : Option ObjectRef) (bound : List Value)
    (params : List (Param × Binding)) :
    (weaver.withObservation observes).paramsProcess member this bound params =
      weaver.paramsProcess member this bound params := by
  induction params generalizing bound with
  | nil => rfl
  | cons first rest ih =>
    rw [paramsProcess, paramsProcess]
    exact bind_congr fun value => ih (bound ++ [value])

end Processes

/-! ## Two runs -/

/-- Bodies only add to lines and history, if the calls from them do. -/
theorem code_grown {weaver : Weaver} (prompt : weaver.Prompt) (origin : Machine) :
    weaver.CodeAgrees (Bond.Grown origin) weaver.registry.plans weaver.bodies := by
  have kept := Bond.grown_kept origin
  have bodies : weaver.BodiesAgree (Bond.Grown origin) weaver.bodies := by
    intro id context _ _ _ _ hosts
    have steady := (prompt id context).steady
    exact Activity.perform_agree kept hosts (weaver.body id context) (Or.inl steady)
  exact bodies.code kept

section Runs

variable {weaver : Weaver} (prompt : weaver.Prompt) {calling other : Calling} (calls : CallsTrack calling other)
include prompt calls

theorem runInside_tracks (activation : Activation) :
    Execution.Tracks (fun verdict => ∃ fault, Fails fault verdict)
      ((weaver.withObservation false).runInside calling activation)
      ((weaver.withObservation true).runInside other activation) := by
  have first := (weaver.withObservation false).enacts_insideProcess calling activation
  have second := (weaver.withObservation true).enacts_insideProcess other activation
  rw [insideProcess_withObservation] at first second
  rw [← first, ← second]
  exact (insideProcess_prompt prompt activation).tracks calls

theorem runExit_tracks (activation : Activation) (value : Value) :
    Attempt.Tracks ((weaver.withObservation false).runExit calling activation value)
      ((weaver.withObservation true).runExit other activation value) := by
  have first := (weaver.withObservation false).enacts_exitProcess calling activation value
  have second := (weaver.withObservation true).enacts_exitProcess other activation value
  rw [exitProcess_withObservation] at first second
  unfold Attempt.Tracks
  rw [← first, ← second]
  exact (exitProcess_prompt prompt activation value).tracks calls

theorem bindParams_tracks (member : MemberId) (this : Option ObjectRef) (params : List (Param × Binding)) :
    Attempt.Tracks ((weaver.withObservation false).bindParams calling member this [] params)
      ((weaver.withObservation true).bindParams other member this [] params) := by
  have first := (weaver.withObservation false).enacts_paramsProcess calling member this [] params
  have second := (weaver.withObservation true).enacts_paramsProcess other member this [] params
  rw [paramsProcess_withObservation] at first second
  unfold Attempt.Tracks
  rw [← first, ← second]
  exact (paramsProcess_prompt prompt member this [] params).tracks calls

variable (grows : ∀ origin, CallsAgree (Bond.Grown origin) other other)
include grows

omit calls in
/-- Advice that observes a fault only adds to the machine. -/
theorem observeFault_grown (activation : Activation) (machine : Machine) :
    let after := ((weaver.withObservation true).observeFault other activation).run machine
    Bond.Grown machine after.2 after.2 := by
  have observing : (weaver.withObservation true).Prompt := prompt
  have code := code_grown observing machine
  have agree := observeFault_agree (Bond.grown_kept machine) code (grows machine) activation
  exact (agree machine machine (.refl machine)).2

omit calls in
/-- A fault of an activation stays its result, whatever the advice does that observes it. -/
theorem conclude_trails (activation : Activation) {verdict : Verdict} (fails : ∃ fault, Fails fault verdict) :
    Execution.Trails Failed ((weaver.withObservation false).conclude calling activation verdict).run
      ((weaver.withObservation true).conclude other activation verdict).run := by
  obtain ⟨fault, ofBody, rfl⟩ := fails
  intro left right drifted
  cases ofBody with
  | false => exact ⟨rfl, ⟨fault, rfl⟩, drifted⟩
  | true =>
    have grown := observeFault_grown prompt grows activation right
    exact ⟨rfl, ⟨fault, rfl⟩, drifted.grown grown⟩

theorem conclude_tracks (activation : Activation) (verdict : Verdict) :
    Attempt.Tracks ((weaver.withObservation false).conclude calling activation verdict)
      ((weaver.withObservation true).conclude other activation verdict) := by
  cases verdict with
  | completed value => exact runExit_tracks prompt calls activation value
  | returned value =>
    change Attempt.Tracks (if weaver.settings.afterOnShortCircuit then _ else _)
      (if weaver.settings.afterOnShortCircuit then _ else _)
    split
    · exact runExit_tracks prompt calls activation value
    · exact Attempt.Tracks.refl _
  | failed fault ofBody =>
    have trails : Execution.Trails Failed
        ((weaver.withObservation false).conclude calling activation (.failed fault ofBody)).run
        ((weaver.withObservation true).conclude other activation (.failed fault ofBody)).run :=
      conclude_trails prompt grows activation ⟨fault, ofBody, rfl⟩
    intro machine
    obtain ⟨result, drifts⟩ := trails machine machine (.refl machine)
    exact ⟨result, Or.inr drifts⟩

theorem run_tracks (activation : Activation) :
    Attempt.Tracks ((weaver.withObservation false).run calling activation)
      ((weaver.withObservation true).run other activation) := by
  change Execution.Tracks Failed
    ((weaver.withObservation false).runInside calling activation >>= fun verdict =>
      ((weaver.withObservation false).conclude calling activation verdict).run)
    ((weaver.withObservation true).runInside other activation >>= fun verdict =>
      ((weaver.withObservation true).conclude other activation verdict).run)
  refine (runInside_tracks prompt calls activation).bind (fun verdict => ?_) fun verdict fails => ?_
  · exact conclude_tracks prompt calls grows activation verdict
  · exact conclude_trails prompt grows activation fails

theorem runMember_tracks (member : MemberEntry) (classified : RelationClass) (call : Call) :
    Attempt.Tracks ((weaver.withObservation false).runMember calling member classified call)
      ((weaver.withObservation true).runMember other member classified call) := by
  unfold runMember
  rw [withObservation_select, withObservation_select]
  cases weaver.registry.select member classified call.args with
  | error fault => exact Attempt.Tracks.refl _
  | ok selection =>
    refine (Attempt.Tracks.refl _).bind fun chain => (Attempt.Tracks.refl _).bind fun _ => ?_
    exact (bindParams_tracks prompt calls _ _ _).bind fun args => run_tracks prompt calls grows _

theorem activate_tracks (caller : Caller) (call : Call) (member : MemberEntry) :
    Attempt.Tracks ((weaver.withObservation false).activate calling caller call member)
      ((weaver.withObservation true).activate other caller call member) := by
  intro machine
  rw [run_activate, run_activate, withObservation_classify, withObservation_classify]
  generalize weaver.registry.classify caller call.receiver member = classified
  have inner := runMember_tracks prompt calls grows member classified call
    (machine.enter classified member.passthru)
  dsimp only
  generalize ((weaver.withObservation false).runMember calling member classified call).run.run
    (machine.enter classified member.passthru) = first at inner ⊢
  generalize ((weaver.withObservation true).runMember other member classified call).run.run
    (machine.enter classified member.passthru) = second at inner ⊢
  obtain ⟨result, ended⟩ := first
  obtain ⟨_, finished⟩ := second
  obtain ⟨rfl, same | ⟨failed, drifted⟩⟩ := inner
  · obtain rfl : ended = finished := same
    exact ⟨rfl, Or.inl rfl⟩
  · exact ⟨rfl, Or.inr ⟨failed, (drifted.record _).leave⟩⟩

end Runs

/-- Invocations only add to lines and history. -/
theorem invokeWithin_grown {weaver : Weaver} (prompt : weaver.Prompt) (room : Nat) (origin : Machine) :
    CallsAgree (Bond.Grown origin) (weaver.invokeWithin room) (weaver.invokeWithin room) := by
  have code := code_grown prompt origin
  exact invokeWithin_agree (Bond.grown_nested origin) (fun _ => code) room ()

theorem invokeWithin_tracks {weaver : Weaver} (prompt : weaver.Prompt) (room : Nat) :
    CallsTrack ((weaver.withObservation false).invokeWithin room) ((weaver.withObservation true).invokeWithin room) := by
  induction room with
  | zero =>
    intro caller call machine
    rw [run_invokeWithin_zero, run_invokeWithin_zero, withObservation_admitted, withObservation_admitted]
    cases weaver.admitted call machine.chain.cancelled with
    | ok member => exact ⟨rfl, Or.inl rfl⟩
    | error fault => exact ⟨rfl, Or.inl rfl⟩
  | succ room ih =>
    intro caller call machine
    rw [run_invokeWithin_succ, run_invokeWithin_succ, withObservation_admitted, withObservation_admitted]
    cases weaver.admitted call machine.chain.cancelled with
    | ok member =>
      -- calls from advice that observes have no counterpart in the other run, so that they are bounded apart
      have observing : (weaver.withObservation true).Prompt := prompt
      exact activate_tracks prompt ih (invokeWithin_grown observing room) caller call member machine
    | error fault => exact ⟨rfl, Or.inl rfl⟩

/-- **Observing faults never changes an outcome.** Take an accepted program of scripts, and two settings that
differ only in whether advice at the exit of a member observes the faults of its body. A call on a chain of its
own comes to the same result under both; without observation the output is a prefix and the trace a part of what
they are with it. If the result is a value, nothing differs at all. -/
theorem callFrom_withObservation {weaver : Weaver} {model : Model}
    (accepted : Program.build model.toDeclarations model.bindings = .ok weaver.toProgram) (caller : Caller)
    (call : Call) (shared : Shared) :
    let plain := ((weaver.withObservation false).callFrom caller call).run shared
    let observed := ((weaver.withObservation true).callFrom caller call).run shared
    observed.1.result = plain.1.result ∧ plain.2.output <+: observed.2.output ∧
      plain.1.trace.Sublist observed.1.trace ∧
      ∀ value, plain.1.result = .ok value → observed = plain := by
  have prompt := Program.prompt_of_build accepted
  have tracks := invokeWithin_tracks prompt weaver.settings.maxDepth caller call
    { shared with chain := weaver.chain }
  simp only [run_callFrom, withObservation_maxDepth, withObservation_chain]
  obtain ⟨result, same | ⟨⟨fault, failed⟩, drifted⟩⟩ := tracks
  · -- no fault has been observed, so that the runs have ended on one machine
    have equal := Prod.ext result same
    rw [← equal]
    exact ⟨rfl, List.prefix_rfl, List.Sublist.refl _, fun _ _ => rfl⟩
  · have lines := List.reverse_prefix.mpr drifted.lines
    refine ⟨result.symm, lines, drifted.history.reverse, fun value isValue => ?_⟩
    cases failed.symm.trans isValue

/-- A kitchen in which an alarm is raised when something goes wrong, unless that goes wrong as well. -/
def kitchen : Model where
  modules := [⟨"inn"⟩]
  types := [{ name := "Kitchen", module := "inn" }]
  members :=
    [{ owner := "Kitchen", name := "Cook", isStatic := true, body := some "cook" },
      { owner := "Kitchen", name := "Ring", isStatic := true, body := some "ring" }]
  aspects := [{ name := "Alarm", module := "inn" }]
  pointcuts := [{ advice := .after, pattern := "Cook", body := "alarm", owner := .aspect "Alarm" }]
  scripts :=
    [("alarm", [.emit "alarm", .call "Kitchen.Ring" .static false [] none]),
      ("cook", [.emit "stir", .fault "burnt"]), ("ring", [.fault "no bell"])]

/-- The dish is burnt, whether or not the alarm is to be raised. -/
theorem callFrom_withObservation_kitchen :
    ∃ program, Program.build kitchen.toDeclarations kitchen.bindings = .ok program ∧
      let weaver : Weaver := ⟨program, {}⟩
      let plain := ((weaver.withObservation false).callFrom .external ⟨⟨0⟩, none, []⟩).run {}
      let observed := ((weaver.withObservation true).callFrom .external ⟨⟨0⟩, none, []⟩).run {}
      plain.1.result = .error (.raised "burnt") ∧ observed.1.result = plain.1.result ∧
        plain.2.output = ["stir"] ∧ observed.2.output = ["stir", "alarm"] ∧
        plain.2.output <+: observed.2.output ∧
        plain.1.trace = [.enter ⟨0⟩ .external .external 0, .fault ⟨0⟩ "burnt"] ∧
        observed.1.trace =
          [.enter ⟨0⟩ .external .external 0, .advice ⟨0⟩ .after (.exit ⟨0⟩),
            .enter ⟨1⟩ .sameModule .sameModule 0, .fault ⟨1⟩ "no bell", .fault ⟨0⟩ "no bell",
            .fault ⟨0⟩ "burnt"] := by
  have runs : (Program.build kitchen.toDeclarations kitchen.bindings).toOption.bind (fun program =>
      let weaver : Weaver := ⟨program, {}⟩
      let plain := ((weaver.withObservation false).callFrom .external ⟨⟨0⟩, none, []⟩).run {}
      let observed := ((weaver.withObservation true).callFrom .external ⟨⟨0⟩, none, []⟩).run {}
      if plain.1.result = .error (.raised "burnt") ∧ plain.2.output = ["stir"] ∧
          observed.2.output = ["stir", "alarm"] ∧
          plain.1.trace = [.enter ⟨0⟩ .external .external 0, .fault ⟨0⟩ "burnt"] ∧
          observed.1.trace =
            [.enter ⟨0⟩ .external .external 0, .advice ⟨0⟩ .after (.exit ⟨0⟩),
              .enter ⟨1⟩ .sameModule .sameModule 0, .fault ⟨1⟩ "no bell", .fault ⟨0⟩ "no bell",
              .fault ⟨0⟩ "burnt"] then
        some ()
      else none) = some () := by
    decide +kernel
  obtain ⟨program, built, runs⟩ := Program.exists_of_run? runs
  obtain ⟨⟨result, output, more, trace, longer⟩, -⟩ := Option.ite_none_right_eq_some.mp runs
  have accepted : Program.build kitchen.toDeclarations kitchen.bindings =
      .ok (Weaver.toProgram ⟨program, {}⟩) := built
  obtain ⟨same, begins, -, -⟩ := callFrom_withObservation accepted .external ⟨⟨0⟩, none, []⟩ {}
  exact ⟨program, built, result, same, output, more, begins, trace, longer⟩

end Weaver

end Weaving
