import Weaving.Proofs.Agreement
import Weaving.Proofs.Integrity
import Weaving.Proofs.Selections

/-!
Other code behind the same bodies. An invocation runs no bodies but those that its registry numbers, so that it
comes to the same with any other list of bodies in which these are the same (`Weaver.invoke_withBodies`).
-/

namespace Weaving

/-! ## Bindings -/

/-- The body of a default is there, if it has one. -/
def Default.Inside (bodies : Nat) : Default → Prop
  | .const _ => True
  | .computed body => body.index < bodies

def Binding.Inside (bodies : Nat) : Binding → Prop
  | .supplied _ => True
  | .masked default | .omitted default => default.Inside bodies

/-- The defaults that parameters are bound to are their own. -/
theorem Masks.inside {relation : RelationClass} {params : List Param} {args : List Value}
    {bindings : List Binding} (masks : Masks relation params args bindings) {bodies : Nat}
    (inside : ∀ param ∈ params, ∀ body, param.default = some (.computed body) → body.index < bodies) :
    ∀ param ∈ params.zip bindings, param.2.Inside bodies := by
  rintro ⟨param, binding⟩ held
  obtain ⟨index, found⟩ := List.mem_iff_getElem?.mp held
  obtain ⟨isParam, isBinding⟩ := List.getElem?_zip_eq_some.mp found
  have fits := masks.fits index param binding isParam isBinding
  have own (default : Default) (isDefault : param.default = some default) : default.Inside bodies := by
    cases default with
    | const value => trivial
    | computed body => exact inside param (List.mem_of_getElem? isParam) body isDefault
  cases binding with
  | supplied value => trivial
  | masked default =>
    cases arg : args[index]? with
    | none => simp [arg, Binding.Fits] at fits
    | some value =>
      rw [arg] at fits
      exact own default fits.2
  | omitted default =>
    cases arg : args[index]? with
    | none =>
      rw [arg] at fits
      exact own default fits
    | some value => simp [arg, Binding.Fits] at fits

/-! ## The same bodies -/

namespace Weaver

/-- The other code has the same bodies for the numbers that the registry knows. -/
def SameBodies (weaver : Weaver) (others : List Body) : Prop :=
  ∀ id : BodyId, id.index < weaver.registry.bodyNames.length →
    (weaver.withBodies others).body id = weaver.body id

variable {weaver : Weaver} {others : List Body} {calling : Calling}

section Parts

variable (closed : weaver.registry.Closed) (same : weaver.SameBodies others)
include closed same

theorem runAdvice_withBodies :
    (weaver.withBodies others).runAdvice calling = weaver.runAdvice calling := by
  funext point result id
  have known : (weaver.withBodies others).registry = weaver.registry := rfl
  unfold runAdvice
  rw [known]
  cases found : weaver.registry.pointcut? id with
  | none => rfl
  | some pointcut =>
    have inside := (closed.pointcut pointcut (List.mem_of_getElem? found)).body
    have body : (weaver.withBodies others).runAdviceBody calling pointcut point result =
        weaver.runAdviceBody calling pointcut point result := by
      unfold runAdviceBody
      dsimp only
      rw [same pointcut.body inside]
      rfl
    simp only [body]

theorem runAdviceList_withBodies :
    (weaver.withBodies others).runAdviceList calling = weaver.runAdviceList calling := by
  funext point result ids
  induction ids with
  | nil => rfl
  | cons id ids ih => rw [runAdviceList, runAdviceList, ih, runAdvice_withBodies closed same]

theorem runBefore_withBodies :
    (weaver.withBodies others).runBefore calling = weaver.runBefore calling := by
  funext point
  rw [runBefore, runBefore, runAdviceList_withBodies closed same]
  rfl

theorem runAfter_withBodies : (weaver.withBodies others).runAfter calling = weaver.runAfter calling := by
  funext point result
  rw [runAfter, runAfter, runAdviceList_withBodies closed same]
  rfl

theorem arrive_withBodies : (weaver.withBodies others).arrive calling = weaver.arrive calling := by
  funext context name args
  rw [arrive, arrive, runBefore_withBodies closed same]

theorem judge_withBodies : (weaver.withBodies others).judge calling = weaver.judge calling := by
  have settle : (weaver.withBodies others).settle calling = weaver.settle calling := by
    funext activation value arrivals
    induction arrivals with
    | nil => rfl
    | cons arrival arrivals ih =>
      rw [Weaver.settle, Weaver.settle, ih, runAfter_withBodies closed same]
  funext activation ending visits
  rw [judge, judge, settle]

theorem runInside_withBodies {activation : Activation}
    (inside : activation.body.index < weaver.registry.bodyNames.length) :
    (weaver.withBodies others).runInside calling activation = weaver.runInside calling activation := by
  have body : (weaver.withBodies others).runBody calling activation = weaver.runBody calling activation := by
    have known : (weaver.withBodies others).registry = weaver.registry := rfl
    rw [runBody, runBody, judge_withBodies closed same, arrive_withBodies closed same, known,
      same activation.body inside]
  rw [runInside, runInside, runBefore_withBodies closed same, body]

theorem conclude_withBodies : (weaver.withBodies others).conclude calling = weaver.conclude calling := by
  have settings : (weaver.withBodies others).settings = weaver.settings := rfl
  have exit : (weaver.withBodies others).runExit calling = weaver.runExit calling := by
    funext activation value
    rw [runExit, runExit, runAfter_withBodies closed same]
  have observe : (weaver.withBodies others).observeFault calling = weaver.observeFault calling := by
    funext activation
    rw [observeFault, observeFault, runAfter_withBodies closed same]
  funext activation verdict
  cases verdict <;> simp only [conclude, exit, observe, settings]

theorem run_withBodies {activation : Activation}
    (inside : activation.body.index < weaver.registry.bodyNames.length) :
    (weaver.withBodies others).run calling activation = weaver.run calling activation := by
  rw [run, run, conclude_withBodies closed same, runInside_withBodies closed same inside]

omit closed in
theorem evalDefault_withBodies {default : Default} (inside : default.Inside weaver.registry.bodyNames.length)
    (member : MemberId) (this : Option ObjectRef) (bound : List Value) :
    (weaver.withBodies others).evalDefault calling member this bound default =
      weaver.evalDefault calling member this bound default := by
  have known : (weaver.withBodies others).registry = weaver.registry := rfl
  cases default with
  | const value => rfl
  | computed body =>
    rw [evalDefault, evalDefault, known, same body inside]

omit closed in
theorem bindParam_withBodies {binding : Binding} (inside : binding.Inside weaver.registry.bodyNames.length)
    (member : MemberId) (this : Option ObjectRef) (bound : List Value) (param : Param) :
    (weaver.withBodies others).bindParam calling member this bound param binding =
      weaver.bindParam calling member this bound param binding := by
  cases binding with
  | supplied value => rfl
  | masked default => rw [bindParam, bindParam, evalDefault_withBodies same inside]
  | omitted default => exact evalDefault_withBodies same inside member this bound

omit closed in
theorem bindParams_withBodies {params : List (Param × Binding)}
    (inside : ∀ param ∈ params, param.2.Inside weaver.registry.bodyNames.length) (member : MemberId)
    (this : Option ObjectRef) (bound : List Value) :
    (weaver.withBodies others).bindParams calling member this bound params =
      weaver.bindParams calling member this bound params := by
  induction params generalizing bound with
  | nil => rfl
  | cons first rest ih =>
    rw [bindParams, bindParams, bindParam_withBodies same (inside first List.mem_cons_self)]
    simp only [ih fun param held => inside param (List.mem_cons_of_mem _ held)]

/-- What happens inside an invocation comes to the same with the other bodies. -/
theorem runMember_withBodies {member : MemberEntry} (held : member ∈ weaver.registry.members) :
    (weaver.withBodies others).runMember calling member = weaver.runMember calling member := by
  have known : (weaver.withBodies others).registry = weaver.registry := rfl
  have here := closed.member member held
  funext classified call
  unfold runMember
  rw [known]
  cases selects : weaver.registry.select member classified call.args with
  | error fault => rfl
  | ok selection =>
    obtain ⟨isVariant, masks⟩ := Catalog.masks_of_select selects
    have body := here.variants _ isVariant
    have run (this : Option ObjectRef) (args : List Value) :
        (weaver.withBodies others).run calling ⟨member, selection.variant.body, this, args⟩ =
          weaver.run calling ⟨member, selection.variant.body, this, args⟩ :=
      run_withBodies closed same body
    simp only [bindParams_withBodies same (masks.inside here.defaults), run]

end Parts

variable (closed : weaver.registry.Closed) (same : weaver.SameBodies others)
include closed same

theorem invokeWithin_withBodies (room : Nat) :
    (weaver.withBodies others).invokeWithin room = weaver.invokeWithin room := by
  induction room with
  | zero => rfl
  | succ room ih =>
    funext caller call
    refine ExceptT.ext (StateT.ext fun machine => ?_)
    have admitted : (weaver.withBodies others).admitted call = weaver.admitted call := rfl
    have classify : (weaver.withBodies others).registry.classify = weaver.registry.classify := rfl
    rw [run_invokeWithin_succ, run_invokeWithin_succ, admitted, ih]
    cases admits : weaver.admitted call machine.chain.cancelled with
    | error fault => rfl
    | ok member =>
      have held := List.mem_of_getElem? (weaver.member?_of_admitted admits)
      dsimp only
      rw [run_activate, run_activate, classify,
        runMember_withBodies closed same held]

/-- **Invocations run no bodies but those that have a number.** -/
theorem invoke_withBodies : (weaver.withBodies others).invoke = weaver.invoke := by
  unfold invoke
  simp only [invokeWithin_withBodies closed same]
  rfl

end Weaver

end Weaving
