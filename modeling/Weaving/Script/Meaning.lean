import Weaving.Action
import Weaving.Script.Template

/-!
The meaning of scripts: the body that a script stands for. Steps run in order with variables of their
own; the first one that returns, is interrupted or faults ends the script.
-/

namespace Weaving

/-- The variables of a running script, the last assigned first. -/
abbrev Variables := List (String × Value)

namespace Variables

def get (vars : Variables) (name : String) : Value := (vars.lookup name).getD .null

def set (vars : Variables) (name : String) (value : Value) : Variables :=
  (name, value) :: vars

end Variables

def Operand.eval (context : Context) (vars : Variables) : Operand → Value
  | .arg index => context.arg index
  | .var name => vars.get name
  | .literal value => value

/-- The receiver of a call, if there is an object in its place. -/
def Target.eval (context : Context) (vars : Variables) : Target → Option ObjectRef
  | .this => context.this
  | .static => none
  | .arg index => (context.arg index).asObject?
  | .var name => (vars.get name).asObject?

namespace Template

/-- The value that a key of a template stands for. -/
def keyValue? (context : Context) (vars : Variables) (relation : RelationClass)
    (key : List Char) : Option Value :=
  match String.ofList key with
  | "relation" => some (.text relation.name)
  | "this" => some ((context.this.map .object).getD .null)
  | "result" => some (context.result.getD .null)
  | name =>
    match position? key with
    | some index => some (context.arg index)
    | none => vars.lookup name

/-- The text of a template where a relation is in force. -/
def render (context : Context) (vars : Variables) (template : String)
    (relation : RelationClass) : String :=
  let text? (key : List Char) : Option (List Char) :=
    (keyValue? context vars relation key).map (·.display.toList)
  String.ofList (expand text? template.toList)

end Template

namespace Script

/-- Steps read and assign variables, may be interrupted, and act. -/
abbrev Run := StateT Variables (ExceptT Interrupt Action)

namespace Run

variable {α : Type}

def ask (action : Action α) : Run α := fun vars =>
  action.bind fun result => .done (.ok (result, vars))

def stop (interrupt : Interrupt) : Run α := throw interrupt

def raise (fault : Fault) : Run α := stop (.fault fault)

/-- The result of something that may be interrupted itself. -/
def askOrStop (action : Action (Except Interrupt α)) : Run α := do
  match ← ask action with
  | .ok result => pure result
  | .error interrupt => stop interrupt

end Run

open Run

/-- The text of a template. -/
def render (context : Context) (template : String) : Run String := do
  let relation ← ask (.relation .done)
  pure (Template.render context (← get) template relation)

/-- The target of a call of a member by name: of any type with a path, of the running type without. -/
def target? (context : Context) (member : String) : Option MemberId :=
  if member.toList.contains '.' then context.registry.findMember? member
  else do
    let running ← context.registry.member? context.member
    context.registry.findMemberIn? running.owner member

/-- The member that the receiver of a virtual call answers with. -/
def dispatch (context : Context) (receiver : ObjectRef) (name : String) : Except Fault MemberId :=
  match context.registry.dispatch? receiver.type name with
  | some target => .ok target
  | none => .error (.noSuchMember (context.registry.typeName receiver.type ++ "." ++ name))

/-- What a call step calls. -/
def request (context : Context) (member : String) (receiver : Option ObjectRef) (isVirtual : Bool)
    (args : List Value) : Except Fault Call :=
  if isVirtual then
    match receiver with
    | none => .error (.notAnInstance member)
    | some object => (dispatch context object member).map fun target => ⟨target, receiver, args⟩
  else
    match target? context member with
    | none => .error (.noSuchMember member)
    | some target => .ok ⟨target, receiver, args⟩

/-- Carries out a call, if there is something to call. -/
def invoke : Except Fault Call → Run Value
  | .error fault => raise fault
  | .ok call => do
    match ← ask (.call call .done) with
    | .ok value => pure value
    | .error fault => raise fault

/-- Keeps a value in a variable, if one is named. -/
def keep (into : Option String) (value : Value) : Run Unit :=
  match into with
  | none => pure ()
  | some name => modify (·.set name value)

def eval (context : Context) (args : List Operand) : Run (List Value) := do
  let vars ← get
  pure (args.map (Operand.eval context vars))

mutual

def runStep (context : Context) : Step → Run Flow
  | .emit template => do
    ask (.emit (← render context template) (.done ()))
    pure .next
  | .give value => do
    pure (.give (value.eval context (← get)))
  | .fault template => do
    raise (.raised (← render context template))
  | .join point args => do
    askOrStop (.join point (← eval context args) .done)
    pure .next
  | .call member on isVirtual args into => do
    let receiver := on.eval context (← get)
    keep into (← invoke (request context member receiver isVirtual (← eval context args)))
    pure .next
  | .allocate type into => do
    match context.registry.findType? type with
    | none => raise (.raised ("unknown type `" ++ type ++ "`"))
    | some id =>
      keep (some into) (.object (← ask (.allocate id .done)))
      pure .next
  | .guard relations permitted otherwise => do
    let relation ← ask (.relation .done)
    if relations.contains relation then runSteps context permitted else runSteps context otherwise
  | .checkpoint => do
    if ← ask (.poll .done) then raise .cancelled
    pure .next

/-- Steps in order, up to the first that returns. -/
def runSteps (context : Context) : List Step → Run Flow
  | [] => pure .next
  | step :: steps => do
    match ← runStep context step with
    | .next => runSteps context steps
    | .give value => pure (.give value)

end

/-- The body that a script stands for. -/
def body (script : Script) : Body := fun context =>
  ((runSteps context script).run' []).run

end Script

end Weaving
