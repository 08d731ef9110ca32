import Weaving.CommandLine.Help
import Weaving.Terminal
import Weaving.Value.Literal
import Weaving.Weaver.Invocation

/-!
Reports: what a request prints. A report goes to two streams, and says whether the request succeeded. A
request that cannot be carried out at all ends with a failure instead.
-/

namespace Weaving.CommandLine

open Terminal (Piece Style)

structure Report where
  succeeded : Bool := true
  out : List Piece := []
  err : List Piece := []
  deriving DecidableEq, Repr

/-- Why a request is not carried out. -/
inductive Failure where
  /-- A file cannot be read, or not as what it should be. -/
  | unreadable (file : String)
  | rejected (problems : List Problem)
  | noSuchMember (path : String)
  | noSuchCaller (path : String)
  | noSuchModule (name : String)
  deriving DecidableEq, Repr

namespace Failure

def message : Failure → String
  | .unreadable file => "loading " ++ file
  | .rejected problems => Problem.report problems
  | .noSuchMember path => "no such member: " ++ path
  | .noSuchCaller path => "no such caller: " ++ path
  | .noSuchModule name => "no such module: " ++ name

/-- What a failure comes from, where that is another one. -/
def cause : Failure → String
  | .unreadable _ => "\n\nCaused by:\n    the file is missing or malformed"
  | _ => ""

def report (failure : Failure) : Report :=
  { succeeded := false, err := [.line ("Error: " ++ failure.message ++ failure.cause)] }

end Failure

/-! ## Lines -/

def successLine : String → Piece := .styledLine { bold := true, color := some .green }

def headingLine : String → Piece := .styledLine { color := some .cyan }

def dimLine : String → Piece := .styledLine { dimmed := true }

/-- A line about an error, on the stream for errors. -/
def errorLine (text : String) : List Piece :=
  [{ text := "error", style := some { bold := true, color := some .red } }, .line (": " ++ text)]

/-- The style of an event. -/
def eventStyle : Event → Style
  | .enter _ _ _ _ | .exit _ => { dimmed := true }
  | .advice _ _ _ => { color := some .cyan }
  | .masked _ _ | .shortCircuit _ _ => { color := some .yellow }
  | .fault _ _ => { color := some .red }

def eventLine (registry : Registry) (event : Event) : Piece :=
  .styledLine (eventStyle event) ("  " ++ registry.describeEvent event)

/-! ## Models -/

/-- What stands behind the last dot of the last part of a path, unless the dot comes first. -/
def extension? (path : String) : Option String :=
  let name := (Text.splitOn '/' path.toList).getLastD []
  match Text.splitLast? '.' name with
  | none | some ([], _) => none
  | some (_, extension) => some (String.ofList extension)

/-- The model in a file: JSON by its extension, and TOML otherwise. -/
def loadModel (read? : String → Option String) (file : String) : Except Failure Model :=
  let parse := if extension? file = some "json" then Model.ofJson? else Model.ofToml?
  match read? file >>= parse with
  | some model => .ok model
  | none => .error (.unreadable file)

def buildModel (model : Model) : Except (List Problem) Program :=
  Program.build model.toDeclarations model.bindings

/-- The program in a file, which must be free of problems. -/
def loadProgram (read? : String → Option String) (file : String) : Except Failure Program := do
  match buildModel (← loadModel read? file) with
  | .ok program => .ok program
  | .error problems => .error (.rejected problems)

/-! ## Checking -/

/-- How many declarations of each kind there are. -/
def summary (registry : Registry) : String :=
  Nat.repr registry.modules.length ++ " module(s), " ++ Nat.repr registry.types.length ++
    " type(s), " ++ Nat.repr registry.members.length ++ " member(s), " ++
    Nat.repr registry.pointcuts.length ++ " pointcut(s)"

def checkReport (read? : String → Option String) (file : String) : Except Failure Report := do
  match buildModel (← loadModel read? file) with
  | .ok program =>
    .ok { out := [successLine (file ++ ": ok"), .line (summary program.registry)] }
  | .error problems =>
    .ok
      { succeeded := false
        out := [.line (file ++ ": " ++ Nat.repr problems.length ++ " error(s)")]
        err := problems.flatMap fun problem => errorLine problem.message }

/-! ## Plans -/

/-- The sites of a member in the order in which a run comes to them, with labels. -/
def labelledSites (member : MemberEntry) : List (String × Site) :=
  ("entry", .entry member.id) ::
    member.points.zipIdx.map (fun (point, index) =>
      ("point " ++ point.name, .point member.id index)) ++
    [("exit", .exit member.id)]

def adviceLine (label : String) (pointcut : PointcutEntry) : String :=
  "  " ++ pad 12 label ++ " " ++ pad 6 pointcut.advice.name ++ " " ++ pointcut.id.label ++ " `" ++
    pointcut.source ++ "`"

def adviceLines (registry : Registry) (member : MemberEntry) : List String :=
  (labelledSites member).flatMap fun (label, site) =>
    ((registry.plan site).all.filterMap registry.pointcut?).map (adviceLine label)

/-- The plan of a member under its path. -/
def planLines (registry : Registry) (member : MemberEntry) : List String :=
  let advice := adviceLines registry member
  registry.memberPath member.id :: if advice.isEmpty then ["  (no advice)"] else advice

/-- The lines of plans; those that start with a blank belong to the line above them. -/
def planPieces (lines : List String) : List Piece :=
  if lines.isEmpty then [dimLine "no advice matches any join point"]
  else
    lines.map fun text =>
      if text.toList.head? = some ' ' then .line text else headingLine text

/-- The plan of one member, or of all members that have advice. -/
def planReport (read? : String → Option String) (file : String) (path : Option String) :
    Except Failure Report := do
  let registry := (← loadProgram read? file).registry
  match path with
  | none =>
    let advised := registry.members.filter fun member => !(adviceLines registry member).isEmpty
    .ok { out := planPieces (advised.flatMap (planLines registry)) }
  | some path =>
    match registry.findMember? path >>= registry.member? with
    | none => .error (.noSuchMember path)
    | some member => .ok { out := planPieces (planLines registry member) }

/-! ## Runs -/

def loadSettings (read? : String → Option String) : Option String → Except Failure Settings
  | none => .ok {}
  | some file =>
    match (read? file).map Settings.ofToml with
    | some (.ok settings) => .ok settings
    | _ => .error (.unreadable file)

/-- An object for the code of a member that has a receiver. -/
def receiverFor (member : MemberEntry) : StateM Shared (Option ObjectRef) :=
  if member.isStatic then pure none
  else do
    let object ← modifyGet (Shared.allocate member.owner)
    pure (some object)

/-- The code from which a request makes its call. -/
def callerFor (registry : Registry) (request : RunRequest) (receiver : Option ObjectRef)
    (shared : Shared) : Except Failure (Caller × Shared) :=
  match request.caller, request.module with
  | some path, _ =>
    match registry.findMember? path >>= registry.member? with
    | none => .error (.noSuchCaller path)
    | some member =>
      let (this, shared) :=
        if request.sameInstance then (receiver, shared) else (receiverFor member).run shared
      .ok (registry.callerInMember member.id this, shared)
  | none, some name =>
    match registry.findModule? name with
    | none => .error (.noSuchModule name)
    | some module => .ok (.inModule module, shared)
  | none, none => .ok (.external, shared)

/-- What an invocation has brought about, as a document. -/
def invocationDocument (registry : Registry) (invocation : Invocation) (output : List String) :
    Document :=
  let result := match invocation.result with
    | .ok value => ("result", value.toDocument)
    | .error fault => ("fault", fault.toDocument)
  .table
    [result, ("output", Document.ofTexts output),
      ("trace", Document.ofTexts (invocation.trace.map registry.describeEvent))]

/-- What an invocation has brought about, for people. -/
def invocationReport (registry : Registry) (invocation : Invocation) (output : List String) :
    Report :=
  let trace :=
    if invocation.trace.isEmpty then []
    else headingLine "trace:" :: invocation.trace.map (eventLine registry)
  let out := output.map Piece.line ++ trace
  match invocation.result with
  | .ok value => { out := out ++ [successLine ("=> " ++ value.display)] }
  | .error fault => { succeeded := false, out, err := errorLine fault.message }

def runReport (read? : String → Option String) (request : RunRequest) : Except Failure Report := do
  let program ← loadProgram read? request.file
  let loaded ← loadSettings read? request.settings
  let settings := if request.trace then loaded else { loaded with trace := false }
  let weaver : Weaver := { program with settings }
  let registry := weaver.registry
  match registry.findMember? request.member >>= registry.member? with
  | none => .error (.noSuchMember request.member)
  | some member =>
    let (receiver, shared) := (receiverFor member).run {}
    let (caller, shared) ← callerFor registry request receiver shared
    let call : Call := ⟨member.id, receiver, request.args.map Value.ofLiteral⟩
    let (invocation, shared) := (weaver.callFrom caller call).run shared
    if request.json then
      let document := invocationDocument registry invocation shared.output
      .ok { succeeded := invocation.result.isOk, out := [.line document.toPrettyJson] }
    else .ok (invocationReport registry invocation shared.output)

/-- The report on a task, with the files that it may read. -/
def Task.report (read? : String → Option String) (task : Task) : Report :=
  let result := match task with
    | .check file => checkReport read? file
    | .plan file path => planReport read? file path
    | .run request => runReport read? request
  match result with
  | .ok report => report
  | .error failure => failure.report

end Weaving.CommandLine
