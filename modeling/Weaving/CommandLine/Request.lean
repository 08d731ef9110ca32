import Weaving.CommandLine.Syntax

/-!
Requests: what a command line asks for. There are three commands, to check a model, to show the advice
that is planned for its members, and to run one of them.
-/

namespace Weaving.CommandLine

/-- An invocation of one member. -/
structure RunRequest where
  file : String
  member : String
  args : List String := []
  /-- The member from whose code the call is made. -/
  caller : Option String := none
  /-- The module from whose code the call is made. -/
  module : Option String := none
  /-- The calling code runs on the receiver of the call. -/
  sameInstance : Bool := false
  settings : Option String := none
  json : Bool := false
  trace : Bool := true
  deriving DecidableEq, Repr

inductive Task where
  | check (file : String)
  | plan (file : String) (member : Option String)
  | run (request : RunRequest)
  deriving DecidableEq, Repr

structure Request where
  color : Option String := none
  task : Task
  deriving DecidableEq, Repr

/-! ## Commands -/

def verboseFlag : Flag :=
  { short := some 'v'
    long := "verbose"
    repetition := .counted
    help := "Increase log verbosity (-v, -vv, -vvv); WEFT_LOG overrides" }

def colorFlag : Flag :=
  { long := "color", value := some "COLOR", help := "Color output: auto, always or never" }

def helpFlag : Flag := { short := some 'h', long := "help", help := "Print help" }

def versionFlag : Flag := { short := some 'V', long := "version", help := "Print version" }

def fileOperand : Operand :=
  { name := "FILE", isFile := true, help := "Model file (.toml or .json)" }

def checkCommand : Command :=
  { name := "check"
    operands := [fileOperand]
    flags := [verboseFlag, colorFlag, helpFlag]
    help := "Validate a program model" }

def planCommand : Command :=
  { name := "plan"
    operands := [fileOperand]
    flags :=
      [{ short := some 'm'
         long := "member"
         value := some "MEMBER"
         help := "Only this member (`Ns.Type.Member`)" },
        verboseFlag, colorFlag, helpFlag]
    help := "Show the advice plan of each join point" }

def runCommand : Command :=
  { name := "run"
    operands :=
      [fileOperand, { name := "MEMBER", help := "Target member (`Ns.Type.Member`)" }]
    flags :=
      [{ short := some 'a'
         long := "arg"
         value := some "ARGS"
         repetition := .collected
         help := "Argument literal, repeatable" },
        verboseFlag, colorFlag,
        { long := "from"
          value := some "FROM"
          help := "Call from inside this member instead of from outside every module" },
        { long := "module"
          value := some "MODULE"
          help := "Call from module-level code of this module" },
        { long := "same-instance", help := "The calling member runs on the target's receiver" },
        { short := some 'c'
          long := "config"
          value := some "CONFIG"
          isFile := true
          help := "Engine settings file" },
        { long := "json", help := "Print a JSON report" },
        { long := "no-trace", help := "Do not record a trace" },
        helpFlag]
    help := "Invoke a member and print its trace" }

/-- The commands by name. -/
def commands : List Command := [checkCommand, planCommand, runCommand]

/-- Help as a command of its own. It takes no options. -/
def helpCommand : Command :=
  { name := "help"
    operands :=
      [{ name := "COMMAND", repeated := true, help := "Print help for the subcommand(s)" }]
    flags := []
    help := "Print this message or the help of the given subcommand(s)" }

/-- The program itself, which takes a command. -/
def program : Command :=
  { name := "weft"
    flags := [verboseFlag, colorFlag, helpFlag, versionFlag]
    help := "Caller-relation dispatch and pointcut weaving" }

/-! ## Reading -/

/-- Why there is no request. -/
inductive Refusal where
  | misuse
  /-- Help is asked for, on a command or on the program itself. -/
  | help (command : Option Command)
  | version
  deriving DecidableEq, Repr

def Stop.refusal (command : Option Command) : Stop → Refusal
  | .misuse => .misuse
  | .help => .help command
  | .version => .version

/-- The task that the options and words of a command stand for. A call is made from a member or from a
module, not both. To share the receiver one of them must be given, although only a member can do so. -/
def task? (command : Command) (reading : Reading) : Option Task :=
  match command.name, reading.words with
  | "check", [file] => some (.check file)
  | "plan", [file] => some (.plan file (reading.value? "member"))
  | "run", [file, member] =>
    let caller := reading.value? "from"
    let module := reading.value? "module"
    let sameInstance := reading.has "same-instance"
    if (caller.isSome ∧ module.isSome) ∨ (sameInstance ∧ caller.isNone ∧ module.isNone) then none
    else
      some (.run
        { file
          member
          args := reading.values "arg"
          caller
          module
          sameInstance
          settings := reading.value? "config"
          json := reading.has "json"
          trace := !reading.has "no-trace" })
  | _, _ => none

/-- A command and the words behind it. An option behind the command outranks one before it. -/
def readCommand (front : Front) (command : Command) (words : List String) :
    Except Refusal Request :=
  match read command {} none words with
  | .error stop => .error (stop.refusal (some command))
  | .ok reading =>
    match front.options, task? command reading with
    | .ok before, some task => .ok ⟨reading.value? "color" <|> before.value? "color", task⟩
    | _, _ => .error .misuse

/-- Help on the program or on one command. -/
def readHelp : List String → Refusal
  | [] => .help none
  | [name] =>
    match (commands ++ [helpCommand]).find? (·.name = name) with
    | some command => .help (some command)
    | none => .misuse
  | _ => .misuse

def Request.ofWords (words : List String) : Except Refusal Request :=
  match readFront program {} none words with
  | .error stop => .error (stop.refusal none)
  | .ok front =>
    match front.words with
    | [] => .error .misuse
    | word :: words =>
      if word = helpCommand.name then .error (readHelp words)
      else
        match commands.find? (·.name = word) with
        | none => .error .misuse
        | some command => readCommand front command words

/-- The files that a request reads. -/
def Request.files (request : Request) : List String :=
  match request.task with
  | .check file | .plan file _ => [file]
  | .run run => run.file :: run.settings.toList

end Weaving.CommandLine
