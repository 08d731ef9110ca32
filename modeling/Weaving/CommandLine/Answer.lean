import Weaving.CommandLine.Report

/-!
Answers: the exit code and the texts with which the program ends. Colours are used unless the
environment forbids them; what the command line says about them comes next, and the kind of the terminal
last.
-/

namespace Weaving.CommandLine

/-- What the environment says about the terminal. -/
structure Environment where
  /-- Colours are not wanted at all. -/
  noColor : Bool := false
  terminal : Option String := none
  deriving DecidableEq, Repr

/-- Whether text is coloured, with what the command line says about it. -/
def Environment.isColored (environment : Environment) (color : Option String) : Bool :=
  if environment.noColor then false
  else
    match color with
    | some "always" => true
    | some "never" => false
    | _ => environment.terminal.any (· ≠ "dumb")

structure Answer where
  exitCode : Nat := 0
  out : String := ""
  err : String := ""
  deriving DecidableEq, Repr

def Refusal.answer : Refusal → Answer
  | .misuse =>
    { exitCode := 2, err := usage none ++ "\n\nFor more information, try '--help'.\n" }
  | .help command => { out := helpText command }
  | .version => { out := versionText }

def Report.answer (report : Report) (colored : Bool) : Answer :=
  { exitCode := if report.succeeded then 0 else 1
    out := Terminal.render colored report.out
    err := Terminal.render colored report.err }

/-- The answer to a command line that has been read. -/
def Request.answer (environment : Environment) (read? : String → Option String) (request : Request) :
    Answer :=
  (request.task.report read?).answer (environment.isColored request.color)

end Weaving.CommandLine
