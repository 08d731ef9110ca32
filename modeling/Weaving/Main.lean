import Weaving.CommandLine.Answer

/-!
The program: reads the files that the command line names, and prints the answer.
-/

open Weaving.CommandLine

/-- The text of a file, if it can be read. -/
def readText (file : String) : IO (String × Option String) := do
  try
    pure (file, some (← IO.FS.readFile file))
  catch _ =>
    pure (file, none)

def answerTo (words : List String) : IO Answer := do
  match Request.ofWords words with
  | .error refusal => pure refusal.answer
  | .ok request =>
    let files ← request.files.mapM readText
    let environment : Environment :=
      { noColor := (← IO.getEnv "NO_COLOR").isSome, terminal := ← IO.getEnv "TERM" }
    pure (request.answer environment fun file => (files.lookup file).join)

def main (words : List String) : IO UInt32 := do
  let answer ← answerTo words
  IO.print answer.out
  IO.eprint answer.err
  pure answer.exitCode.toUInt32
