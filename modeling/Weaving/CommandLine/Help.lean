import Weaving.CommandLine.Request

/-!
Help texts: what a command does, how it is written, and its plain words and options, one to a line with
their descriptions in a column.
-/

namespace Weaving.CommandLine

/-- A text with blanks up to a width. -/
def pad (width : Nat) (text : String) : String :=
  text ++ String.ofList (List.replicate (width - text.length) ' ')

/-- Names and descriptions in two columns. -/
def columns (rows : List (String × String)) : String :=
  let width := (rows.map (·.1.length)).foldl max 0
  String.join (rows.map fun (name, help) => "  " ++ pad width name ++ "  " ++ help ++ "\n")

/-- A titled part of a help text; nothing if it is empty. -/
def helpPart (title : String) (rows : List (String × String)) : String :=
  if rows.isEmpty then "" else "\n" ++ title ++ ":\n" ++ columns rows

namespace Flag

def row (flag : Flag) : String × String :=
  let short := match flag.short with
    | some letter => "-" ++ letter.toString ++ ", "
    | none => "    "
  let value := match flag.value with
    | some name => " <" ++ name ++ ">"
    | none => if flag.repetition = .counted then "..." else ""
  (short ++ "--" ++ flag.long ++ value, flag.help)

end Flag

namespace Operand

def placeholder (operand : Operand) : String :=
  if operand.repeated then "[" ++ operand.name ++ "]..." else "<" ++ operand.name ++ ">"

def row (operand : Operand) : String × String := (operand.placeholder, operand.help)

end Operand

/-- How a command is written. -/
def usage : Option Command → String
  | none => "Usage: " ++ program.name ++ " [OPTIONS] <COMMAND>"
  | some command =>
    "Usage: " ++ program.name ++ " " ++ command.name ++
      (if command.flags.isEmpty then "" else " [OPTIONS]") ++
      String.join (command.operands.map fun operand => " " ++ operand.placeholder)

/-- The commands, and help on them. -/
def commandRows : List (String × String) :=
  (commands ++ [helpCommand]).map fun command => (command.name, command.help)

def helpText (command : Option Command) : String :=
  let shown := command.getD program
  shown.help ++ "\n\n" ++ usage command ++ "\n" ++
    helpPart "Commands" (if command.isNone then commandRows else []) ++
    helpPart "Arguments" (shown.operands.map Operand.row) ++
    helpPart "Options" (shown.flags.map Flag.row)

def versionText : String := program.name ++ " 0.1.0\n"

end Weaving.CommandLine
