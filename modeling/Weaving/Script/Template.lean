import Weaving.Decimal.Nearest
import Weaving.Document
import Weaving.Text.Split

/-!
Templates: text with placeholders between braces. A key ends at the first closing brace behind its
opening one; an opening brace that is never closed is text, with all that follows it.
-/

namespace Weaving.Template

inductive Piece where
  | text (cs : List Char)
  | placeholder (key : List Char)
  deriving DecidableEq

theorem length_lt_of_splitFirst? {separator : Char} {cs before after : List Char}
    (found : Text.splitFirst? separator cs = some (before, after)) : after.length < cs.length := by
  have shape := congrArg List.length (Text.splitFirst?_eq_some_iff.mp found).1
  simp only [List.length_append, List.length_cons] at shape
  omega

/-- The pieces of a template in order. -/
def pieces (cs : List Char) : List Piece :=
  match opening : Text.splitFirst? '{' cs with
  | none => [.text cs]
  | some (before, inside) =>
    match closing : Text.splitFirst? '}' inside with
    | none => [.text cs]
    | some (key, after) =>
      have := length_lt_of_splitFirst? opening
      have := length_lt_of_splitFirst? closing
      .text before :: .placeholder key :: pieces after
termination_by cs.length

/-- A piece as it stands in the template. -/
def Piece.written : Piece → List Char
  | .text cs => cs
  | .placeholder key => '{' :: (key ++ ['}'])

/-- The template with a text in the place of each key that has one. -/
def expand (value? : List Char → Option (List Char)) (template : List Char) : List Char :=
  (pieces template).flatMap fun piece =>
    match piece with
    | .text cs => cs
    | .placeholder key => (value? key).getD piece.written

/-- A key that is the position of an argument: digits after an optional plus sign, within 64 bits. -/
def position? (key : List Char) : Option Nat :=
  let digits := match key with
    | '+' :: rest => rest
    | _ => key
  if digits.isEmpty then none
  else (Decimal.natural? digits).filter (· ≤ Document.greatestWord)

end Weaving.Template
