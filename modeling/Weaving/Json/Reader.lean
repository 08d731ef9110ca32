import Weaving.Json.Token

/-!
Reading JSON text. The reader goes through the tokens once, with the unfinished lists and tables on a
stack. A container at a depth of 128 or more has no value, and neither has a table with a key that has
no content.
-/

namespace Weaving.Json

/-- An unfinished container: what it holds so far, in reverse. In a table a key waits for its value. -/
inductive Frame where
  | list (items : List Document)
  | table (entries : List (Option String × Document)) (key : Option String)

/-- What may come next. The unfinished containers around it are innermost first. -/
inductive Expecting where
  | value (stack : List Frame)
  | firstItem (stack : List Frame)
  | nextItem (items : List Document) (stack : List Frame)
  | firstKey (stack : List Frame)
  | key (entries : List (Option String × Document)) (stack : List Frame)
  | colon (entries : List (Option String × Document)) (key : Option String) (stack : List Frame)
  | nextEntry (entries : List (Option String × Document)) (stack : List Frame)
  | nothing (document : Document)

/-- Containers nest below this depth. -/
def depthLimit : Nat := 128

/-- A container inside these unfinished ones keeps its value only below the depth limit. -/
def close (stack : List Frame) (document : Document) : Document :=
  if stack.length + 1 < depthLimit then document else .unreadable

/-- A finished table. -/
def tableOf (entries : List (Option String × Document)) : Document :=
  match entries.mapM fun (key, document) => key.map (·, document) with
  | some entries => .table entries
  | none => .unreadable

/-- A finished value goes into the innermost container. -/
def deliver (document : Document) : List Frame → Expecting
  | [] => .nothing document
  | .list items :: stack => .nextItem (document :: items) stack
  | .table entries key :: stack => .nextEntry ((key, document) :: entries) stack

/-- A token where a value may start. -/
def startValue? (stack : List Frame) : Token → Option Expecting
  | .openList => some (.firstItem stack)
  | .openTable => some (.firstKey stack)
  | .text (some content) => some (deliver (.text content) stack)
  | .text none => some (deliver .unreadable stack)
  | .scalar document => some (deliver document stack)
  | _ => none

/-- One token. -/
def step? : Expecting → Token → Option Expecting
  | .value stack, token => startValue? stack token
  | .firstItem stack, .closeList => some (deliver (close stack (.list [])) stack)
  | .firstItem stack, token => startValue? (.list [] :: stack) token
  | .nextItem items stack, .comma => some (.value (.list items :: stack))
  | .nextItem items stack, .closeList =>
    some (deliver (close stack (.list items.reverse)) stack)
  | .firstKey stack, .closeTable => some (deliver (close stack (.table [])) stack)
  | .firstKey stack, .text key => some (.colon [] key stack)
  | .key entries stack, .text key => some (.colon entries key stack)
  | .colon entries key stack, .colon => some (.value (.table entries key :: stack))
  | .nextEntry entries stack, .comma => some (.key entries stack)
  | .nextEntry entries stack, .closeTable =>
    some (deliver (close stack (tableOf entries.reverse)) stack)
  | _, _ => none

/-- The document of a sequence of tokens. -/
def ofTokens? (tokens : List Token) : Option Document :=
  match tokens.foldlM step? (.value []) with
  | some (.nothing document) => some document
  | _ => none

/-- The document that a text stands for. -/
def read? (text : String) : Option Document :=
  scan? .between text.toList >>= ofTokens?

end Weaving.Json
