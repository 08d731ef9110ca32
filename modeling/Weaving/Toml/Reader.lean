import Weaving.Toml.Scalar
import Weaving.Toml.Table
import Weaving.Toml.Text

/-!
Reading TOML text. Values nest less than eighty deep, and keys have fewer than eighty parts. A document
is read line by line; the entries of a line go into the table that the last header opened.
-/

namespace Weaving.Toml

/-- Values nest less deep than this, and keys have fewer parts. -/
def depthLimit : Nat := 80

/-! ## Keys -/

def isKeyChar (c : Char) : Bool := c.isAlphanum || c = '_' || c = '-'

/-- One part of a key: bare, or quoted on one line. -/
def simpleKey? : List Char → Option (List Char × List Char)
  | '"' :: cs => basic? cs
  | '\'' :: cs => literal? cs
  | cs =>
    let (key, rest) := cs.span isKeyChar
    if key.isEmpty then none else some (key, rest)

/-- At most `count` parts between dots, with blanks around each. -/
def keyParts? : Nat → List Char → Option (List String × List Char)
  | 0, _ => none
  | count + 1, cs => do
    let (part, rest) ← simpleKey? (skipBlanks cs)
    match skipBlanks rest with
    | '.' :: rest =>
      let (parts, rest) ← keyParts? count rest
      some (String.ofList part :: parts, rest)
    | rest => some ([String.ofList part], rest)

/-- A dotted key: the tables on the way, and the last part. -/
def key? (cs : List Char) : Option ((List String × String) × List Char) := do
  let (parts, rest) ← keyParts? (depthLimit - 1) cs
  let last ← parts.getLast?
  some ((parts.dropLast, last), rest)

/-! ## Values -/

/-- An assignment, whose value is read by `value?`. -/
def assignment? (value? : List Char → Option (Document × List Char)) (entries : Entries)
    (cs : List Char) : Option (Entries × List Char) := do
  let ((path, key), rest) ← key? cs
  match rest with
  | '=' :: rest =>
    let (document, rest) ← value? (skipBlanks rest)
    some (← entries.assign? path key document, rest)
  | _ => none

/-- At most `count` items of a list, up to its closing bracket. A comma may follow the last one. -/
def items? (value? : List Char → Option (Document × List Char)) :
    Nat → List Char → Option (List Document × List Char)
  | 0, _ => none
  | count + 1, cs =>
    match skipSpace false cs with
    | ']' :: rest => some ([], rest)
    | cs => do
      let (item, rest) ← value? cs
      match skipSpace false rest with
      | ']' :: rest => some ([item], rest)
      | ',' :: rest =>
        let (items, rest) ← items? value? count rest
        some (item :: items, rest)
      | _ => none

/-- At most `count` more entries of a table on one line, up to its closing brace. -/
def entries? (value? : List Char → Option (Document × List Char)) :
    Nat → Entries → List Char → Option (Entries × List Char)
  | 0, _, _ => none
  | count + 1, entries, cs => do
    let (entries, rest) ← assignment? value? entries cs
    match skipBlanks rest with
    | '}' :: rest => some (entries, rest)
    | ',' :: rest => entries? value? count entries rest
    | _ => none

/-- A table on one line, whose opening brace has been taken. -/
def inlineTable? (value? : List Char → Option (Document × List Char)) (cs : List Char) :
    Option (Document × List Char) :=
  match skipBlanks cs with
  | '}' :: rest => some (.table [], rest)
  | cs => do
    let (entries, rest) ← entries? value? cs.length [] cs
    some (.table (Node.entriesDocument entries), rest)

/-- A value that nests at most `depth` deep. -/
def value? (depth : Nat) (cs : List Char) : Option (Document × List Char) :=
  match cs, depth with
  | '[' :: rest, depth + 1 => do
    let (items, rest) ← items? (value? depth) (rest.length + 1) rest
    some (.list items, rest)
  | '{' :: rest, depth + 1 => inlineTable? (value? depth) rest
  | '"' :: _, _ | '\'' :: _, _ =>
    (string? cs).map fun (content, rest) => (.text (String.ofList content), rest)
  | _, _ => scalar? cs

/-! ## Lines -/

/-- A document so far, and the table that the last header opened. -/
structure State where
  root : Entries
  table : List String

/-- The key between the brackets of a header. -/
def header? (close : List Char) (cs : List Char) : Option ((List String × String) × List Char) := do
  let (key, rest) ← key? cs
  if close.isPrefixOf rest then some (key, rest.drop close.length) else none

/-- One header or assignment. -/
def line? (state : State) (cs : List Char) : Option (State × List Char) :=
  match cs with
  | '[' :: '[' :: cs => do
    let ((path, key), rest) ← header? [']', ']'] cs
    some (⟨← state.root.openItem? path key, path ++ [key]⟩, rest)
  | '[' :: cs => do
    let ((path, key), rest) ← header? [']'] cs
    some (⟨← state.root.openTable? path key, path ++ [key]⟩, rest)
  | _ => do
    let ((path, key), rest) ← key? cs
    match rest with
    | '=' :: rest =>
      let (document, rest) ← value? (depthLimit - 1) (skipBlanks rest)
      let enter (_ : Origin) (entries : Entries) : Option Entries := entries.assign? path key document
      some (⟨← Entries.within? .path enter state.table .header state.root, state.table⟩, rest)
    | _ => none

/-- At most `count` lines. -/
def lines? : Nat → State → List Char → Option Entries
  | 0, _, _ => none
  | count + 1, state, cs =>
    match skipSpace false cs with
    | [] => some state.root
    | cs => do
      let (state, rest) ← line? state cs
      lines? count state (← finishLine? rest)

/-- The document that a text stands for. A mark of the order of its bytes may come first. -/
def read? (text : String) : Option Document :=
  let cs := match text.toList with
    | '\ufeff' :: cs => cs
    | cs => cs
  (lines? (cs.length + 1) ⟨[], []⟩ cs).map fun entries => .table (Node.entriesDocument entries)

end Weaving.Toml
