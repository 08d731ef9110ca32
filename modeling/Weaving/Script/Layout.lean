import Weaving.Script

/-!
The layout of scripts in documents. A step is a record that names its operation under `op`; operands and
receivers are records of one field where they are not plain values or words.
-/

namespace Weaving

namespace Operand

def toDocument : Operand → Document
  | .arg index => .table [("arg", .ofNat index)]
  | .var name => .table [("var", .text name)]
  | .literal value => value.toDocument

/-- The content of a record with one field. -/
def soleField? {α : Type} (name : String) (read? : Document → Option α) : Document → Option α
  | .table entries => do
    let fields ← Document.tableFields? [name] entries
    fields.required name read?
  | _ => none

/-- A position, or else the name of a variable, or else a value. -/
def ofDocument? (document : Document) : Option Operand :=
  (soleField? "arg" Document.asCount? document).map .arg <|>
    (soleField? "var" Document.asText? document).map .var <|>
    (Value.ofDocument? document).map .literal

end Operand

namespace Target

def toDocument : Target → Document
  | .this => .text "this"
  | .static => .text "static"
  | .arg index => .table [("arg", .ofNat index)]
  | .var name => .table [("var", .text name)]

/-- The receivers that are words. -/
def ofWord? (word : String) : Option Target :=
  match word with
  | "this" => some .this
  | "static" => some .static
  | _ => none

def ofDocument? (source : Document.Source) (document : Document) : Option Target :=
  match document.choice? with
  | some ("arg", content) => content.asCount?.map .arg
  | some ("var", content) => content.asText?.map .var
  | _ => document.asName? source ofWord?

end Target

namespace Step

/-- The operations, in an order that gives each a number. -/
def operations : List String :=
  ["emit", "return", "fault", "join", "call", "new", "guard", "checkpoint"]

/-- The operation that a step names. Inside a JSON document that is taken in as a whole, its number may
stand for it. -/
def operation? (source : Document.Source) : Document → Option String
  | .text name => some name
  | .int number => if source = .jsonPart ∧ 0 ≤ number then operations[number.toNat]? else none
  | _ => none

/-- A record of a step. -/
def record (operation : String) (entries : List (String × Document)) : Document :=
  .table (("op", .text operation) :: entries)

def operands (args : List Operand) : Document := .list (args.map Operand.toDocument)

mutual

def toDocument : Step → Document
  | .emit template => record "emit" [("text", .text template)]
  | .give value => record "return" [("value", value.toDocument)]
  | .fault template => record "fault" [("message", .text template)]
  | .join point args => record "join" [("name", .text point), ("args", operands args)]
  | .call member on isVirtual args into =>
    record "call"
      ([("member", .text member), ("on", on.toDocument), ("virtual", .bool isVirtual),
        ("args", operands args)] ++ Document.optionalEntry "into" .text into)
  | .allocate type into => record "new" [("type", .text type), ("into", .text into)]
  | .guard relations permitted otherwise =>
    record "guard"
      [("relations", relations.toDocument), ("then", .list (toDocuments permitted)),
        ("else", .list (toDocuments otherwise))]
  | .checkpoint => record "checkpoint" []

def toDocuments : List Step → List Document
  | [] => []
  | step :: steps => step.toDocument :: toDocuments steps

end

/-- The step of an operation with some content. Steps inside it are read by `inner?`. -/
def ofContent? (source : Document.Source) (inner? : Document → Option Step) (operation : String)
    (content : Document) : Option Step :=
  let args? := Document.asList? Operand.ofDocument?
  let steps? := Document.asList? inner?
  let read (names : List String) (step? : Document.Fields → Option Step) : Option Step :=
    content.fields? source names >>= step?
  match operation with
  | "emit" => read ["text"] fun fields => do
    some (.emit (← fields.required "text" Document.asText?))
  | "return" => read ["value"] fun fields => do
    some (.give (← fields.orElse "value" (.literal .null) Operand.ofDocument?))
  | "fault" => read ["message"] fun fields => do
    some (.fault (← fields.required "message" Document.asText?))
  | "join" => read ["name", "args"] fun fields => do
    let name ← fields.required "name" Document.asText?
    some (.join name (← fields.orElse "args" [] args?))
  | "call" => read ["member", "on", "virtual", "args", "into"] fun fields => do
    let member ← fields.required "member" Document.asText?
    let on ← fields.orElse "on" .this (Target.ofDocument? source)
    let isVirtual ← fields.orElse "virtual" false Document.asBool?
    let args ← fields.orElse "args" [] args?
    some (.call member on isVirtual args (← fields.optional "into" Document.asText?))
  | "new" => read ["type", "into"] fun fields => do
    let type ← fields.required "type" Document.asText?
    some (.allocate type (← fields.required "into" Document.asText?))
  | "guard" => read ["relations", "then", "else"] fun fields => do
    let relations ← fields.required "relations" (RelationSet.ofDocument? source)
    let permitted ← fields.orElse "then" [] steps?
    some (.guard relations permitted (← fields.orElse "else" [] steps?))
  | "checkpoint" => match content with
    | .list (_ :: _) => none
    | _ => some .checkpoint
  | _ => none

/-- A step that has no more than `limit` steps inside each other. -/
def ofNested? : Nat → Document.Source → Document → Option Step
  | 0, _, _ => none
  | limit + 1, source, document => do
    let (tag, content) ← document.tagged? "op"
    let operation ← operation? source tag
    ofContent? source.part (ofNested? limit source.part) operation content

/-- A step is taken in as a whole before its operation is known. Steps cannot lie deeper in each other
than the documents do. -/
def ofDocument? (source : Document.Source) (document : Document) : Option Step :=
  if document.isReadable then ofNested? document.height source document else none

end Step

namespace Script

def toDocument (script : Script) : Document := .list (Step.toDocuments script)

def ofDocument? (source : Document.Source) : Document → Option Script :=
  Document.asList? (Step.ofDocument? source)

end Script

end Weaving
