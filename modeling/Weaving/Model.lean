import Weaving.Declaration.Layout
import Weaving.Json.Reader
import Weaving.Toml.Reader

/-!
Models: whole programs as they stand in a file, declarations and scripts together.
-/

namespace Weaving.Model

/-- Scripts in the order of their names, with one added; it replaces a script of the same name. -/
def insertScript (name : String) (script : Script) : List (String × Script) → List (String × Script)
  | [] => [(name, script)]
  | (other, held) :: rest =>
    if name < other then (name, script) :: (other, held) :: rest
    else if name = other then (name, script) :: rest
    else (other, held) :: insertScript name script rest

/-- Scripts by name. Of two with one name the later is meant. -/
def scriptsOf? (source : Document.Source) : Document → Option (List (String × Script))
  | .table entries => do
    let scripts ← entries.mapM fun (name, document) =>
      (Script.ofDocument? source document).map fun script => (name, script)
    some (scripts.foldl (fun sorted (name, script) => insertScript name script sorted) [])
  | _ => none

def toDocument (model : Model) : Document :=
  .table
    [("modules", .list (model.modules.map ModuleDeclaration.toDocument)),
      ("types", .list (model.types.map TypeDeclaration.toDocument)),
      ("members", .list (model.members.map MemberDeclaration.toDocument)),
      ("aspects", .list (model.aspects.map AspectDeclaration.toDocument)),
      ("pointcuts", .list (model.pointcuts.map PointcutDeclaration.toDocument)),
      ("bodies", .table (model.scripts.map fun (name, script) => (name, script.toDocument)))]

def ofDocument? (source : Document.Source) (document : Document) : Option Model := do
  let fields ← document.fields? source
    ["modules", "types", "members", "aspects", "pointcuts", "bodies"]
  let list (name : String) {α : Type} (read? : Document → Option α) : Option (List α) :=
    fields.orElse name [] (Document.asList? read?)
  some
    { modules := ← list "modules" (ModuleDeclaration.ofDocument? source)
      types := ← list "types" (TypeDeclaration.ofDocument? source)
      members := ← list "members" (MemberDeclaration.ofDocument? source)
      aspects := ← list "aspects" (AspectDeclaration.ofDocument? source)
      pointcuts := ← list "pointcuts" (PointcutDeclaration.ofDocument? source)
      scripts := ← fields.orElse "bodies" [] (scriptsOf? source) }

def ofJson? (text : String) : Option Model := Json.read? text >>= ofDocument? .json

def ofToml? (text : String) : Option Model := Toml.read? text >>= ofDocument? .toml

end Weaving.Model
