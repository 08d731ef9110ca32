import Weaving.Declaration
import Weaving.Script.Layout

/-!
The layout of declarations in documents. Each declaration is a record; fields that have a value of their
own may be left out, and are always written unless they stand for something absent.
-/

namespace Weaving

open Document (optionalEntry asText? asBool? asList? ofTexts)

namespace ModuleDeclaration

def toDocument (module : ModuleDeclaration) : Document := .table [("name", .text module.name)]

def ofDocument? (source : Document.Source) (document : Document) : Option ModuleDeclaration := do
  let fields ← document.fields? source ["name"]
  some ⟨← fields.required "name" asText?⟩

end ModuleDeclaration

/-- The default of a field for a visibility. -/
def visibilityField (source : Document.Source) (fields : Document.Fields) : Option Visibility :=
  fields.orElse "visibility" .everywhere (Document.asName? source Visibility.ofName?)

namespace TypeDeclaration

def toDocument (type : TypeDeclaration) : Document :=
  .table
    ([("name", .text type.name), ("namespace", .text type.scope), ("module", .text type.module)] ++
      optionalEntry "base" .text type.base ++
      [("capabilities", ofTexts type.capabilities), ("visibility", .text type.visibility.name)])

def ofDocument? (source : Document.Source) (document : Document) : Option TypeDeclaration := do
  let fields ← document.fields? source
    ["name", "namespace", "module", "base", "capabilities", "visibility"]
  some
    { name := ← fields.required "name" asText?
      scope := ← fields.orElse "namespace" "" asText?
      module := ← fields.required "module" asText?
      base := ← fields.optional "base" asText?
      capabilities := ← fields.orElse "capabilities" [] (asList? asText?)
      visibility := ← visibilityField source fields }

end TypeDeclaration

namespace DefaultDeclaration

def toDocument : DefaultDeclaration → Document
  | .computed body => .table [("computed", .text body)]
  | .const value => value.toDocument

/-- The name of a body, or else a value. -/
def ofDocument? (document : Document) : Option DefaultDeclaration :=
  if document.isReadable then
    (Operand.soleField? "computed" asText? document).map .computed <|>
      (Value.ofDocument? document).map .const
  else none

end DefaultDeclaration

namespace ParamDeclaration

def toDocument (param : ParamDeclaration) : Document :=
  .table
    ([("name", .text param.name), ("type", .text param.type)] ++
      optionalEntry "default" DefaultDeclaration.toDocument param.default ++
      optionalEntry "relations" RelationSet.toDocument param.relations)

def ofDocument? (source : Document.Source) (document : Document) : Option ParamDeclaration := do
  let fields ← document.fields? source ["name", "type", "default", "relations"]
  some
    { name := ← fields.required "name" asText?
      type := ← fields.required "type" asText?
      default := ← fields.optional "default" DefaultDeclaration.ofDocument?
      relations := ← fields.optional "relations" (RelationSet.ofDocument? source) }

end ParamDeclaration

namespace VariantDeclaration

def toDocument (variant : VariantDeclaration) : Document :=
  .table [("relations", variant.relations.toDocument), ("body", .text variant.body)]

def ofDocument? (source : Document.Source) (document : Document) : Option VariantDeclaration := do
  let fields ← document.fields? source ["relations", "body"]
  some
    { relations := ← fields.required "relations" (RelationSet.ofDocument? source)
      body := ← fields.required "body" asText? }

end VariantDeclaration

namespace PointDeclaration

def toDocument (point : PointDeclaration) : Document :=
  .table [("name", .text point.name), ("params", ofTexts point.params)]

def ofDocument? (source : Document.Source) (document : Document) : Option PointDeclaration := do
  let fields ← document.fields? source ["name", "params"]
  some
    { name := ← fields.required "name" asText?
      params := ← fields.orElse "params" [] (asList? asText?) }

end PointDeclaration

namespace MemberDeclaration

def toDocument (member : MemberDeclaration) : Document :=
  .table
    ([("owner", .text member.owner), ("kind", .text member.kind.name), ("name", .text member.name),
      ("params", .list (member.params.map ParamDeclaration.toDocument)),
      ("returns", .text member.returns), ("visibility", .text member.visibility.name),
      ("static", .bool member.isStatic), ("passthru", .bool member.passthru)] ++
      optionalEntry "body" .text member.body ++
      [("variants", .list (member.variants.map VariantDeclaration.toDocument)),
        ("join_points", .list (member.points.map PointDeclaration.toDocument))])

def ofDocument? (source : Document.Source) (document : Document) : Option MemberDeclaration := do
  let fields ← document.fields? source
    ["owner", "kind", "name", "params", "returns", "visibility", "static", "passthru", "body",
      "variants", "join_points"]
  some
    { owner := ← fields.required "owner" asText?
      kind := ← fields.orElse "kind" .function (Document.asName? source MemberKind.ofName?)
      name := ← fields.required "name" asText?
      params := ← fields.orElse "params" [] (asList? (ParamDeclaration.ofDocument? source))
      returns := ← fields.orElse "returns" "void" asText?
      visibility := ← visibilityField source fields
      isStatic := ← fields.orElse "static" false asBool?
      passthru := ← fields.orElse "passthru" false asBool?
      body := ← fields.optional "body" asText?
      variants := ← fields.orElse "variants" [] (asList? (VariantDeclaration.ofDocument? source))
      points := ← fields.orElse "join_points" [] (asList? (PointDeclaration.ofDocument? source)) }

end MemberDeclaration

namespace AspectDeclaration

def toDocument (aspect : AspectDeclaration) : Document :=
  .table
    ([("name", .text aspect.name), ("module", .text aspect.module)] ++
      optionalEntry "scope" .text aspect.scope)

def ofDocument? (source : Document.Source) (document : Document) : Option AspectDeclaration := do
  let fields ← document.fields? source ["name", "module", "scope"]
  some
    { name := ← fields.required "name" asText?
      module := ← fields.required "module" asText?
      scope := ← fields.optional "scope" asText? }

end AspectDeclaration

namespace OwnerDeclaration

def toDocument : OwnerDeclaration → Document
  | .aspect name => .table [("aspect", .text name)]
  | .type name => .table [("type", .text name)]

def ofDocument? (document : Document) : Option OwnerDeclaration :=
  match document.choice? with
  | some ("aspect", content) => content.asText?.map .aspect
  | some ("type", content) => content.asText?.map .type
  | _ => none

end OwnerDeclaration

namespace PointcutDeclaration

def toDocument (pointcut : PointcutDeclaration) : Document :=
  .table
    ([("advice", .text pointcut.advice.name), ("pattern", .text pointcut.pattern)] ++
      optionalEntry "returns" .text pointcut.returns ++
      [("body", .text pointcut.body), ("owner", pointcut.owner.toDocument)])

def ofDocument? (source : Document.Source) (document : Document) : Option PointcutDeclaration := do
  let fields ← document.fields? source ["advice", "pattern", "returns", "body", "owner"]
  some
    { advice := ← fields.required "advice" (Document.asName? source AdviceKind.ofName?)
      pattern := ← fields.required "pattern" asText?
      returns := ← fields.optional "returns" asText?
      body := ← fields.required "body" asText?
      owner := ← fields.required "owner" OwnerDeclaration.ofDocument? }

end PointcutDeclaration

end Weaving
