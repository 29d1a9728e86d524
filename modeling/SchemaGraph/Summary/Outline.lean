import SchemaGraph.Summary.Basic
import SchemaGraph.Outline.Basic

namespace SchemaGraph

open Outline

def RootSummary.outline (r : RootSummary) : Outline :=
  .record [("operation", .text r.operation.text), ("type_name", .text r.typeName)]

def FieldSummary.outline (f : FieldSummary) : Outline :=
  .record ([("name", .text f.name), ("type", .text f.type)] ++ textsEntry "args" f.arguments ++
    textEntry "deprecation_reason" f.deprecation)

def TypeContent.entries : TypeContent → List (String × Outline)
  | .scalar url => textEntry "specified_by_url" url
  | .composite interfaces fields =>
      textsEntry "interfaces" interfaces ++ listEntry "fields" (fields.map FieldSummary.outline)
  | .union members => textsEntry "members" members
  | .record fields =>
      ("shape", .text "record") :: listEntry "fields" (fields.map FieldSummary.outline)
  | .sum variants => ("shape", .text "sum") :: textsEntry "variants" variants

def TypeSummary.outline (t : TypeSummary) : Outline :=
  .record ([("name", .text t.name), ("kind", .text t.kind.text)] ++
    textEntry "description" t.description ++ t.content.entries ++
    countEntry "extensions" t.extensions)

def DirectiveSummary.outline (d : DirectiveSummary) : Outline :=
  .record ([("name", .text d.name), ("locations", texts d.locations)] ++
    flagEntry "repeatable" d.repeatable ++ textsEntry "args" d.arguments)

def Summary.outline (s : Summary) : Outline :=
  .record (textEntry "description" s.description ++
    [("roots", .list (s.roots.map RootSummary.outline)),
      ("types", .list (s.types.map TypeSummary.outline)),
      ("directives", .list (s.directives.map DirectiveSummary.outline))])

end SchemaGraph
