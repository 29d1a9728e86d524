import SchemaGraph.Summary.Basic

namespace SchemaGraph

def line (text : String) : String := text ++ "\n"

def phrase (lead separator : String) (items : List String) : String :=
  if items.isEmpty then "" else lead ++ separator.intercalate items

def argumentList (items : List String) : String :=
  if items.isEmpty then "" else "(" ++ ", ".intercalate items ++ ")"

def RootSummary.listing (r : RootSummary) : String := line (r.operation.text ++ ": " ++ r.typeName)

def FieldSummary.listing (f : FieldSummary) : String :=
  line ("  " ++ f.name ++ argumentList f.arguments ++ ": " ++ f.type ++
    f.deprecation.elim "" fun reason => " [deprecated: " ++ reason ++ "]")

namespace TypeContent

def heading : TypeContent → String
  | .scalar url => url.elim "" fun u => " @specifiedBy(" ++ u ++ ")"
  | .composite interfaces _ => phrase " implements " " & " interfaces
  | .union members => phrase " = " " | " members
  | .record _ => " (record)"
  | .sum variants => " (sum)" ++ phrase " = " " | " variants

def shownFields : TypeContent → List FieldSummary
  | .composite _ fields => fields
  | .record fields => fields
  | _ => []

end TypeContent

def TypeSummary.listing (t : TypeSummary) : String :=
  line "" ++ line (t.kind.text ++ " " ++ t.name ++ t.content.heading) ++
    String.join (t.content.shownFields.map FieldSummary.listing)

def DirectiveSummary.listing (d : DirectiveSummary) : String :=
  line ("@" ++ d.name ++ argumentList d.arguments ++ (if d.repeatable then " repeatable" else "") ++
    " on " ++ " | ".intercalate d.locations)

def Summary.listing (s : Summary) : String :=
  s.description.elim "" (fun d => line ("# " ++ d)) ++
    String.join (s.roots.map RootSummary.listing) ++
    String.join (s.types.map TypeSummary.listing) ++
    (if s.directives.isEmpty then "" else line "") ++
    String.join (s.directives.map DirectiveSummary.listing)

end SchemaGraph
