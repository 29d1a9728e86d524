import SchemaGraph.Schema.Graph
import SchemaGraph.Schema.Coercion
import SchemaGraph.Json.Printer

namespace SchemaGraph

structure RootSummary where
  operation : Operation
  typeName : String
  deriving DecidableEq, Repr

structure FieldSummary where
  name : String
  type : String
  arguments : List String
  deprecation : Option String
  deriving DecidableEq, Repr

inductive TypeContent where
  | scalar (specifiedBy : Option String)
  | composite (interfaces : List String) (fields : List FieldSummary)
  | union (members : List String)
  | record (fields : List FieldSummary)
  | sum (variants : List String)
  deriving DecidableEq, Repr

structure TypeSummary where
  name : String
  kind : Kind
  description : Option String
  content : TypeContent
  extensions : Nat
  deriving DecidableEq, Repr

structure DirectiveSummary where
  name : String
  locations : List String
  repeatable : Bool
  arguments : List String
  deriving DecidableEq, Repr

structure Summary where
  description : Option String
  roots : List RootSummary
  types : List TypeSummary
  directives : List DirectiveSummary
  deriving DecidableEq, Repr

namespace InputValue

def signature (l : Lineage) (v : InputValue) : String :=
  let typed := v.name ++ ": " ++ renderType v.type
  match v.defaultValue? l with
  | some default => typed ++ " = " ++ default.compact
  | none => typed

def summary (v : InputValue) : FieldSummary := ⟨v.name, renderType v.type, [], v.deprecation?⟩

end InputValue

def Field.summary (l : Lineage) (f : Field) : FieldSummary :=
  ⟨f.name, renderType f.type, f.arguments.map (InputValue.signature l), f.deprecation?⟩

def Body.summary (l : Lineage) : Body → TypeContent
  | .scalar url => .scalar url
  | .object fields interfaces => .composite (interfaces.map Ref.name) (fields.map (Field.summary l))
  | .interface fields interfaces => .composite (interfaces.map Ref.name) (fields.map (Field.summary l))
  | .union members => .union (members.map Ref.name)
  | .data variants =>
      match record? variants with
      | some v => .record (v.fields.map InputValue.summary)
      | none => .sum (variants.map Variant.name)

def NamedType.summary (l : Lineage) (t : NamedType) : TypeSummary :=
  ⟨t.name, t.kind, t.node.description, t.body.summary l, t.extensions.length⟩

def Directive.summary (l : Lineage) (d : Directive) : DirectiveSummary :=
  ⟨d.name, d.node.locations.map DirectiveLocation.text, d.node.repeatable,
    d.arguments.map (InputValue.signature l)⟩

namespace Snapshot

def rootSummary? (s : Snapshot) (operation : Operation) : Option RootSummary :=
  (s.roots.get operation).map fun r => ⟨operation, r.name⟩

end Snapshot

def Schema.summary (s : Schema) (builtins : Bool) : Summary :=
  let l := s.snapshot.lineage
  { description := s.snapshot.description
    roots := Operation.all.filterMap s.snapshot.rootSummary?
    types :=
      (s.typeMap.filter fun t => builtins || !Builtin.isBuiltin t.name).map (NamedType.summary l)
    directives :=
      (s.snapshot.directives.filter fun d => builtins || !Builtin.isDirective d.name).map
        (Directive.summary l) }

end SchemaGraph
