import SchemaGraph.Sdl.Literal
import SchemaGraph.Sdl.TypeExpr

namespace SchemaGraph

open Text (Span)

inductive Operation where
  | query
  | mutation
  | subscription
  deriving DecidableEq, Repr

namespace Operation

def all : List Operation := [.query, .mutation, .subscription]

def text : Operation → String
  | .query => "query"
  | .mutation => "mutation"
  | .subscription => "subscription"

def ofText? (s : String) : Option Operation := all.find? (·.text == s)

end Operation

inductive Kind where
  | scalar
  | object
  | interface
  | union
  | data
  deriving DecidableEq, Repr

namespace Kind

def all : List Kind := [.scalar, .object, .interface, .union, .data]

def text : Kind → String
  | .scalar => "scalar"
  | .object => "object"
  | .interface => "interface"
  | .union => "union"
  | .data => "data"

def ofText? (s : String) : Option Kind := all.find? (·.text == s)

def keyword : Kind → String
  | .scalar => "scalar"
  | .object => "type"
  | .interface => "interface"
  | .union => "resolver"
  | .data => "data"

end Kind

inductive DirectiveLocation where
  | query
  | mutation
  | subscription
  | field
  | fragmentDefinition
  | fragmentSpread
  | inlineFragment
  | variableDefinition
  | schema
  | scalar
  | object
  | fieldDefinition
  | argumentDefinition
  | interface
  | union
  | data
  | variant
  | inputFieldDefinition
  deriving DecidableEq, Repr

namespace DirectiveLocation

def all : List DirectiveLocation :=
  [.query, .mutation, .subscription, .field, .fragmentDefinition, .fragmentSpread, .inlineFragment,
    .variableDefinition, .schema, .scalar, .object, .fieldDefinition, .argumentDefinition,
    .interface, .union, .data, .variant, .inputFieldDefinition]

def text : DirectiveLocation → String
  | .query => "QUERY"
  | .mutation => "MUTATION"
  | .subscription => "SUBSCRIPTION"
  | .field => "FIELD"
  | .fragmentDefinition => "FRAGMENT_DEFINITION"
  | .fragmentSpread => "FRAGMENT_SPREAD"
  | .inlineFragment => "INLINE_FRAGMENT"
  | .variableDefinition => "VARIABLE_DEFINITION"
  | .schema => "SCHEMA"
  | .scalar => "SCALAR"
  | .object => "OBJECT"
  | .fieldDefinition => "FIELD_DEFINITION"
  | .argumentDefinition => "ARGUMENT_DEFINITION"
  | .interface => "INTERFACE"
  | .union => "UNION"
  | .data => "DATA"
  | .variant => "VARIANT"
  | .inputFieldDefinition => "INPUT_FIELD_DEFINITION"

def ofText? (s : String) : Option DirectiveLocation := all.find? (·.text == s)

def unknownMessage (s : String) : String := "unexpected directive location \"" ++ s ++ "\""

end DirectiveLocation

structure Argument where
  name : Ident
  value : Literal
  span : Span
  deriving Repr

structure Applied where
  name : Ident
  arguments : List Argument
  span : Span
  deriving Repr

structure InputDef where
  name : Ident
  description : Option String
  type : TypeExpr Ident
  default : Option Literal
  directives : List Applied
  span : Span
  deriving Repr

structure FieldDef where
  name : Ident
  description : Option String
  arguments : List InputDef
  type : TypeExpr Ident
  directives : List Applied
  span : Span
  deriving Repr

structure VariantDef where
  name : Ident
  description : Option String
  directives : List Applied
  fields : List InputDef
  span : Span
  deriving Repr

inductive TypeBody where
  | scalar
  | object (interfaces : List Ident) (fields : List FieldDef)
  | interface (interfaces : List Ident) (fields : List FieldDef)
  | union (members : List Ident)
  | data (variants : List VariantDef)
  deriving Repr

def TypeBody.kind : TypeBody → Kind
  | .scalar => .scalar
  | .object .. => .object
  | .interface .. => .interface
  | .union _ => .union
  | .data _ => .data

structure TypeDef where
  name : Ident
  description : Option String
  directives : List Applied
  body : TypeBody
  span : Span
  deriving Repr

def TypeDef.kind (d : TypeDef) : Kind := d.body.kind

structure DirectiveDef where
  name : Ident
  description : Option String
  arguments : List InputDef
  repeatable : Bool
  locations : List DirectiveLocation
  span : Span
  deriving Repr

structure OperationDef where
  operation : Operation
  type : Ident
  span : Span
  deriving Repr

structure SchemaDef where
  description : Option String
  directives : List Applied
  operations : List OperationDef
  span : Span
  deriving Repr

inductive Definition where
  | schema (d : SchemaDef)
  | schemaExtension (d : SchemaDef)
  | type (d : TypeDef)
  | typeExtension (d : TypeDef)
  | directive (d : DirectiveDef)
  deriving Repr

structure Document where
  definitions : List Definition
  deriving Repr

namespace Document

def empty : Document := ⟨[]⟩

def concat (documents : List Document) : Document := ⟨documents.flatMap definitions⟩

def types (d : Document) : List TypeDef :=
  d.definitions.filterMap fun | .type t => some t | _ => none

def typeExtensions (d : Document) : List TypeDef :=
  d.definitions.filterMap fun | .typeExtension t => some t | _ => none

def directives (d : Document) : List DirectiveDef :=
  d.definitions.filterMap fun | .directive t => some t | _ => none

def schemas (d : Document) : List SchemaDef :=
  d.definitions.filterMap fun | .schema t => some t | _ => none

def schemaExtensions (d : Document) : List SchemaDef :=
  d.definitions.filterMap fun | .schemaExtension t => some t | _ => none

end Document

end SchemaGraph
