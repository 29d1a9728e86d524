import SchemaGraph.Schema.Build

namespace SchemaGraph

namespace TypeExpr

def ofCharsWithin : Nat → List Char → TypeExpr Ident
  | 0, cs => .named ⟨String.ofList cs, .nowhere⟩
  | fuel + 1, cs =>
      if cs.getLast? = some '!' then .nonNull (ofCharsWithin fuel cs.dropLast)
      else if cs.head? = some '[' ∧ cs.tail.getLast? = some ']' then
        .list (ofCharsWithin fuel cs.tail.dropLast)
      else .named ⟨String.ofList cs, .nowhere⟩

def ofText (text : String) : TypeExpr Ident :=
  let cs := text.toList
  ofCharsWithin cs.length cs

end TypeExpr

namespace Builtin

def ident (text : String) : Ident := ⟨text, .nowhere⟩

def input (name type : String) (default : Option Literal) : InputDef :=
  ⟨ident name, none, .ofText type, default, [], .nowhere⟩

def fieldWith (name type : String) (arguments : List InputDef) : FieldDef :=
  ⟨ident name, none, arguments, .ofText type, [], .nowhere⟩

def field (name type : String) : FieldDef := fieldWith name type []

def includeDeprecated : List InputDef := [input "includeDeprecated" "Boolean" (some (.bool false))]

def typeDef (name description : String) (body : TypeBody) : TypeDef :=
  ⟨ident name, some description, [], body, .nowhere⟩

def tags (names : List String) : TypeBody :=
  .data (names.map fun n => ⟨ident n, none, [], [], .nowhere⟩)

def scalarDefs : List TypeDef := [
  typeDef "Int" "The `Int` scalar type represents non-fractional signed whole numeric values between -(2^31) and 2^31 - 1." .scalar,
  typeDef "Float" "The `Float` scalar type represents signed double-precision fractional values." .scalar,
  typeDef "String" "The `String` scalar type represents textual data as UTF-8 character sequences." .scalar,
  typeDef "Boolean" "The `Boolean` scalar type represents `true` or `false`." .scalar,
  typeDef "ID" "The `ID` scalar type represents a unique identifier, serialized as a String." .scalar]

def introspectionDefs : List TypeDef := [
  typeDef "__Schema"
    "A schema defines the capabilities of a service: its types, root operation types and directives."
    (.object [] [
      field "description" "String",
      field "types" "[__Type!]!",
      field "queryType" "__Type!",
      field "mutationType" "__Type",
      field "subscriptionType" "__Type",
      field "directives" "[__Directive!]!"]),
  typeDef "__Type"
    "The fundamental unit of any schema. Data types are reported as ENUM or INPUT_OBJECT depending on their shape."
    (.object [] [
      field "kind" "__TypeKind!",
      field "name" "String",
      field "description" "String",
      field "specifiedByURL" "String",
      fieldWith "fields" "[__Field!]" includeDeprecated,
      field "interfaces" "[__Type!]",
      field "possibleTypes" "[__Type!]",
      fieldWith "enumValues" "[__EnumValue!]" includeDeprecated,
      fieldWith "inputFields" "[__InputValue!]" includeDeprecated,
      field "ofType" "__Type"]),
  typeDef "__Field" "Object and Interface types are described by a list of Fields."
    (.object [] [
      field "name" "String!",
      field "description" "String",
      fieldWith "args" "[__InputValue!]!" includeDeprecated,
      field "type" "__Type!",
      field "isDeprecated" "Boolean!",
      field "deprecationReason" "String"]),
  typeDef "__InputValue" "Arguments and data fields are described by a list of InputValues."
    (.object [] [
      field "name" "String!",
      field "description" "String",
      field "type" "__Type!",
      field "defaultValue" "String",
      field "isDeprecated" "Boolean!",
      field "deprecationReason" "String"]),
  typeDef "__EnumValue" "Variants of sum-shaped data types are described by a list of EnumValues."
    (.object [] [
      field "name" "String!",
      field "description" "String",
      field "isDeprecated" "Boolean!",
      field "deprecationReason" "String"]),
  typeDef "__Directive"
    "A Directive provides a way to describe alternate runtime execution and type validation behavior."
    (.object [] [
      field "name" "String!",
      field "description" "String",
      field "isRepeatable" "Boolean!",
      field "locations" "[__DirectiveLocation!]!",
      fieldWith "args" "[__InputValue!]!" includeDeprecated]),
  typeDef "__TypeKind" "An enum describing what kind of type a given `__Type` is."
    (tags ["SCALAR", "OBJECT", "INTERFACE", "UNION", "ENUM", "INPUT_OBJECT", "LIST", "NON_NULL"]),
  typeDef "__DirectiveLocation"
    "A Directive can be adjacent to many parts of a document; each such part is a DirectiveLocation."
    (tags (DirectiveLocation.all.map DirectiveLocation.text))]

def directiveDefs : List DirectiveDef := [
  ⟨ident "include",
    some "Directs the executor to include this field or fragment only when the `if` argument is true.",
    [input "if" "Boolean!" none], false, [.field, .fragmentSpread, .inlineFragment], .nowhere⟩,
  ⟨ident "skip",
    some "Directs the executor to skip this field or fragment when the `if` argument is true.",
    [input "if" "Boolean!" none], false, [.field, .fragmentSpread, .inlineFragment], .nowhere⟩,
  ⟨ident Applied.deprecatedName, some "Marks an element of a schema as no longer supported.",
    [input "reason" "String" (some (.string Applied.defaultReason))], false,
    [.fieldDefinition, .argumentDefinition, .inputFieldDefinition, .variant], .nowhere⟩,
  ⟨ident Applied.specifiedByName, some "Exposes a URL that specifies the behavior of this scalar.",
    [input "url" "String!" none], false, [.scalar], .nowhere⟩]

def scope : Scope := ⟨[], .builtin⟩

def built {α β : Type} (f : α → Except SchemaError β) (xs : List α) : List β :=
  xs.filterMap fun x => (f x).toOption

def typesOf (ds : List TypeDef) : List NamedType := built (NamedType.build scope · []) ds

def scalars : List NamedType := typesOf scalarDefs

def introspection : List NamedType := typesOf introspectionDefs

def types : List NamedType := scalars ++ introspection

def directives : List Directive := built (Directive.build scope) directiveDefs

def type? (name : String) : Option NamedType := Keyed.get? NamedType.name name types

def directive? (name : String) : Option Directive := Keyed.get? Directive.name name directives

def isOwn (d : Directive) : Bool := d.node.span == .nowhere

end Builtin

end SchemaGraph
