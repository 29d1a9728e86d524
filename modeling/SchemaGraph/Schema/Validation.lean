import SchemaGraph.Schema.Extension
import SchemaGraph.Schema.Graph

namespace SchemaGraph

namespace InputDef

def typeName (d : InputDef) : Ident := d.type.leaf

end InputDef

namespace FieldDef

def typeNames (d : FieldDef) : List Ident := d.type.leaf :: d.arguments.map InputDef.typeName

end FieldDef

namespace TypeBody

def typeNames : TypeBody → List Ident
  | .scalar => []
  | .object interfaces fields => interfaces ++ fields.flatMap FieldDef.typeNames
  | .interface interfaces fields => interfaces ++ fields.flatMap FieldDef.typeNames
  | .union members => members
  | .data variants => variants.flatMap fun v => v.fields.map InputDef.typeName

end TypeBody

structure Site where
  location : DirectiveLocation
  applied : List Applied

namespace InputDef

def site (location : DirectiveLocation) (d : InputDef) : Site := ⟨location, d.directives⟩

end InputDef

namespace FieldDef

def sites (d : FieldDef) : List Site :=
  ⟨.fieldDefinition, d.directives⟩ :: d.arguments.map (InputDef.site .argumentDefinition)

end FieldDef

namespace VariantDef

def sites (d : VariantDef) : List Site :=
  ⟨.variant, d.directives⟩ :: d.fields.map (InputDef.site .inputFieldDefinition)

end VariantDef

namespace TypeBody

def location : TypeBody → DirectiveLocation
  | .scalar => .scalar
  | .object .. => .object
  | .interface .. => .interface
  | .union _ => .union
  | .data _ => .data

def sites : TypeBody → List Site
  | .scalar => []
  | .object _ fields => fields.flatMap FieldDef.sites
  | .interface _ fields => fields.flatMap FieldDef.sites
  | .union _ => []
  | .data variants => variants.flatMap VariantDef.sites

end TypeBody

namespace Definition

def typeNames : Definition → List Ident
  | .schema d => d.operations.map OperationDef.type
  | .schemaExtension d => d.operations.map OperationDef.type
  | .type d => d.body.typeNames
  | .typeExtension d => d.body.typeNames
  | .directive d => d.arguments.map InputDef.typeName

def sites : Definition → List Site
  | .schema d => [⟨.schema, d.directives⟩]
  | .schemaExtension d => [⟨.schema, d.directives⟩]
  | .type d => ⟨d.body.location, d.directives⟩ :: d.body.sites
  | .typeExtension d => ⟨d.body.location, d.directives⟩ :: d.body.sites
  | .directive d => d.arguments.map (InputDef.site .argumentDefinition)

end Definition

namespace Validation

def uniqueNames (exists? : String → Bool) (existing duplicate : String → Problem) :
    List String → List String → List Problem
  | _, [] => []
  | seen, n :: ns =>
      if exists? n then existing n :: uniqueNames exists? existing duplicate seen ns
      else if seen.contains n then duplicate n :: uniqueNames exists? existing duplicate seen ns
      else uniqueNames exists? existing duplicate (n :: seen) ns

def hasType (schema : Option Schema) (name : String) : Bool :=
  schema.any fun s => (s.type? name).isSome

def hasDirective (schema : Option Schema) (name : String) : Bool :=
  schema.any fun s => (s.directive? name).isSome

def hasSchema (schema : Option Schema) : Bool :=
  schema.any fun s => s.snapshot.node.isSome || !s.snapshot.roots.isEmpty

def loneSchema (d : Document) (schema : Option Schema) : List Problem :=
  if hasSchema schema then d.schemas.map fun _ => .schemaAlreadyDefined
  else (d.schemas.drop 1).map fun _ => .multipleSchemas

def uniqueTypes (d : Document) (schema : Option Schema) : List Problem :=
  uniqueNames (hasType schema) .existingType .duplicateType [] (d.types.map (·.name.text))

def uniqueDirectives (d : Document) (schema : Option Schema) : List Problem :=
  uniqueNames (hasDirective schema) .existingDirective .duplicateDirective []
    (d.directives.map (·.name.text))

def isKnownType (d : Document) (schema : Option Schema) (name : String) : Bool :=
  Builtin.isBuiltin name || d.types.any (·.name.text == name) || hasType schema name

def knownTypes (d : Document) (schema : Option Schema) : List Problem :=
  ((d.definitions.flatMap Definition.typeNames).filter fun n => !isKnownType d schema n.text).map
    fun n => .unknownType n.text

def allowed? (d : Document) (schema : Option Schema) (name : String) :
    Option (List DirectiveLocation) :=
  let own := d.directives.filter (·.name.text == name)
  let present := (schema.elim [] fun s => s.snapshot.directives.filter (·.name == name)).map (·.node)
  let specified := (Builtin.directives.filter (·.name == name)).map (·.node)
  (specified ++ present ++ own).getLast?.map DirectiveDef.locations

def checkApplied (d : Document) (schema : Option Schema) (location : DirectiveLocation)
    (a : Applied) : Option Problem :=
  match allowed? d schema a.name.text with
  | none => some (.unknownDirective a.name.text)
  | some locations =>
      if locations.contains location then none else some (.misplacedDirective a.name.text location)

def knownDirectives (d : Document) (schema : Option Schema) : List Problem :=
  (d.definitions.flatMap Definition.sites).flatMap fun site =>
    site.applied.filterMap (checkApplied d schema site.location)

def targetKind? (d : Document) (schema : Option Schema) (name : String) : Option Kind :=
  ((d.types.filter (·.name.text == name)).getLast?.map TypeDef.kind).or
    (((schema.bind (·.type? name)).map NamedType.kind).or
      ((Builtin.type? name).map NamedType.kind))

def checkExtension (d : Document) (schema : Option Schema) (e : TypeDef) : Option Problem :=
  match targetKind? d schema e.name.text with
  | none => some (.extendingUnknownType e.name.text)
  | some kind => if kind = e.kind then none else some (.extendingDifferentKind e.name.text e.kind)

def typeExtensions (d : Document) (schema : Option Schema) : List Problem :=
  d.typeExtensions.filterMap (checkExtension d schema)

end Validation

def validate (d : Document) (schema : Option Schema) : List Problem :=
  Validation.loneSchema d schema ++ Validation.uniqueTypes d schema ++
    Validation.uniqueDirectives d schema ++ Validation.knownTypes d schema ++
    Validation.knownDirectives d schema ++ Validation.typeExtensions d schema

end SchemaGraph
