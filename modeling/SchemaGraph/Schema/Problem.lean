import SchemaGraph.Sdl.Document

namespace SchemaGraph

inductive Problem where
  | multipleSchemas
  | schemaAlreadyDefined
  | duplicateType (name : String)
  | existingType (name : String)
  | duplicateDirective (name : String)
  | existingDirective (name : String)
  | unknownType (name : String)
  | unknownDirective (name : String)
  | misplacedDirective (name : String) (location : DirectiveLocation)
  | extendingUnknownType (name : String)
  | extendingDifferentKind (name : String) (kind : Kind)
  deriving DecidableEq, Repr

def Problem.message : Problem → String
  | .multipleSchemas => "Must provide only one schema definition."
  | .schemaAlreadyDefined => "Cannot define a new schema within a schema extension."
  | .duplicateType name => "There can be only one type named \"" ++ name ++ "\"."
  | .existingType name =>
      "Type \"" ++ name ++
        "\" already exists in the schema. It cannot also be defined in this type definition."
  | .duplicateDirective name => "There can be only one directive named \"@" ++ name ++ "\"."
  | .existingDirective name =>
      "Directive \"@" ++ name ++ "\" already exists in the schema. It cannot be redefined."
  | .unknownType name => "Unknown type \"" ++ name ++ "\"."
  | .unknownDirective name => "Unknown directive \"@" ++ name ++ "\"."
  | .misplacedDirective name location =>
      "Directive \"@" ++ name ++ "\" may not be used on " ++ location.text ++ "."
  | .extendingUnknownType name =>
      "Cannot extend type \"" ++ name ++ "\" because it is not defined."
  | .extendingDifferentKind name kind =>
      "Cannot extend non-" ++ kind.text ++ " type \"" ++ name ++ "\"."

inductive SchemaError where
  | unknownType (name : String)
  | invalid (problems : List Problem)
  deriving DecidableEq, Repr

def SchemaError.message : SchemaError → String
  | .unknownType name => "Unknown type: \"" ++ name ++ "\"."
  | .invalid problems =>
      "invalid schema document: " ++ "; ".intercalate (problems.map Problem.message)

end SchemaGraph
