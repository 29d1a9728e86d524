namespace SchemaGraph.Builtin

def scalarNames : List String := ["Int", "Float", "String", "Boolean", "ID"]

def introspectionNames : List String :=
  ["__Schema", "__Type", "__Field", "__InputValue", "__EnumValue", "__Directive", "__TypeKind",
    "__DirectiveLocation"]

def directiveNames : List String := ["include", "skip", "deprecated", "specifiedBy"]

def isScalar (name : String) : Bool := scalarNames.contains name

def isIntrospection (name : String) : Bool := introspectionNames.contains name

def isBuiltin (name : String) : Bool := isScalar name || isIntrospection name

def isDirective (name : String) : Bool := directiveNames.contains name

end SchemaGraph.Builtin
