import SchemaGraph.Schema.Validation

namespace SchemaGraph

namespace Operation

def conventionalName : Operation → String
  | .query => "Query"
  | .mutation => "Mutation"
  | .subscription => "Subscription"

end Operation

namespace Snapshot

def conventionalRoot (s : Snapshot) (roots : Roots) (operation : Operation) : Roots :=
  let name := operation.conventionalName
  if (roots.get operation).isNone && s.registry.names.contains name then
    roots.set (s.scope.resolve name).toOption operation
  else roots

def withConventionalRoots (s : Snapshot) : Snapshot :=
  if s.node.isSome then s
  else { s with roots := Operation.all.foldl s.conventionalRoot s.roots }

def withSpecifiedDirectives (s : Snapshot) : Snapshot :=
  { s with
    directives := s.directives ++
      Builtin.directives.filter fun b => !s.directives.any (·.name == b.name) }

def build (d : Document) (options : Options) : Except SchemaError Snapshot := do
  let s ← empty.extend d options
  return s.withConventionalRoots.withSpecifiedDirectives

end Snapshot

def check (d : Document) (schema : Option Schema) (options : Options) : Except SchemaError Unit :=
  if options.checks then
    match validate d schema with
    | [] => .ok ()
    | problems => .error (.invalid problems)
  else .ok ()

namespace Schema

def build (d : Document) (options : Options) : Except SchemaError Schema := do
  check d none options
  let s ← Snapshot.build d options
  return s.toSchema

def extend (schema : Schema) (d : Document) (options : Options) : Except SchemaError Schema := do
  check d (some schema) options
  if d.isEmpty then return schema
  let s ← schema.snapshot.extend d options
  return s.toSchema

/-- Extends the schema with a document in its place: it is let go, with all before it. What still
refers to their types, as specified directives that a document has declared do, refers to nothing. -/
def supersede (schema : Schema) (d : Document) (options : Options) : Except SchemaError Schema := do
  let s ← schema.extend d options
  return { s with snapshot := s.snapshot.alone }

end Schema

end SchemaGraph
