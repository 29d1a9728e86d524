import SchemaGraph.Schema.Snapshot

namespace SchemaGraph

inductive Seed where
  | builtin (t : NamedType)
  | carried (t : NamedType)
  | fresh (d : TypeDef)

namespace Seed

def name : Seed → String
  | .builtin t => t.name
  | .carried t => t.name
  | .fresh d => d.name.text

def ofType (t : NamedType) : Seed :=
  match Builtin.type? t.name with
  | some b => .builtin b
  | none => .carried t

def ofDef (d : TypeDef) : Seed :=
  match Builtin.type? d.name.text with
  | some b => .builtin b
  | none => .fresh d

def grow (s : Scope) (extensions : List TypeDef) : Seed → Except SchemaError NamedType
  | .builtin t => .ok t
  | .carried t => t.extend s extensions
  | .fresh d => NamedType.build s d extensions

end Seed

namespace Document

def isEmpty (d : Document) : Bool := d.definitions.isEmpty

def extensionsOf (d : Document) (name : String) : List TypeDef :=
  d.typeExtensions.filter (·.name.text == name)

def schema? (d : Document) : Option SchemaDef := d.schemas.getLast?

def operations (d : Document) : List OperationDef :=
  (d.schema?.toList ++ d.schemaExtensions).flatMap SchemaDef.operations

end Document

namespace Registry

def seeds (r : Registry) (d : Document) : List Seed :=
  Keyed.lastWriteWins Seed.name (r.types.map Seed.ofType) (d.types.map Seed.ofDef)

def extend (r : Registry) (home : Home) (d : Document) : Except SchemaError Registry := do
  let seeds := r.seeds d
  let scope : Scope := ⟨seeds.map Seed.name, home⟩
  let types ← seeds.mapM fun s => s.grow scope (d.extensionsOf s.name)
  return ⟨types⟩

end Registry

namespace Directive

def carry (s : Scope) (d : Directive) : Except SchemaError Directive :=
  if Builtin.isDirective d.name then .ok d else d.rebind s

end Directive

namespace Roots

def rebindRoot (s : Scope) : Option Ref → Except SchemaError (Option Ref)
  | none => .ok none
  | some r => (s.rebind r).map some

def rebind (s : Scope) (r : Roots) : Except SchemaError Roots := do
  let query ← rebindRoot s r.query
  let mutation ← rebindRoot s r.mutation
  let subscription ← rebindRoot s r.subscription
  return ⟨query, mutation, subscription⟩

def declare (s : Scope) (r : Roots) (ops : List OperationDef) : Except SchemaError Roots :=
  ops.foldlM (fun r op => do
    let root ← s.resolveIdent op.type
    return r.set (some root) op.operation) r

end Roots

namespace Snapshot

def extend (s : Snapshot) (d : Document) (options : Options) : Except SchemaError Snapshot := do
  if d.isEmpty then return s
  let generation := s.lineage.registries.length
  let registry ← s.registry.extend (.generation generation) d
  let scope : Scope := ⟨registry.names, .generation generation⟩
  let carried ← s.directives.mapM (Directive.carry scope)
  let added ← d.directives.mapM (Directive.build scope)
  let roots ← s.roots.rebind scope
  let roots ← roots.declare scope d.operations
  return {
    description := (d.schema?.bind SchemaDef.description).or s.description
    roots := roots
    lineage := ⟨s.lineage.registries ++ [registry]⟩
    generation := generation
    directives := carried ++ added
    remarks := []
    node := d.schema?.or s.node
    extensions := s.extensions ++ d.schemaExtensions
    assumeValid := options.assumeValid }

end Snapshot

end SchemaGraph
