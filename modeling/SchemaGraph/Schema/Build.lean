import SchemaGraph.Builtin.Names
import SchemaGraph.Schema.Merge
import SchemaGraph.Schema.Problem

namespace SchemaGraph

structure Scope where
  names : List String
  home : Home
  deriving Repr

def Scope.resolve (s : Scope) (name : String) : Except SchemaError Ref :=
  if Builtin.isBuiltin name then .ok ⟨name, .builtin⟩
  else if s.names.contains name then .ok ⟨name, s.home⟩
  else .error (.unknownType name)

def Scope.rebind (s : Scope) (r : Ref) : Except SchemaError Ref := s.resolve r.name

def Scope.resolveIdent (s : Scope) (n : Ident) : Except SchemaError Ref := s.resolve n.text

def Scope.resolveType (s : Scope) (t : TypeExpr Ident) : Except SchemaError (TypeExpr Ref) :=
  t.tryMap s.resolveIdent

def Scope.rebindType (s : Scope) (t : TypeExpr Ref) : Except SchemaError (TypeExpr Ref) :=
  t.tryMap s.rebind

namespace InputValue

def build (s : Scope) (d : InputDef) : Except SchemaError InputValue := do
  let type ← s.resolveType d.type
  return ⟨d, type⟩

def rebind (s : Scope) (v : InputValue) : Except SchemaError InputValue := do
  let type ← s.rebindType v.type
  return ⟨v.node, type⟩

def buildAll (s : Scope) (ds : List InputDef) : Except SchemaError (List InputValue) := do
  let vs ← ds.mapM (build s)
  return Keyed.ofList name vs

end InputValue

namespace Field

def build (s : Scope) (d : FieldDef) : Except SchemaError Field := do
  let type ← s.resolveType d.type
  let arguments ← InputValue.buildAll s d.arguments
  return ⟨d, type, arguments⟩

def rebind (s : Scope) (f : Field) : Except SchemaError Field := do
  let type ← s.rebindType f.type
  let arguments ← f.arguments.mapM (InputValue.rebind s)
  return ⟨f.node, type, arguments⟩

end Field

namespace Variant

def build (s : Scope) (d : VariantDef) : Except SchemaError Variant := do
  let fields ← InputValue.buildAll s d.fields
  return ⟨d, fields⟩

def rebind (s : Scope) (v : Variant) : Except SchemaError Variant := do
  let fields ← v.fields.mapM (InputValue.rebind s)
  return ⟨v.node, fields⟩

def buildAll (s : Scope) (ds : List VariantDef) : Except SchemaError (List Variant) := do
  let vs ← ds.mapM (build s)
  return Keyed.ofList name vs

end Variant

namespace TypeBody

def fields : TypeBody → List FieldDef
  | .object _ fs => fs
  | .interface _ fs => fs
  | _ => []

def interfaces : TypeBody → List Ident
  | .object is _ => is
  | .interface is _ => is
  | _ => []

def members : TypeBody → List Ident
  | .union ms => ms
  | _ => []

def variants : TypeBody → List VariantDef
  | .data vs => vs
  | _ => []

end TypeBody

namespace Body

def extendFields (s : Scope) (fields : List Field) (declared : List TypeDef) :
    Except SchemaError (List Field) := do
  let old ← fields.mapM (Field.rebind s)
  let new ← (declared.flatMap (·.body.fields)).mapM (Field.build s)
  return Keyed.lastWriteWins Field.name old new

def extendRefs (s : Scope) (refs : List Ref) (declared : List Ident) :
    Except SchemaError (List Ref) := do
  let old ← refs.mapM s.rebind
  let new ← declared.mapM s.resolveIdent
  return Keyed.append old new

def extendVariants (s : Scope) (variants : List Variant) (declared : List TypeDef) :
    Except SchemaError (List Variant) := do
  let old ← variants.mapM (Variant.rebind s)
  let new ← declared.mapM (fun d => Variant.buildAll s d.body.variants)
  return mergeVariants old new

def extend (s : Scope) (declared : List TypeDef) : Body → Except SchemaError Body
  | .scalar url =>
      return .scalar (Keyed.lastDeclared url
        (declared.map fun d => Applied.specifiedBy? d.directives))
  | .object fields interfaces => do
      let fields ← extendFields s fields declared
      let interfaces ← extendRefs s interfaces (declared.flatMap (·.body.interfaces))
      return .object fields interfaces
  | .interface fields interfaces => do
      let fields ← extendFields s fields declared
      let interfaces ← extendRefs s interfaces (declared.flatMap (·.body.interfaces))
      return .interface fields interfaces
  | .union members => do
      let members ← extendRefs s members (declared.flatMap (·.body.members))
      return .union members
  | .data variants => do
      let variants ← extendVariants s variants declared
      return .data variants

end Body

namespace NamedType

def ofKind (kind : Kind) (extensions : List TypeDef) : List TypeDef :=
  extensions.filter (·.kind == kind)

def build (s : Scope) (d : TypeDef) (extensions : List TypeDef) : Except SchemaError NamedType := do
  let fragments := ofKind d.kind extensions
  let body ← (Body.empty d.kind).extend s (d :: fragments)
  return ⟨d, fragments, body⟩

def extend (s : Scope) (t : NamedType) (extensions : List TypeDef) :
    Except SchemaError NamedType := do
  let fragments := ofKind t.kind extensions
  let body ← t.body.extend s fragments
  return ⟨t.node, t.extensions ++ fragments, body⟩

end NamedType

namespace Directive

def build (s : Scope) (d : DirectiveDef) : Except SchemaError Directive := do
  let arguments ← InputValue.buildAll s d.arguments
  return ⟨d, arguments⟩

def rebind (s : Scope) (d : Directive) : Except SchemaError Directive := do
  let arguments ← d.arguments.mapM (InputValue.rebind s)
  return ⟨d.node, arguments⟩

end Directive

end SchemaGraph
