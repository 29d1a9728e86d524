import SchemaGraph.Schema.Applied
import SchemaGraph.Schema.Keyed

namespace SchemaGraph

inductive Home where
  | builtin
  | generation (index : Nat)
  deriving DecidableEq, Repr

structure Ref where
  name : String
  home : Home
  deriving DecidableEq, Repr

def renderType (t : TypeExpr Ref) : String := t.render Ref.name

structure InputValue where
  node : InputDef
  type : TypeExpr Ref
  deriving Repr

namespace InputValue

def name (v : InputValue) : String := v.node.name.text

def default? (v : InputValue) : Option Literal := v.node.default

def deprecation? (v : InputValue) : Option String := Applied.deprecation? v.node.directives

end InputValue

structure Field where
  node : FieldDef
  type : TypeExpr Ref
  arguments : List InputValue
  deriving Repr

namespace Field

def name (f : Field) : String := f.node.name.text

def deprecation? (f : Field) : Option String := Applied.deprecation? f.node.directives

def refs (f : Field) : List Ref := f.type.leaf :: f.arguments.map (·.type.leaf)

end Field

structure Variant where
  node : VariantDef
  fields : List InputValue
  deriving Repr

namespace Variant

def name (v : Variant) : String := v.node.name.text

def deprecation? (v : Variant) : Option String := Applied.deprecation? v.node.directives

def refs (v : Variant) : List Ref := v.fields.map (·.type.leaf)

end Variant

inductive Body where
  | scalar (specifiedBy : Option String)
  | object (fields : List Field) (interfaces : List Ref)
  | interface (fields : List Field) (interfaces : List Ref)
  | union (members : List Ref)
  | data (variants : List Variant)
  deriving Repr

def record? : List Variant → Option Variant
  | [v] => if v.fields.isEmpty then none else some v
  | _ => none

namespace Body

def kind : Body → Kind
  | .scalar _ => .scalar
  | .object .. => .object
  | .interface .. => .interface
  | .union _ => .union
  | .data _ => .data

def empty : Kind → Body
  | .scalar => .scalar none
  | .object => .object [] []
  | .interface => .interface [] []
  | .union => .union []
  | .data => .data []

def refs : Body → List Ref
  | .scalar _ => []
  | .object fields interfaces => fields.flatMap Field.refs ++ interfaces
  | .interface fields interfaces => fields.flatMap Field.refs ++ interfaces
  | .union members => members
  | .data variants => variants.flatMap Variant.refs

def variants : Body → List Variant
  | .data vs => vs
  | _ => []

@[simp] theorem kind_empty (k : Kind) : (empty k).kind = k := by
  cases k <;> rfl

end Body

structure NamedType where
  node : TypeDef
  extensions : List TypeDef
  body : Body
  deriving Repr

namespace NamedType

def name (t : NamedType) : String := t.node.name.text

def kind (t : NamedType) : Kind := t.body.kind

def refs (t : NamedType) : List Ref := t.body.refs

def recordFields (t : NamedType) : List InputValue :=
  (record? t.body.variants).elim [] Variant.fields

end NamedType

structure Directive where
  node : DirectiveDef
  arguments : List InputValue
  deriving Repr

namespace Directive

def name (d : Directive) : String := d.node.name.text

end Directive

def Home.map (f : Nat → Home) : Home → Home
  | .builtin => .builtin
  | .generation i => f i

def Ref.mapHome (f : Nat → Home) (r : Ref) : Ref := { r with home := r.home.map f }

def InputValue.mapHome (f : Nat → Home) (v : InputValue) : InputValue :=
  { v with type := v.type.map (Ref.mapHome f) }

def Field.mapHome (f : Nat → Home) (x : Field) : Field :=
  { x with type := x.type.map (Ref.mapHome f), arguments := x.arguments.map (InputValue.mapHome f) }

def Variant.mapHome (f : Nat → Home) (v : Variant) : Variant :=
  { v with fields := v.fields.map (InputValue.mapHome f) }

def Body.mapHome (f : Nat → Home) : Body → Body
  | .scalar url => .scalar url
  | .object fields interfaces =>
      .object (fields.map (Field.mapHome f)) (interfaces.map (Ref.mapHome f))
  | .interface fields interfaces =>
      .interface (fields.map (Field.mapHome f)) (interfaces.map (Ref.mapHome f))
  | .union members => .union (members.map (Ref.mapHome f))
  | .data variants => .data (variants.map (Variant.mapHome f))

def NamedType.mapHome (f : Nat → Home) (t : NamedType) : NamedType :=
  { t with body := t.body.mapHome f }

def Directive.mapHome (f : Nat → Home) (d : Directive) : Directive :=
  { d with arguments := d.arguments.map (InputValue.mapHome f) }

end SchemaGraph
