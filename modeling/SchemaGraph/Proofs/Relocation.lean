import SchemaGraph.Sdl.Grammar

namespace SchemaGraph

open Text (Span Position)

structure Relocation where
  start : Nat → Nat
  stop : Nat → Nat
  line : Nat → Nat
  column : Nat → Nat

namespace Relocation

def shift (bytes lines : Nat) : Relocation := ⟨(· + bytes), (· + bytes), (· + lines), id⟩

def stay : Relocation := ⟨id, id, id, id⟩

def erase : Relocation := ⟨fun _ => 0, fun _ => 0, fun _ => 0, fun _ => 0⟩

variable (r : Relocation)

def span (s : Span) : Span := ⟨r.start s.start, r.stop s.stop, r.line s.line, r.column s.column⟩

theorem span_through (s t : Span) : r.span (s.through t) = (r.span s).through (r.span t) := rfl

def token (t : Token) : Token := ⟨t.kind, r.span t.span⟩

def error (e : SyntaxError) : SyntaxError := ⟨e.fault, r.line e.line, r.column e.column⟩

def ident (i : Ident) : Ident := ⟨i.text, r.span i.span⟩

mutual

def literal : Literal → Literal
  | .null => .null
  | .int n => .int n
  | .float x => .float x
  | .string s => .string s
  | .bool b => .bool b
  | .enum tag => .enum tag
  | .list items => .list (literals items)
  | .object entries => .object (fields entries)

def literals : List Literal → List Literal
  | [] => []
  | v :: vs => literal v :: literals vs

def fields : List (Ident × Literal) → List (Ident × Literal)
  | [] => []
  | (name, v) :: es => (r.ident name, literal v) :: fields es

end

def entry (e : Ident × Literal) : Ident × Literal := (r.ident e.1, r.literal e.2)

theorem literals_eq_map (vs : List Literal) : r.literals vs = vs.map r.literal := by
  induction vs with
  | nil => rw [literals, List.map_nil]
  | cons v vs ih => rw [literals, ih, List.map_cons]

theorem fields_eq_map (es : List (Ident × Literal)) : r.fields es = es.map r.entry := by
  induction es with
  | nil => rw [fields, List.map_nil]
  | cons e es ih => rw [fields, ih, List.map_cons, entry]

theorem literal_ofName (text : String) : r.literal (.ofName text) = .ofName text := by
  unfold Literal.ofName
  repeat' split
  all_goals rw [literal]

def argument (a : Argument) : Argument := ⟨r.ident a.name, r.literal a.value, r.span a.span⟩

def applied (a : Applied) : Applied := ⟨r.ident a.name, a.arguments.map r.argument, r.span a.span⟩

def inputDef (d : InputDef) : InputDef :=
  ⟨r.ident d.name, d.description, d.type.map r.ident, d.default.map r.literal,
    d.directives.map r.applied, r.span d.span⟩

def fieldDef (d : FieldDef) : FieldDef :=
  ⟨r.ident d.name, d.description, d.arguments.map r.inputDef, d.type.map r.ident,
    d.directives.map r.applied, r.span d.span⟩

def variantDef (d : VariantDef) : VariantDef :=
  ⟨r.ident d.name, d.description, d.directives.map r.applied, d.fields.map r.inputDef,
    r.span d.span⟩

def typeBody : TypeBody → TypeBody
  | .scalar => .scalar
  | .object interfaces fields => .object (interfaces.map r.ident) (fields.map r.fieldDef)
  | .interface interfaces fields => .interface (interfaces.map r.ident) (fields.map r.fieldDef)
  | .union members => .union (members.map r.ident)
  | .data variants => .data (variants.map r.variantDef)

def typeDef (d : TypeDef) : TypeDef :=
  ⟨r.ident d.name, d.description, d.directives.map r.applied, r.typeBody d.body, r.span d.span⟩

def directiveDef (d : DirectiveDef) : DirectiveDef :=
  ⟨r.ident d.name, d.description, d.arguments.map r.inputDef, d.repeatable, d.locations,
    r.span d.span⟩

def operationDef (d : OperationDef) : OperationDef := ⟨d.operation, r.ident d.type, r.span d.span⟩

def schemaDef (d : SchemaDef) : SchemaDef :=
  ⟨d.description, d.directives.map r.applied, d.operations.map r.operationDef, r.span d.span⟩

def definition : Definition → Definition
  | .schema d => .schema (r.schemaDef d)
  | .schemaExtension d => .schemaExtension (r.schemaDef d)
  | .type d => .type (r.typeDef d)
  | .typeExtension d => .typeExtension (r.typeDef d)
  | .directive d => .directive (r.directiveDef d)

def document (d : Document) : Document := ⟨d.definitions.map r.definition⟩

mutual

theorem literal_stay : ∀ v : Literal, stay.literal v = v
  | .null | .int _ | .float _ | .string _ | .bool _ | .enum _ => by rw [literal]
  | .list items => by rw [literal, literals_stay items]
  | .object entries => by rw [literal, fields_stay entries]

theorem literals_stay : ∀ vs : List Literal, stay.literals vs = vs
  | [] => by rw [literals]
  | v :: vs => by rw [literals, literal_stay v, literals_stay vs]

theorem fields_stay : ∀ es : List (Ident × Literal), stay.fields es = es
  | [] => by rw [fields]
  | (name, v) :: es => by
      rw [fields, literal_stay v, fields_stay es]
      rfl

end

theorem map_stay {α : Type} {f : α → α} (h : ∀ a, f a = a) (as : List α) : as.map f = as := by
  rw [List.map_congr_left fun a _ => h a, List.map_id']

theorem type_stay (t : TypeExpr Ident) : t.map stay.ident = t := by
  induction t with
  | named name => rfl
  | list t ih => rw [TypeExpr.map, ih]
  | nonNull t ih => rw [TypeExpr.map, ih]

theorem applied_stay (a : Applied) : stay.applied a = a := by
  have harg (b : Argument) : stay.argument b = b := by
    rw [argument, literal_stay]
    rfl
  rw [applied, map_stay harg]
  rfl

theorem inputDef_stay (d : InputDef) : stay.inputDef d = d := by
  have hdefault : d.default.map stay.literal = d.default := by
    cases d.default with
    | none => rfl
    | some v => exact congrArg some (literal_stay v)
  rw [inputDef, type_stay, hdefault, map_stay applied_stay]
  rfl

theorem fieldDef_stay (d : FieldDef) : stay.fieldDef d = d := by
  rw [fieldDef, map_stay inputDef_stay, type_stay, map_stay applied_stay]
  rfl

theorem variantDef_stay (d : VariantDef) : stay.variantDef d = d := by
  rw [variantDef, map_stay applied_stay, map_stay inputDef_stay]
  rfl

theorem typeBody_stay (b : TypeBody) : stay.typeBody b = b := by
  have hident (i : Ident) : stay.ident i = i := rfl
  cases b with
  | scalar => rfl
  | object interfaces fields => rw [typeBody, map_stay hident, map_stay fieldDef_stay]
  | interface interfaces fields => rw [typeBody, map_stay hident, map_stay fieldDef_stay]
  | union members => rw [typeBody, map_stay hident]
  | data variants => rw [typeBody, map_stay variantDef_stay]

theorem typeDef_stay (d : TypeDef) : stay.typeDef d = d := by
  rw [typeDef, map_stay applied_stay, typeBody_stay]
  rfl

theorem schemaDef_stay (d : SchemaDef) : stay.schemaDef d = d := by
  have hoperation (o : OperationDef) : stay.operationDef o = o := rfl
  rw [schemaDef, map_stay applied_stay, map_stay hoperation]
  rfl

theorem definition_stay (d : Definition) : stay.definition d = d := by
  cases d with
  | schema d => rw [definition, schemaDef_stay]
  | schemaExtension d => rw [definition, schemaDef_stay]
  | type d => rw [definition, typeDef_stay]
  | typeExtension d => rw [definition, typeDef_stay]
  | directive d =>
      rw [definition, directiveDef, map_stay inputDef_stay]
      rfl

end Relocation

def Document.bare (d : Document) : Document := Relocation.erase.document d

end SchemaGraph
