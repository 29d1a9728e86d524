import SchemaGraph.Sdl.Cursor
import SchemaGraph.Sdl.Document
import SchemaGraph.Token.Lexer

namespace SchemaGraph

open Text (Span)

namespace Parser

def ident : Parser Ident := located do
  let text ← accept .name fun | .name text => some text | _ => none
  return fun span => ⟨text, span⟩

theorem consumes_ident : Consumes ident :=
  ((consumes_accept _ _).bind fun _ => keeps_pure _).located

def stringValue? : TokenKind → Option String
  | .string value => some value
  | .blockString value => some value
  | _ => none

def description : Parser (Option String) :=
  branch (fun k => (stringValue? k).isSome) (accept .value fun k => (stringValue? k).map some)
    (pure none)

theorem keeps_description : Keeps description :=
  (consumes_accept _ _).keeps.branch (keeps_pure _)

def bang (t : TypeExpr Ident) : Parser (TypeExpr Ident) :=
  whenPunct .bang (do punct .bang; return .nonNull t) t

theorem keeps_bang (t : TypeExpr Ident) : Keeps (bang t) :=
  keeps_whenPunct ((consumes_punct _).keeps.bind fun _ => keeps_pure _)

def closeLists : Nat → TypeExpr Ident → Parser (TypeExpr Ident)
  | 0, t => return t
  | n + 1, t => do
      punct .bracketRight
      let t ← bang (.list t)
      closeLists n t

theorem keeps_closeLists (n : Nat) (t : TypeExpr Ident) : Keeps (closeLists n t) := by
  induction n generalizing t with
  | zero => exact keeps_pure _
  | succ n ih => exact (consumes_punct _).keeps.bind fun _ => (keeps_bang _).bind fun t => ih t

def typeExpr : Parser (TypeExpr Ident) := do
  let opened ← loop (ahead (isPunct .bracketLeft)) (punct .bracketLeft) (consumes_punct _)
  let name ← ident
  let t ← bang (.named name)
  closeLists opened.length t

theorem consumes_typeExpr : Consumes typeExpr :=
  (keeps_loop _ _ _).bind_consumes fun _ => consumes_ident.bind fun _ => (keeps_bang _).bind fun _ =>
    keeps_closeLists _ _

inductive LiteralHead where
  | whole (value : Literal)
  | list
  | object

def literalHead? : TokenKind → Option LiteralHead
  | .int n => some (.whole (.int n))
  | .float x => some (.whole (.float x))
  | .string s => some (.whole (.string s))
  | .blockString s => some (.whole (.string s))
  | .name text => some (.whole (.ofName text))
  | .punct .bracketLeft => some .list
  | .punct .braceLeft => some .object
  | .punct _ => none

def entry (value : Parser Literal) : Parser (Ident × Literal) := do
  let name ← ident
  punct .colon
  let v ← value
  return (name, v)

theorem consumes_entry {value : Parser Literal} (h : Consumes value) : Consumes (entry value) :=
  consumes_ident.bind fun _ => (consumes_punct _).keeps.bind fun _ => h.keeps.bind fun _ =>
    keeps_pure _

def literalRest (value : Parser Literal) (h : Consumes value) : LiteralHead → Parser Literal
  | .whole v => return v
  | .list => do
      let items ← loop (fun c => !ahead (isPunct .bracketRight) c) value h
      punct .bracketRight
      return .list items
  | .object => do
      let entries ← loop (fun c => !ahead (isPunct .braceRight) c) (entry value) (consumes_entry h)
      punct .braceRight
      return .object entries

theorem keeps_literalRest {value : Parser Literal} (h : Consumes value) (head : LiteralHead) :
    Keeps (literalRest value h head) := by
  cases head with
  | whole v => exact keeps_pure _
  | list =>
      exact (keeps_loop _ _ _).bind fun _ => (consumes_punct _).keeps.bind fun _ => keeps_pure _
  | object =>
      exact (keeps_loop _ _ _).bind fun _ => (consumes_punct _).keeps.bind fun _ => keeps_pure _

def literalWithin : Nat → { p : Parser Literal // Consumes p }
  | 0 => ⟨fail .value, consumes_fail _⟩
  | depth + 1 =>
      let value := literalWithin depth
      ⟨do
        let head ← accept .value literalHead?
        literalRest value.1 value.2 head,
      (consumes_accept _ _).bind fun head => keeps_literalRest value.2 head⟩

def literal : Parser Literal := fun c => (literalWithin c.rest.length).1 c

theorem consumes_literal : Consumes literal := fun c a c' h =>
  (literalWithin c.rest.length).2 c a c' h

def argument : Parser Argument := located do
  let name ← ident
  punct .colon
  let value ← literal
  return fun span => ⟨name, value, span⟩

theorem consumes_argument : Consumes argument :=
  (consumes_ident.bind fun _ => (consumes_punct _).keeps.bind fun _ =>
    consumes_literal.keeps.bind fun _ => keeps_pure _).located

def appliedDirective : Parser Applied := located do
  punct .atSign
  let name ← ident
  let arguments ←
    whenPunct .parenLeft (enclosed1 .parenLeft .parenRight argument consumes_argument) []
  return fun span => ⟨name, arguments, span⟩

theorem consumes_appliedDirective : Consumes appliedDirective :=
  ((consumes_punct _).bind fun _ => consumes_ident.keeps.bind fun _ =>
    (keeps_whenPunct (consumes_enclosed1 _).keeps).bind fun _ => keeps_pure _).located

def directives : Parser (List Applied) :=
  loop (ahead (isPunct .atSign)) appliedDirective consumes_appliedDirective

theorem keeps_directives : Keeps directives := keeps_loop _ _ _

def inputDef : Parser InputDef := located do
  let description ← description
  let name ← ident
  punct .colon
  let type ← typeExpr
  let default ← whenPunct .equals (preceded .equals (do let v ← literal; return some v)) none
  let directives ← directives
  return fun span => ⟨name, description, type, default, directives, span⟩

theorem consumes_inputDef : Consumes inputDef :=
  (keeps_description.bind_consumes fun _ => consumes_ident.bind fun _ =>
    (consumes_punct _).keeps.bind fun _ => consumes_typeExpr.keeps.bind fun _ =>
    (keeps_whenPunct (consumes_preceded
      (consumes_literal.keeps.bind fun _ => keeps_pure _)).keeps).bind fun _ =>
    keeps_directives.bind fun _ => keeps_pure _).located

def argumentDefs : Parser (List InputDef) :=
  whenPunct .parenLeft (enclosed1 .parenLeft .parenRight inputDef consumes_inputDef) []

theorem keeps_argumentDefs : Keeps argumentDefs :=
  keeps_whenPunct (consumes_enclosed1 _).keeps

def inputFields : Parser (List InputDef) :=
  enclosed .braceLeft .braceRight inputDef consumes_inputDef

theorem consumes_inputFields : Consumes inputFields := consumes_enclosed _

def fieldDef : Parser FieldDef := located do
  let description ← description
  let name ← ident
  let arguments ← argumentDefs
  punct .colon
  let type ← typeExpr
  let directives ← directives
  return fun span => ⟨name, description, arguments, type, directives, span⟩

theorem consumes_fieldDef : Consumes fieldDef :=
  (keeps_description.bind_consumes fun _ => consumes_ident.bind fun _ =>
    keeps_argumentDefs.bind fun _ => (consumes_punct _).keeps.bind fun _ =>
    consumes_typeExpr.keeps.bind fun _ => keeps_directives.bind fun _ => keeps_pure _).located

def variantDef : Parser VariantDef := located do
  let description ← description
  let name ← ident
  let directives ← directives
  let fields ← whenPunct .braceLeft inputFields []
  return fun span => ⟨name, description, directives, fields, span⟩

theorem consumes_variantDef : Consumes variantDef :=
  (keeps_description.bind_consumes fun _ => consumes_ident.bind fun _ =>
    keeps_directives.bind fun _ => (keeps_whenPunct consumes_inputFields.keeps).bind fun _ =>
    keeps_pure _).located

def implementsList : Parser (List Ident) :=
  branch (isKeyword "implements") (do keyword "implements"; separated .amp ident consumes_ident)
    (pure [])

theorem keeps_implementsList : Keeps implementsList :=
  ((consumes_keyword _).bind fun _ => (consumes_separated consumes_ident).keeps).keeps.branch
    (keeps_pure _)

def recordVariant (name : Ident) : Parser VariantDef := located do
  let fields ← inputFields
  return fun span => ⟨name, none, [], fields, span⟩

theorem consumes_recordVariant (name : Ident) : Consumes (recordVariant name) :=
  (consumes_inputFields.bind fun _ => keeps_pure _).located

def variants (name : Ident) : Parser (List VariantDef) :=
  branch (isPunct .braceLeft) (do let v ← recordVariant name; return [v])
    (whenPunct .equals (preceded .equals (separated .pipe variantDef consumes_variantDef)) [])

theorem keeps_variants (name : Ident) : Keeps (variants name) :=
  ((consumes_recordVariant name).keeps.bind fun _ => keeps_pure _).branch
    (keeps_whenPunct (consumes_preceded (consumes_separated consumes_variantDef).keeps).keeps)

def typeRest (name : Ident) : Kind → Parser (List Applied × TypeBody)
  | .scalar => do
      let ds ← directives
      return (ds, .scalar)
  | .object => do
      let interfaces ← implementsList
      let ds ← directives
      let fields ←
        whenPunct .braceLeft (enclosed .braceLeft .braceRight fieldDef consumes_fieldDef) []
      return (ds, .object interfaces fields)
  | .interface => do
      let interfaces ← implementsList
      let ds ← directives
      let fields ←
        whenPunct .braceLeft (enclosed .braceLeft .braceRight fieldDef consumes_fieldDef) []
      return (ds, .interface interfaces fields)
  | .union => do
      let ds ← directives
      let members ← whenPunct .equals (preceded .equals (separated .pipe ident consumes_ident)) []
      return (ds, .union members)
  | .data => do
      let ds ← directives
      let vs ← variants name
      return (ds, .data vs)

theorem keeps_typeRest (name : Ident) (kind : Kind) : Keeps (typeRest name kind) := by
  have fields : Keeps (whenPunct .braceLeft
      (enclosed .braceLeft .braceRight fieldDef consumes_fieldDef) []) :=
    keeps_whenPunct (consumes_enclosed _).keeps
  cases kind with
  | scalar => exact keeps_directives.bind fun _ => keeps_pure _
  | object =>
      exact keeps_implementsList.bind fun _ => keeps_directives.bind fun _ => fields.bind fun _ =>
        keeps_pure _
  | interface =>
      exact keeps_implementsList.bind fun _ => keeps_directives.bind fun _ => fields.bind fun _ =>
        keeps_pure _
  | union =>
      exact keeps_directives.bind fun _ =>
        (keeps_whenPunct (consumes_preceded (consumes_separated consumes_ident).keeps).keeps).bind
          fun _ => keeps_pure _
  | data => exact keeps_directives.bind fun _ => (keeps_variants name).bind fun _ => keeps_pure _

def typeDef (description : Option String) (kind : Kind) : Parser (Span → TypeDef) := do
  let name ← ident
  let rest ← typeRest name kind
  return fun span => ⟨name, description, rest.1, rest.2, span⟩

theorem consumes_typeDef (description : Option String) (kind : Kind) :
    Consumes (typeDef description kind) :=
  consumes_ident.bind fun _ => (keeps_typeRest _ _).bind fun _ => keeps_pure _

def operationName? : TokenKind → Option Operation
  | .name text => Operation.ofText? text
  | _ => none

def operationDef : Parser OperationDef := located do
  let operation ← accept .operation operationName?
  punct .colon
  let type ← ident
  return fun span => ⟨operation, type, span⟩

theorem consumes_operationDef : Consumes operationDef :=
  ((consumes_accept _ _).bind fun _ => (consumes_punct _).keeps.bind fun _ =>
    consumes_ident.keeps.bind fun _ => keeps_pure _).located

def schemaDef (description : Option String) : Parser (Span → SchemaDef) := do
  let ds ← directives
  let operations ←
    whenPunct .braceLeft (enclosed1 .braceLeft .braceRight operationDef consumes_operationDef) []
  return fun span => ⟨description, ds, operations, span⟩

theorem keeps_schemaDef (description : Option String) : Keeps (schemaDef description) :=
  keeps_directives.bind fun _ => (keeps_whenPunct (consumes_enclosed1 _).keeps).bind fun _ =>
    keeps_pure _

def directiveLocation : Parser DirectiveLocation := fun c =>
  match ident c with
  | .error e => .error e
  | .ok (name, c') =>
      match DirectiveLocation.ofText? name.text with
      | some location => .ok (location, c')
      | none => .error ⟨.unknownLocation name.text, name.span.line, name.span.column⟩

theorem consumes_directiveLocation : Consumes directiveLocation := by
  intro c a c' h
  unfold directiveLocation at h
  split at h
  · simp at h
  · rename_i name d hi
    split at h
    · simp only [Except.ok.injEq, Prod.mk.injEq] at h
      obtain ⟨_, rfl⟩ := h
      exact consumes_ident c name d hi
    · simp at h

def directiveDef (description : Option String) : Parser (Span → DirectiveDef) := do
  punct .atSign
  let name ← ident
  let arguments ← argumentDefs
  let repeatable ←
    branch (isKeyword "repeatable") (do keyword "repeatable"; return true) (pure false)
  keyword "on"
  let locations ← separated .pipe directiveLocation consumes_directiveLocation
  return fun span => ⟨name, description, arguments, repeatable, locations, span⟩

theorem consumes_directiveDef (description : Option String) :
    Consumes (directiveDef description) :=
  (consumes_punct _).bind fun _ => consumes_ident.keeps.bind fun _ =>
    keeps_argumentDefs.bind fun _ =>
    (((consumes_keyword _).keeps.bind fun _ => keeps_pure _).branch (keeps_pure _)).bind fun _ =>
    (consumes_keyword _).keeps.bind fun _ => (consumes_separated _).keeps.bind fun _ =>
    keeps_pure _

inductive Head where
  | schema
  | type (kind : Kind)
  | directive
  deriving DecidableEq, Repr

def Head.ofText? (text : String) : Option Head :=
  if text = "schema" then some .schema
  else if text = "scalar" then some (.type .scalar)
  else if text = "type" then some (.type .object)
  else if text = "interface" then some (.type .interface)
  else if text = "resolver" ∨ text = "union" then some (.type .union)
  else if text = "data" then some (.type .data)
  else if text = "directive" then some .directive
  else none

def head? : TokenKind → Option Head
  | .name text => Head.ofText? text
  | _ => none

def extendable? (k : TokenKind) : Option Head := (head? k).filter (· ≠ .directive)

def plainRest (description : Option String) : Head → Parser (Span → Definition)
  | .schema => do
      let d ← schemaDef description
      return fun span => .schema (d span)
  | .type kind => do
      let d ← typeDef description kind
      return fun span => .type (d span)
  | .directive => do
      let d ← directiveDef description
      return fun span => .directive (d span)

theorem keeps_plainRest (description : Option String) (head : Head) :
    Keeps (plainRest description head) := by
  cases head with
  | schema => exact (keeps_schemaDef _).bind fun _ => keeps_pure _
  | type kind => exact (consumes_typeDef _ _).keeps.bind fun _ => keeps_pure _
  | directive => exact (consumes_directiveDef _).keeps.bind fun _ => keeps_pure _

def extensionRest : Head → Parser (Span → Definition)
  | .type kind => do
      let d ← typeDef none kind
      return fun span => .typeExtension (d span)
  | _ => do
      let d ← schemaDef none
      return fun span => .schemaExtension (d span)

theorem keeps_extensionRest (head : Head) : Keeps (extensionRest head) := by
  cases head with
  | type kind => exact (consumes_typeDef _ _).keeps.bind fun _ => keeps_pure _
  | schema => exact (keeps_schemaDef _).bind fun _ => keeps_pure _
  | directive => exact (keeps_schemaDef _).bind fun _ => keeps_pure _

def extension : Parser Definition := located do
  keyword "extend"
  let head ← accept .extendable extendable?
  extensionRest head

theorem consumes_extension : Consumes extension :=
  ((consumes_keyword _).bind fun _ => (consumes_accept _ _).keeps.bind fun _ =>
    keeps_extensionRest _).located

def plainDefinition : Parser Definition := located do
  let description ← description
  let head ← accept .definition head?
  plainRest description head

theorem consumes_plainDefinition : Consumes plainDefinition :=
  (keeps_description.bind_consumes fun _ => (consumes_accept _ _).bind fun _ =>
    keeps_plainRest _ _).located

def definition : Parser Definition :=
  branch (isKeyword "extend") extension plainDefinition

theorem consumes_definition : Consumes definition :=
  consumes_extension.branch consumes_plainDefinition

def document : Parser (List Definition) :=
  loop (fun c => !c.rest.isEmpty) definition consumes_definition

end Parser

namespace Document

def ofTokens (ts : Tokens) : Except SyntaxError Document :=
  (Parser.document ⟨ts.items, .nowhere, ts.finish⟩).map fun (definitions, _) => ⟨definitions⟩

def parse (source : String) : Except SyntaxError Document :=
  match tokenize source with
  | .error e => .error (.ofLex e)
  | .ok ts => ofTokens ts

end Document

end SchemaGraph
