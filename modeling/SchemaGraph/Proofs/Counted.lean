import SchemaGraph.Sdl.Grammar

namespace SchemaGraph

open Text (Span)

inductive Halt where
  | refused (e : SyntaxError)
  | outOfRange
  | outOfRounds
  deriving DecidableEq, Repr

structure Stand where
  pos : Nat
  left : Nat
  deriving DecidableEq, Repr

abbrev Counted (α : Type) := Tokens → Stand → Except Halt (α × Stand)

namespace Counted

variable {α β : Type}

def pure (a : α) : Counted α := fun _ s => .ok (a, s)

def bind (m : Counted α) (f : α → Counted β) : Counted β := fun ts s =>
  match m ts s with
  | .error h => .error h
  | .ok (a, s') => f a ts s'

instance : Monad Counted where
  pure := Counted.pure
  bind := Counted.bind

def tokenAt (i : Nat) : Counted (Option Token) := fun ts s =>
  if i ≤ ts.items.length then .ok (ts.items[i]?, s) else .error .outOfRange

def peek : Counted (Option Token) := fun ts s => tokenAt s.pos ts s

def spanOf (t : Option Token) : Counted Span := fun ts s => .ok (t.elim ts.endSpan Token.span, s)

def headSpan : Counted Span := do
  let t ← peek
  spanOf t

def takenSpan : Counted Span := fun ts s => (tokenAt (s.pos - 1) >>= spanOf) ts s

def advance : Counted Unit := do
  let t ← peek
  fun _ s => .ok ((), { s with pos := if t.isSome then s.pos + 1 else s.pos })

def halt (e : SyntaxError) : Counted α := fun _ _ => .error (.refused e)

def refuse (wanted : Expectation) : Counted α := do
  let t ← peek
  let span ← spanOf t
  halt ⟨.unexpected wanted (t.map Token.kind), span.line, span.column⟩

def take (wanted : Expectation) (f : TokenKind → Option α) : Counted α := do
  let t ← peek
  match t.bind fun t => f t.kind with
  | some a => do
      advance
      return a
  | none => refuse wanted

def expect (p : Punct) : Counted Unit :=
  take (.punct p) fun k => if Parser.isPunct p k then some () else none

def expectKeyword (text : String) : Counted Unit :=
  take (.keyword text) fun k => if Parser.isKeyword text k then some () else none

def ahead (test : TokenKind → Bool) : Counted Bool := do
  let t ← peek
  return t.elim false fun t => test t.kind

def branch (test : TokenKind → Bool) (m m' : Counted α) : Counted α := do
  let b ← ahead test
  if b then m else m'

def onEat (test : TokenKind → Bool) (m m' : Counted α) : Counted α :=
  branch test (do advance; m) m'

def located (m : Counted (Span → α)) : Counted α := do
  let start ← headSpan
  let f ← m
  let stop ← takenSpan
  return f (start.through stop)

def round (m : Counted α) : Counted α := fun ts s =>
  match s.left with
  | 0 => .error .outOfRounds
  | n + 1 => m ts { s with left := n }

def unroll (body : Counted α → Counted α) : Nat → Counted α
  | 0 => fun _ _ => .error .outOfRounds
  | n + 1 => body (unroll body n)

def recur (body : Counted α → Counted α) : Counted α := fun ts s => unroll body (s.left + 1) ts s

def closed (right : Punct) (item : Counted α) : Counted (List α) := recur fun again =>
  onEat (Parser.isPunct right) (return [])
    (round do
      let a ← item
      let as ← again
      return a :: as)

def whileAhead (test : TokenKind → Bool) (item : Counted α) : Counted (List α) := recur fun again =>
  branch test
    (round do
      let a ← item
      let as ← again
      return a :: as)
    (return [])

def whileEat (test : TokenKind → Bool) (item : Counted α) : Counted (List α) := recur fun again =>
  onEat test
    (round do
      let a ← item
      let as ← again
      return a :: as)
    (return [])

def any (left right : Punct) (item : Counted α) : Counted (List α) := do
  expect left
  closed right item

def many (left right : Punct) (item : Counted α) : Counted (List α) := do
  expect left
  let a ← item
  let as ← closed right item
  return a :: as

def separated (mark : Punct) (item : Counted α) : Counted (List α) := do
  onEat (Parser.isPunct mark) (return ()) (return ())
  let a ← item
  let as ← whileEat (Parser.isPunct mark) item
  return a :: as

def ident : Counted Ident := located do
  let text ← take .name fun | .name text => some text | _ => none
  return fun span => ⟨text, span⟩

def description : Counted (Option String) :=
  branch (fun k => (Parser.stringValue? k).isSome)
    (take .value fun k => (Parser.stringValue? k).map some) (return none)

def bang (t : TypeExpr Ident) : Counted (TypeExpr Ident) :=
  onEat (Parser.isPunct .bang) (return .nonNull t) (return t)

def typeExpr : Counted (TypeExpr Ident) := recur fun again => do
  let t ← onEat (Parser.isPunct .bracketLeft)
    (do
      let t ← round again
      expect .bracketRight
      return .list t)
    (do
      let name ← ident
      return .named name)
  bang t

def entry (value : Counted Literal) : Counted (Ident × Literal) := do
  let name ← ident
  expect .colon
  let v ← value
  return (name, v)

def literalRest (value : Counted Literal) : Parser.LiteralHead → Counted Literal
  | .whole v => return v
  | .list => do
      let items ← closed .bracketRight value
      return .list items
  | .object => do
      let entries ← closed .braceRight (entry value)
      return .object entries

def literal : Counted Literal := recur fun again => do
  let head ← take .value Parser.literalHead?
  literalRest again head

def argument : Counted Argument := located do
  let name ← ident
  expect .colon
  let value ← literal
  return fun span => ⟨name, value, span⟩

def appliedDirective : Counted Applied := located do
  expect .atSign
  let name ← ident
  let arguments ← branch (Parser.isPunct .parenLeft) (many .parenLeft .parenRight argument) (return [])
  return fun span => ⟨name, arguments, span⟩

def directives : Counted (List Applied) := whileAhead (Parser.isPunct .atSign) appliedDirective

def inputDef : Counted InputDef := located do
  let description ← description
  let name ← ident
  expect .colon
  let type ← typeExpr
  let default ← onEat (Parser.isPunct .equals) (do let v ← literal; return some v) (return none)
  let directives ← directives
  return fun span => ⟨name, description, type, default, directives, span⟩

def argumentDefs : Counted (List InputDef) :=
  branch (Parser.isPunct .parenLeft) (many .parenLeft .parenRight inputDef) (return [])

def inputFields : Counted (List InputDef) := any .braceLeft .braceRight inputDef

def fieldDef : Counted FieldDef := located do
  let description ← description
  let name ← ident
  let arguments ← argumentDefs
  expect .colon
  let type ← typeExpr
  let directives ← directives
  return fun span => ⟨name, description, arguments, type, directives, span⟩

def fields : Counted (List FieldDef) :=
  branch (Parser.isPunct .braceLeft) (any .braceLeft .braceRight fieldDef) (return [])

def variantDef : Counted VariantDef := located do
  let description ← description
  let name ← ident
  let directives ← directives
  let fields ← branch (Parser.isPunct .braceLeft) inputFields (return [])
  return fun span => ⟨name, description, directives, fields, span⟩

def implementsList : Counted (List Ident) :=
  onEat (Parser.isKeyword "implements") (separated .amp ident) (return [])

def recordVariant (name : Ident) : Counted VariantDef := located do
  let fields ← inputFields
  return fun span => ⟨name, none, [], fields, span⟩

def variants (name : Ident) : Counted (List VariantDef) :=
  branch (Parser.isPunct .braceLeft) (do let v ← recordVariant name; return [v])
    (onEat (Parser.isPunct .equals) (separated .pipe variantDef) (return []))

def typeRest (name : Ident) : Kind → Counted (List Applied × TypeBody)
  | .scalar => do
      let ds ← directives
      return (ds, .scalar)
  | .object => do
      let interfaces ← implementsList
      let ds ← directives
      let fields ← fields
      return (ds, .object interfaces fields)
  | .interface => do
      let interfaces ← implementsList
      let ds ← directives
      let fields ← fields
      return (ds, .interface interfaces fields)
  | .union => do
      let ds ← directives
      let members ← onEat (Parser.isPunct .equals) (separated .pipe ident) (return [])
      return (ds, .union members)
  | .data => do
      let ds ← directives
      let vs ← variants name
      return (ds, .data vs)

def typeDef (description : Option String) (kind : Kind) : Counted (Span → TypeDef) := do
  let name ← ident
  let rest ← typeRest name kind
  return fun span => ⟨name, description, rest.1, rest.2, span⟩

def operationDef : Counted OperationDef := located do
  let operation ← take .operation Parser.operationName?
  expect .colon
  let type ← ident
  return fun span => ⟨operation, type, span⟩

def schemaDef (description : Option String) : Counted (Span → SchemaDef) := do
  let ds ← directives
  let operations ←
    branch (Parser.isPunct .braceLeft) (many .braceLeft .braceRight operationDef) (return [])
  return fun span => ⟨description, ds, operations, span⟩

def directiveLocation : Counted DirectiveLocation := do
  let name ← ident
  match DirectiveLocation.ofText? name.text with
  | some location => return location
  | none => halt ⟨.unknownLocation name.text, name.span.line, name.span.column⟩

def directiveDef (description : Option String) : Counted (Span → DirectiveDef) := do
  expect .atSign
  let name ← ident
  let arguments ← argumentDefs
  let repeatable ← onEat (Parser.isKeyword "repeatable") (return true) (return false)
  expectKeyword "on"
  let locations ← separated .pipe directiveLocation
  return fun span => ⟨name, description, arguments, repeatable, locations, span⟩

def plainRest (description : Option String) : Parser.Head → Counted (Span → Definition)
  | .schema => do
      let d ← schemaDef description
      return fun span => .schema (d span)
  | .type kind => do
      let d ← typeDef description kind
      return fun span => .type (d span)
  | .directive => do
      let d ← directiveDef description
      return fun span => .directive (d span)

def extensionRest : Parser.Head → Counted (Span → Definition)
  | .type kind => do
      let d ← typeDef none kind
      return fun span => .typeExtension (d span)
  | _ => do
      let d ← schemaDef none
      return fun span => .schemaExtension (d span)

def extension : Counted Definition := located do
  expectKeyword "extend"
  let head ← take .extendable Parser.extendable?
  extensionRest head

def plainDefinition : Counted Definition := located do
  let description ← description
  let head ← take .definition Parser.head?
  plainRest description head

def definition : Counted Definition :=
  branch (Parser.isKeyword "extend") extension plainDefinition

def document : Counted (List Definition) := whileAhead (fun _ => true) definition

end Counted

end SchemaGraph
