import SchemaGraph.Yaml.Flow
import SchemaGraph.Yaml.Block
import SchemaGraph.Yaml.Tag

namespace SchemaGraph.Yaml

inductive Setting where
  | plain
  | quoted
  | literal
  | folded
  deriving DecidableEq, Repr

inductive Token where
  | directive (d : Directive)
  | documentStart
  | documentEnd
  | sequenceBlock
  | mappingBlock
  | blockEnd
  | openSequence
  | closeSequence
  | openMapping
  | closeMapping
  | dash
  | comma
  | key
  | value
  | alias (name : List Char)
  | anchor (name : List Char)
  | tag (name : TagName)
  | scalar (text : List Char) (setting : Setting)
  deriving DecidableEq, Repr

structure KeyStart where
  tokens : Nat
  index : Nat
  line : Nat
  column : Nat
  required : Bool
  deriving DecidableEq, Repr

def KeyStart.reaches (k : KeyStart) (c : Cursor) : Bool :=
  k.line == c.line && c.index ≤ k.index + 1024

structure Reading where
  cursor : Cursor
  indents : List Nat
  /-- Possible keys: of the present bracket, of those around it and of the blocks. -/
  keys : List (Option KeyStart)
  keyAllowed : Bool
  tokens : List Token
  deriving Repr

namespace Reading

def start (cs : List Char) : Reading := ⟨.start cs, [], [none], true, []⟩

def inFlow (r : Reading) : Bool := 1 < r.keys.length

def emit (t : Token) (r : Reading) : Reading := { r with tokens := r.tokens ++ [t] }

def moveTo (c : Cursor) (r : Reading) : Reading := { r with cursor := c }

def skip (n : Nat) (r : Reading) : Reading := r.moveTo (r.cursor.skip n)

def allowKey (b : Bool) (r : Reading) : Reading := { r with keyAllowed := b }

def openBlock (t : Token) (column n : Nat) (r : Reading) : Reading :=
  if r.inFlow || !r.indents.head?.elim true (· < column) then r
  else { r with indents := column :: r.indents, tokens := r.tokens.insertIdx n t }

def closeWhile (p : Nat → Bool) (r : Reading) : Reading :=
  if r.inFlow then r
  else
    { r with
      indents := r.indents.dropWhile p
      tokens := r.tokens ++ List.replicate (r.indents.takeWhile p).length .blockEnd }

def closeInner (r : Reading) : Reading := r.closeWhile (r.cursor.column < ·)

def closeAll (r : Reading) : Reading := r.closeWhile fun _ => true

def possibleKey? (r : Reading) : Option KeyStart := r.keys.headD none

def setKey (k : Option KeyStart) (r : Reading) : Reading := { r with keys := k :: r.keys.drop 1 }

def dropKey (r : Reading) : Option Reading :=
  if r.possibleKey?.elim false KeyStart.required then none else some (r.setKey none)

def noteKey (r : Reading) : Option Reading := do
  if !r.keyAllowed then return r
  let c := r.cursor
  let required := !r.inFlow && r.indents.head? == some c.column
  return (← r.dropKey).setKey (some ⟨r.tokens.length, c.index, c.line, c.column, required⟩)

def skipGaps : Nat → Reading → Reading
  | 0, r => r
  | n + 1, r =>
      match r.cursor.rest with
      | [] => r
      | c :: _ =>
          if c = ' ' ∨ (c = '\t' ∧ (r.inFlow || !r.keyAllowed)) ∨ (c = '\ufeff' ∧ r.cursor.column = 0) then
            skipGaps n (r.skip 1)
          else if c = '#' then skipGaps n (r.moveTo (r.cursor.skipWhile (!isBreak ·)))
          else if isBreak c then skipGaps n ((r.skip 1).allowKey (r.keyAllowed || !r.inFlow))
          else r

def directive (r : Reading) : Option Reading := do
  let (line, c) := (r.cursor.skip 1).span (!isBreak ·)
  let d ← Directive.ofLine? line
  return (((← r.closeAll.dropKey).allowKey false).emit (.directive d)).moveTo c.next

def marker (r : Reading) : Option Reading := do
  let t := if r.cursor.rest.head? = some '-' then Token.documentStart else .documentEnd
  return (((← r.closeAll.dropKey).allowKey false).emit t).skip 3

def openBracket (t : Token) (r : Reading) : Option Reading := do
  let r := ((← r.noteKey).emit t).skip 1
  return { r with keys := none :: r.keys, keyAllowed := true }

def closeBracket (t : Token) (r : Reading) : Option Reading := do
  let r := (((← r.dropKey).allowKey false).emit t).skip 1
  return if r.inFlow then { r with keys := r.keys.drop 1 } else r

def comma (r : Reading) : Option Reading := do
  return (((← r.dropKey).allowKey true).emit .comma).skip 1

def dash (r : Reading) : Option Reading := do
  if !r.inFlow && !r.keyAllowed then none
  let r := r.openBlock .sequenceBlock r.cursor.column r.tokens.length
  return (((← r.dropKey).allowKey true).emit .dash).skip 1

def explicitKey (r : Reading) : Option Reading := do
  if !r.inFlow && !r.keyAllowed then none
  let r := r.openBlock .mappingBlock r.cursor.column r.tokens.length
  return (((← r.dropKey).allowKey (!r.inFlow)).emit .key).skip 1

def valueOf (k : KeyStart) (r : Reading) : Reading :=
  let r := { r with tokens := r.tokens.insertIdx k.tokens .key }
  let r := r.openBlock .mappingBlock k.column k.tokens
  (((r.setKey none).allowKey false).emit .value).skip 1

def valueAlone (r : Reading) : Option Reading := do
  if !r.inFlow && !r.keyAllowed then none
  let r := r.openBlock .mappingBlock r.cursor.column r.tokens.length
  return ((r.allowKey (!r.inFlow)).emit .value).skip 1

def colon (r : Reading) : Option Reading :=
  match r.possibleKey? with
  | some k =>
      if k.reaches r.cursor then some (r.valueOf k)
      else if k.required then none
      else r.valueAlone
  | none => r.valueAlone

def endsName (cs : List Char) : Bool :=
  endsWord cs || ['?', ':', ',', ']', '\x7d', '%', '@', '\x60'].contains (cs.headD ' ')

def named (make : List Char → Token) (r : Reading) : Option Reading :=
  let (name, c) := (r.cursor.skip 1).span isNameChar
  if name.isEmpty || !endsName c.rest then none
  else do return (((← r.noteKey).allowKey false).emit (make name)).moveTo c

def tag (r : Reading) : Option Reading := do
  let (name, width) ← TagName.read (r.cursor.rest.drop 1)
  let c := r.cursor.skip (width + 1)
  if endsWord c.rest || (r.inFlow && c.rest.head? = some ',') then
    return (((← r.noteKey).allowKey false).emit (.tag name)).moveTo c
  else none

def block (setting : Setting) (r : Reading) : Option Reading := do
  let (text, c) ← blockScalar (setting == .folded) r.indents (r.cursor.skip 1)
  return (((← r.dropKey).allowKey true).emit (.scalar text setting)).moveTo c

def quoted (read : Nat → Cursor → Option (List Char × Cursor)) (r : Reading) : Option Reading := do
  let (text, c) ← read (r.cursor.rest.length + 1) (r.cursor.skip 1)
  return (((← r.noteKey).allowKey false).emit (.scalar text .quoted)).moveTo c

def plain (r : Reading) : Option Reading := do
  let indent := r.indents.head?.elim 0 (· + 1)
  let s ← plainScalar r.inFlow indent (r.cursor.rest.length + 1) [] r.cursor
  return (((← r.noteKey).allowKey s.broken).emit (.scalar s.text .plain)).moveTo s.after

def isIndicator (c : Char) : Bool :=
  isGap c || [',', '[', ']', '\x7b', '\x7d', '#', '&', '*', '!', '|', '>', '\x27', '"', '%', '@',
    '\x60'].contains c

def token (c : Char) (after : List Char) (r : Reading) : Option Reading :=
  let word := endsWord after
  if r.cursor.column == 0 && c == '%' then r.directive
  else if r.cursor.atMarker then r.marker
  else if c = '[' then r.openBracket .openSequence
  else if c = '\x7b' then r.openBracket .openMapping
  else if c = ']' then r.closeBracket .closeSequence
  else if c = '\x7d' then r.closeBracket .closeMapping
  else if c = ',' then r.comma
  else if c = '-' then if word then r.dash else r.plain
  else if c = '?' then if r.inFlow || word then r.explicitKey else r.plain
  else if c = ':' then if r.inFlow || word then r.colon else r.plain
  else if c = '*' then r.named .alias
  else if c = '&' then r.named .anchor
  else if c = '!' then r.tag
  else if c = '|' && !r.inFlow then r.block .literal
  else if c = '>' && !r.inFlow then r.block .folded
  else if c = '\x27' then r.quoted singleQuoted
  else if c = '"' then r.quoted doubleQuoted
  else if isIndicator c then none
  else r.plain

def tokensWith : Nat → Reading → Option (List Token)
  | 0, _ => none
  | n + 1, r =>
      let r := r.skipGaps (r.cursor.rest.length + 1)
      match r.cursor.rest with
      | [] => do return (← r.closeAll.dropKey).tokens
      | c :: after => do tokensWith n (← r.closeInner.token c after)

end Reading

def tokens? (text : String) : Option (List Token) :=
  let cs := text.toList
  if cs.all isAllowed then Reading.tokensWith (cs.length + 1) (.start (unifyBreaks cs)) else none

end SchemaGraph.Yaml
