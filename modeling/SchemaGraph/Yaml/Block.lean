import SchemaGraph.Yaml.Cursor

namespace SchemaGraph.Yaml

inductive Chomp where
  | strip
  | clip
  | keep
  deriving DecidableEq, Repr

structure BlockHeader where
  chomp : Chomp
  indent : Option Nat
  deriving DecidableEq, Repr

namespace BlockHeader

def chomp? (c : Char) : Option Chomp := [('-', Chomp.strip), ('+', Chomp.keep)].lookup c

def indent? (c : Char) : Option Nat :=
  if '1' ≤ c ∧ c ≤ '9' then some (c.toNat - '0'.toNat) else none

def read (cs : List Char) : BlockHeader × Nat :=
  match cs with
  | a :: b :: _ =>
      match chomp? a, indent? b, indent? a, chomp? b with
      | some k, some i, _, _ => (⟨k, some i⟩, 2)
      | some k, none, _, _ => (⟨k, none⟩, 1)
      | none, _, some i, some k => (⟨k, some i⟩, 2)
      | none, _, some i, none => (⟨.clip, some i⟩, 1)
      | none, _, none, _ => (⟨.clip, none⟩, 0)
  | [a] =>
      match chomp? a, indent? a with
      | some k, _ => (⟨k, none⟩, 1)
      | none, some i => (⟨.clip, some i⟩, 1)
      | none, none => (⟨.clip, none⟩, 0)
  | [] => (⟨.clip, none⟩, 0)

end BlockHeader

/-- Indentation and empty lines, up to a line with content. Without a given indentation the widest
one is taken, if it is `least` at least. -/
def emptyLines (least : Nat) (indent : Option Nat) :
    Nat → (widest : Nat) → Cursor → Option (List Char × Nat × Cursor)
  | 0, _, _ => none
  | n + 1, widest, c =>
      let spaces := (c.rest.takeWhile (· == ' ')).length
      let c := c.skip (indent.elim spaces fun i => min spaces (i - c.column))
      let widest := max widest c.column
      let found := indent.getD (max widest (max least 1))
      match c.rest with
      | x :: _ =>
          if x = '\t' ∧ indent.elim true (c.column < ·) then none
          else if isBreak x then
            (emptyLines least indent n widest c.next).map fun (bs, i, c) => (x :: bs, i, c)
          else some ([], found, c)
      | [] => some ([], found, c)

def joint (folded : Bool) (lineBreak : List Char) (blankBefore blankAfter : Bool)
    (empty : List Char) : List Char :=
  if folded && lineBreak == ['\n'] && !blankBefore && !blankAfter then
    if empty.isEmpty then [' '] else empty
  else lineBreak ++ empty

def tail (chomp : Chomp) (lineBreak empty : List Char) : List Char :=
  match chomp with
  | .strip => []
  | .clip => lineBreak
  | .keep => lineBreak ++ empty

def blockLines (folded : Bool) (chomp : Chomp) (indent : Nat) :
    Nat → (lineBreak : List Char) → (blankBefore : Bool) → (empty : List Char) → Cursor →
      Option (List Char × Cursor)
  | 0, _, _, _, _ => none
  | n + 1, lineBreak, blankBefore, empty, c =>
      if c.column == indent && !c.rest.isEmpty then do
        let blank := c.rest.head?.elim false isBlank
        let (text, c) := c.span (!isBreak ·)
        let lineBreak' := c.rest.take 1
        let (empty', _, c) ← emptyLines 0 (some indent) (c.rest.length + 1) 0 c.next
        let (more, c) ← blockLines folded chomp indent n lineBreak' blank empty' c
        return (joint folded lineBreak blankBefore blank empty ++ text ++ more, c)
      else some (tail chomp lineBreak empty, c)

def blockScalar (folded : Bool) (indents : List Nat) (c : Cursor) : Option (List Char × Cursor) := do
  let (header, width) := BlockHeader.read c.rest
  let c := (c.skip width).skipWhile isBlank
  let c := if c.rest.head? = some '#' then c.skipWhile (!isBreak ·) else c
  if !c.rest.head?.elim true isBreak then none
  let indent := header.indent.map (indents.headD 0 + ·)
  let least := indents.head?.elim 0 (· + 1)
  let (empty, indent, c) ← emptyLines least indent (c.rest.length + 1) 0 c.next
  blockLines folded header.chomp indent (c.rest.length + 1) [] false empty c

end SchemaGraph.Yaml
