import SchemaGraph.Yaml.Cursor
import SchemaGraph.Yaml.Plain

namespace SchemaGraph.Yaml

def fold (gap : List Char) : List Char :=
  match gap.filter isBreak with
  | [] => gap
  | ['\n'] => [' ']
  | '\n' :: bs => bs
  | bs => bs

def singleQuoted : Nat → Cursor → Option (List Char × Cursor)
  | 0, _ => none
  | n + 1, c =>
      if c.atMarker then none
      else
        match c.rest with
        | [] => none
        | '\x27' :: '\x27' :: _ => (singleQuoted n (c.skip 2)).map fun (s, c) => ('\x27' :: s, c)
        | '\x27' :: _ => some ([], c.next)
        | x :: _ =>
            if isGap x then
              let (gap, c) := c.span isGap
              (singleQuoted n c).map fun (s, c) => (fold gap ++ s, c)
            else (singleQuoted n c.next).map fun (s, c) => (x :: s, c)

def shortEscape? (c : Char) : Option Char :=
  [('0', '\x00'), ('a', '\x07'), ('b', '\x08'), ('t', '\t'), ('\t', '\t'), ('n', '\n'),
    ('v', '\x0b'), ('f', '\x0c'), ('r', '\r'), ('e', '\x1b'), (' ', ' '), ('"', '"'), ('/', '/'),
    ('\\', '\\'), ('N', '\x85'), ('_', '\xa0'), ('L', '\u2028'), ('P', '\u2029')].lookup c

def escapeWidth? (c : Char) : Option Nat := [('x', 2), ('u', 4), ('U', 8)].lookup c

def codePoint? (digits : List Char) : Option Char := do
  let n ← radixValue? 16 digits
  if n.isValidChar then return Char.ofNat n else none

def escape? (cs : List Char) : Option (Char × Nat) :=
  match cs with
  | [] => none
  | c :: r =>
      match shortEscape? c, escapeWidth? c with
      | some x, _ => some (x, 1)
      | none, some width =>
          if r.length < width then none else (codePoint? (r.take width)).map (·, width + 1)
      | none, none => none

def doubleQuoted : Nat → Cursor → Option (List Char × Cursor)
  | 0, _ => none
  | n + 1, c =>
      if c.atMarker then none
      else
        match c.rest with
        | [] => none
        | '"' :: _ => some ([], c.next)
        | '\\' :: r =>
            if r.head?.elim false isBreak then
              let (gap, c) := (c.skip 2).span isGap
              (doubleQuoted n c).map fun (s, c) => (gap.filter isBreak ++ s, c)
            else do
              let (x, width) ← escape? r
              let (s, c) ← doubleQuoted n (c.skip (width + 1))
              return (x :: s, c)
        | x :: _ =>
            if isGap x then
              let (gap, c) := c.span isGap
              (doubleQuoted n c).map fun (s, c) => (fold gap ++ s, c)
            else (doubleQuoted n c.next).map fun (s, c) => (x :: s, c)

def isFlowMark (c : Char) : Bool := [',', '[', ']', '\x7b', '\x7d'].contains c

inductive Colon where
  | part
  | stop
  | refused
  deriving DecidableEq, Repr

def colon (inFlow : Bool) (after : List Char) : Colon :=
  if inFlow && after.head?.elim false (fun c => isFlowMark c || c == '?') then .refused
  else if endsWord after then .stop
  else .part

def plainRun (inFlow : Bool) : List Char → Option (List Char)
  | [] => some []
  | c :: r =>
      if isGap c then some []
      else if c = ':' then
        match colon inFlow r with
        | .refused => none
        | .stop => some []
        | .part => (plainRun inFlow r).map (c :: ·)
      else if inFlow && isFlowMark c then some []
      else (plainRun inFlow r).map (c :: ·)

def tabInIndent (indent : Nat) : Nat → Bool → List Char → Bool
  | _, _, [] => false
  | column, broken, c :: r =>
      if isBreak c then tabInIndent indent 0 true r
      else (broken && c == '\t' && column < indent) || tabInIndent indent (column + 1) broken r

structure PlainScalar where
  text : List Char
  after : Cursor
  broken : Bool

def plainScalar (inFlow : Bool) (indent : Nat) : Nat → (gap : List Char) → Cursor → Option PlainScalar
  | 0, _, _ => none
  | n + 1, gap, c =>
      let ended : PlainScalar := ⟨[], c, gap.any isBreak⟩
      if c.atMarker || c.rest.head? = some '#' then some ended
      else do
        let run ← plainRun inFlow c.rest
        if run.isEmpty then return ended
        let text := fold gap ++ run
        let (gap, after) := (c.skip run.length).span isGap
        if gap.isEmpty then return ⟨text, after, false⟩
        if tabInIndent indent 0 false gap then none
        if !inFlow && after.column < indent then return ⟨text, after, gap.any isBreak⟩
        let more ← plainScalar inFlow indent n gap after
        return { more with text := text ++ more.text }

end SchemaGraph.Yaml
