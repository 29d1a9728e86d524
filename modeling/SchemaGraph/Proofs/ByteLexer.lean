import SchemaGraph.Proofs.Utf8

namespace SchemaGraph.Lexer

open Text (Span byteAt? slice? runEnd)

structure State where
  pos : Nat
  line : Nat
  lineStart : Nat
  deriving DecidableEq, Repr

namespace State

def start : State := ⟨0, 1, 0⟩

def skip (s : State) (n : Nat) : State := { s with pos := s.pos + n }

def newline (s : State) : State := ⟨s.pos + 1, s.line + 1, s.pos + 1⟩

def pass (s : State) (c : Char) : State := if c = '\n' then s.newline else s.skip c.utf8Size

def column (s : State) : Nat := s.pos - s.lineStart + 1

@[simp] theorem pos_skip (s : State) (n : Nat) : (s.skip n).pos = s.pos + n := rfl

@[simp] theorem pos_newline (s : State) : s.newline.pos = s.pos + 1 := rfl

@[simp] theorem pos_pass (s : State) (c : Char) : (s.pass c).pos = s.pos + c.utf8Size := by
  unfold pass
  split
  · rename_i h
    subst h
    rfl
  · rfl

end State

-- Slicing inside of a character is an outcome of its own.
inductive Halt where
  | refused (fault : LexFault) (line column : Nat)
  | offBoundary
  deriving DecidableEq, Repr

section Bytes

variable (source : String)

def cut (i j : Nat) : Except Halt (List Char) :=
  match slice? source i j with
  | some cs => .ok cs
  | none => .error .offBoundary

def rest (i : Nat) : Except Halt (List Char) := cut source i source.utf8ByteSize

def passes (test : Char → Bool) (i : Nat) : Bool := (byteAt? source i).elim false test

variable {source} {test : Char → Bool} {i : Nat}

theorem exists_of_passes (h : passes source test i = true) :
    ∃ b, byteAt? source i = some b ∧ test b = true := by
  rw [passes] at h
  cases hb : byteAt? source i with
  | none => simp [hb] at h
  | some b =>
      rw [hb] at h
      exact ⟨b, rfl, h⟩

theorem le_runEnd (source : String) (test : Char → Bool) (i : Nat) : i ≤ runEnd source test i := by
  fun_induction runEnd source test i with
  | case1 i b hb ht ih => exact Nat.le_of_succ_le ih
  | case2 => exact Nat.le_refl _
  | case3 => exact Nat.le_refl _

theorem lt_runEnd (h : passes source test i = true) : i < runEnd source test i := by
  obtain ⟨b, hb, ht⟩ := exists_of_passes h
  rw [Text.runEnd_of_pass hb ht]
  exact le_runEnd source test (i + 1)

theorem lt_of_rest {cs : List Char} (h : rest source i = .ok cs) (hne : cs ≠ []) :
    i < source.utf8ByteSize := by
  unfold rest cut at h
  split at h
  · rename_i t hs
    obtain rfl := Except.ok.inj h
    obtain ⟨a, b, -, rfl, hend⟩ := Text.exists_of_slice? hs
    obtain ⟨c, cs, rfl⟩ := List.exists_cons_of_ne_nil hne
    have := c.utf8Size_pos
    rw [String.utf8Len_append, String.utf8Len_cons] at hend
    omega
  · cases h

end Bytes

section Readers

variable (source : String)

def isBlank (b : Char) : Bool := b == ' ' || b == '\t' || b == ',' || b == '\r'

def skipIgnored (s : State) : Except Halt State :=
  match h : byteAt? source s.pos with
  | none => .ok s
  | some b =>
      have := Text.lt_of_byteAt? h
      if isBlank b then skipIgnored (s.skip 1)
      else if b = '\xEF' then
        match rest source s.pos with
        | .error e => .error e
        | .ok cs => if cs.head? = some '\uFEFF' then skipIgnored (s.skip 3) else .ok s
      else if b = '\n' then skipIgnored s.newline
      else if hc : b = '#' then
        have : s.pos < runEnd source (· != '\n') s.pos := lt_runEnd (by rw [passes, h, hc]; rfl)
        skipIgnored { s with pos := runEnd source (· != '\n') s.pos }
      else .ok s
termination_by source.utf8ByteSize - s.pos
decreasing_by
  all_goals try simp only [State.pos_skip, State.pos_newline]
  all_goals omega

variable (line column : Nat)

def refuse {α : Type} (fault : LexFault) : Except Halt α := .error (.refused fault line column)

def readName (s : State) : Except Halt (TokenKind × State) := do
  let stop := runEnd source isNameChar s.pos
  let text ← cut source s.pos stop
  return (.name (String.ofList text), { s with pos := stop })

def readDigits (s : State) : State := { s with pos := runEnd source Char.isDigit s.pos }

def expectDigits (s : State) : Except Halt State :=
  if passes source Char.isDigit s.pos then .ok (readDigits source s)
  else refuse line column .digitExpected

def readSign (s : State) : State := if passes source (· == '-') s.pos then s.skip 1 else s

def readWhole (s : State) : Except Halt State :=
  if passes source (· == '0') s.pos then
    if passes source Char.isDigit (s.pos + 1) then refuse line column .digitAfterZero
    else .ok (s.skip 1)
  else expectDigits source line column s

def readFraction (s : State) : Except Halt (Bool × State) :=
  if passes source (· == '.') s.pos then
    (expectDigits source line column (s.skip 1)).map fun s => (true, s)
  else .ok (false, s)

def readExponentSign (s : State) : State :=
  if passes source (fun b => b == '+' || b == '-') s.pos then s.skip 1 else s

def readExponent (s : State) : Except Halt (Bool × State) :=
  if passes source (fun b => b == 'e' || b == 'E') s.pos then
    (expectDigits source line column (readExponentSign source (s.skip 1))).map fun s => (true, s)
  else .ok (false, s)

def parseInt (text : List Char) : Except LexFault TokenKind :=
  let value := Numeral.decimalValue text
  if value < -Int.pow 2 63 then .error (.intTooSmall (String.ofList text))
  else if Int.pow 2 63 ≤ value then .error (.intTooLarge (String.ofList text))
  else .ok (.int value)

def parseFloat (text : List Char) : Except LexFault TokenKind :=
  (Numeral.read text).map fun (n, _) => .float n.floatValue

def readNumeral (s : State) : Except Halt (Bool × State) := do
  let whole ← readWhole source line column (readSign source s)
  let (hasFraction, t) ← readFraction source line column whole
  let (hasExponent, u) ← readExponent source line column t
  if passes source (fun b => b == '_' || b.isAlpha || b == '.') u.pos then
    refuse line column .digitExpected
  else return (hasFraction || hasExponent, u)

def settle (s : State) : Except LexFault TokenKind → Except Halt (TokenKind × State)
  | .ok kind => .ok (kind, s)
  | .error fault => refuse line column fault

def readNumber (s : State) : Except Halt (TokenKind × State) := do
  let (isFloat, t) ← readNumeral source line column s
  let text ← cut source s.pos t.pos
  settle line column t (if isFloat then parseFloat text else parseInt text)

def readUnicode (s : State) : Except Halt (Char × State) :=
  match slice? source s.pos (s.pos + 4) with
  | none => refuse line column .shortUnicodeEscape
  | some hex =>
      match hex with
      | [a, b, c, d] =>
          match StringLiteral.unicode? a b c d with
          | some x => .ok (x, s.skip 4)
          | none => refuse line column (.badUnicodeEscape (String.ofList hex))
      | _ => refuse line column (.badUnicodeEscape (String.ofList hex))

def readEscape (s : State) : Except Halt (Char × State) :=
  match byteAt? source s.pos with
  | none => refuse line column .unterminated
  | some e =>
      if e = 'u' then readUnicode source line column (s.skip 1)
      else
        match StringLiteral.escaped? e with
        | some x => .ok (x, s.skip 1)
        | none => refuse line column (.badEscape e)

variable {source line column} in
theorem pos_lt_of_readEscape {s s' : State} {x : Char}
    (h : readEscape source line column s = .ok (x, s')) : s.pos < s'.pos := by
  unfold readEscape readUnicode refuse at h
  split at h
  · cases h
  · split at h
    · split at h
      · cases h
      · split at h
        · split at h
          · obtain ⟨-, rfl⟩ := Prod.mk.inj (Except.ok.inj h)
            simp only [State.pos_skip]
            omega
          · cases h
        · cases h
    · split at h
      · obtain ⟨-, rfl⟩ := Prod.mk.inj (Except.ok.inj h)
        exact Nat.lt_succ_self _
      · cases h

def readString (value : String) (s : State) : Except Halt (TokenKind × State) :=
  match h : rest source s.pos with
  | .error e => .error e
  | .ok [] => refuse line column .unterminated
  | .ok (c :: cs) =>
      have := lt_of_rest h (List.cons_ne_nil c cs)
      have := c.utf8Size_pos
      if c = '"' then .ok (.string value, s.skip 1)
      else if c = '\n' ∨ c = '\r' then refuse line column .unterminated
      else if c = '\\' then
        match he : readEscape source line column (s.skip 1) with
        | .error e => .error e
        | .ok (x, s') =>
            have := pos_lt_of_readEscape he
            readString (value.push x) s'
      else readString (value.push c) (s.skip c.utf8Size)
termination_by source.utf8ByteSize - s.pos
decreasing_by
  all_goals simp only [State.pos_skip] at *
  all_goals omega

def readBlock (raw : String) (s : State) : Except Halt (TokenKind × State) :=
  match h : rest source s.pos with
  | .error e => .error e
  | .ok cs =>
      if ['"', '"', '"'] <+: cs then
        .ok (.blockString (String.ofList (Text.dedent raw.toList)), s.skip 3)
      else if hq : ['\\', '"', '"', '"'] <+: cs then
        have := lt_of_rest h (hq.ne_nil (List.cons_ne_nil _ _))
        readBlock (raw ++ "\"\"\"") (s.skip 4)
      else
        match cs with
        | [] => refuse line column .unterminated
        | c :: cs =>
            have := lt_of_rest h (List.cons_ne_nil c cs)
            have := c.utf8Size_pos
            readBlock (raw.push c) (s.pass c)
termination_by source.utf8ByteSize - s.pos
decreasing_by
  all_goals simp only [State.pos_skip, State.pos_pass]
  all_goals omega

def readToken (b : Char) (s : State) : Except Halt (TokenKind × State) :=
  match Punct.ofChar? b with
  | some p => .ok (.punct p, s.skip 1)
  | none =>
      if b = '"' then do
        let cs ← rest source s.pos
        if ['"', '"', '"'] <+: cs then readBlock source line column "" (s.skip 3)
        else readString source line column "" (s.skip 1)
      else if b = '-' ∨ b.isDigit then readNumber source line column s
      else if isNameStart b then readName source s
      else do
        let cs ← rest source s.pos
        refuse line column (.unexpectedCharacter (cs.headD '\uFFFD'))

end Readers

section Progress

variable {source : String} {line column : Nat} {s s' : State}

theorem pos_le_of_skipIgnored (h : skipIgnored source s = .ok s') : s.pos ≤ s'.pos := by
  fun_induction skipIgnored source s with
  | case2 =>
      rename_i ih
      exact Nat.le_of_succ_le (ih h)
  | case4 =>
      rename_i ih
      exact (Nat.le_add_right _ 3).trans (ih h)
  | case6 =>
      rename_i ih
      exact Nat.le_of_succ_le (ih h)
  | case7 =>
      rename_i hlt ih
      exact (Nat.le_of_lt hlt).trans (ih h)
  | case3 => cases h
  | _ =>
      obtain rfl := Except.ok.inj h
      exact Nat.le_refl _

theorem pos_lt_of_expectDigits (h : expectDigits source line column s = .ok s') :
    s.pos < s'.pos := by
  unfold expectDigits refuse at h
  split at h
  · rename_i hd
    obtain rfl := Except.ok.inj h
    exact lt_runEnd hd
  · cases h

theorem pos_lt_of_readWhole (h : readWhole source line column s = .ok s') : s.pos < s'.pos := by
  unfold readWhole refuse at h
  split at h
  · split at h
    · cases h
    · obtain rfl := Except.ok.inj h
      exact Nat.lt_succ_self _
  · exact pos_lt_of_expectDigits h

theorem pos_le_readSign (source : String) (s : State) : s.pos ≤ (readSign source s).pos := by
  unfold readSign
  split
  · exact Nat.le_succ _
  · exact Nat.le_refl _

theorem pos_le_of_readFraction {b : Bool} (h : readFraction source line column s = .ok (b, s')) :
    s.pos ≤ s'.pos := by
  unfold readFraction at h
  split at h
  · obtain ⟨t, ht, he⟩ := exists_of_map_eq_ok h
    obtain ⟨-, rfl⟩ := Prod.mk.inj he
    exact Nat.le_of_succ_le (Nat.le_of_lt (pos_lt_of_expectDigits ht))
  · obtain ⟨-, rfl⟩ := Prod.mk.inj (Except.ok.inj h)
    exact Nat.le_refl _

theorem pos_le_readExponentSign (source : String) (s : State) :
    s.pos ≤ (readExponentSign source s).pos := by
  unfold readExponentSign
  split
  · exact Nat.le_succ _
  · exact Nat.le_refl _

theorem pos_le_of_readExponent {b : Bool} (h : readExponent source line column s = .ok (b, s')) :
    s.pos ≤ s'.pos := by
  unfold readExponent at h
  split at h
  · obtain ⟨t, ht, he⟩ := exists_of_map_eq_ok h
    obtain ⟨-, rfl⟩ := Prod.mk.inj he
    have hsign := pos_le_readExponentSign source (s.skip 1)
    exact (Nat.le_of_succ_le hsign).trans (Nat.le_of_lt (pos_lt_of_expectDigits ht))
  · obtain ⟨-, rfl⟩ := Prod.mk.inj (Except.ok.inj h)
    exact Nat.le_refl _

theorem pos_lt_of_readNumeral {b : Bool} (h : readNumeral source line column s = .ok (b, s')) :
    s.pos < s'.pos := by
  obtain ⟨t, hwhole, h⟩ := exists_of_bind_eq_ok h
  obtain ⟨⟨f, u⟩, hfraction, h⟩ := exists_of_bind_eq_ok h
  obtain ⟨⟨e, v⟩, hexponent, h⟩ := exists_of_bind_eq_ok h
  dsimp only [refuse] at h
  split at h
  · cases h
  · obtain ⟨-, rfl⟩ := Prod.mk.inj (Except.ok.inj h)
    have hsign := (pos_le_readSign source s).trans_lt (pos_lt_of_readWhole hwhole)
    exact hsign.trans_le
      ((pos_le_of_readFraction hfraction).trans (pos_le_of_readExponent hexponent))

variable {k : TokenKind}

theorem pos_lt_of_readNumber (h : readNumber source line column s = .ok (k, s')) :
    s.pos < s'.pos := by
  obtain ⟨⟨b, t⟩, ht, h⟩ := exists_of_bind_eq_ok h
  obtain ⟨text, -, h⟩ := exists_of_bind_eq_ok h
  generalize (if b then parseFloat text else parseInt text) = x at h
  cases x with
  | ok kind =>
      obtain ⟨-, rfl⟩ := Prod.mk.inj (Except.ok.inj h)
      exact pos_lt_of_readNumeral ht
  | error fault => cases h

theorem pos_lt_of_readString {value : String}
    (h : readString source line column value s = .ok (k, s')) : s.pos < s'.pos := by
  fun_induction readString source line column value s with
  | case3 =>
      obtain ⟨-, rfl⟩ := Prod.mk.inj (Except.ok.inj h)
      exact Nat.lt_succ_self _
  | case6 =>
      rename_i hlt _ _ _ _ _ ih
      exact (Nat.lt_of_succ_lt hlt).trans (ih h)
  | case7 =>
      rename_i ih
      exact (Nat.le_add_right _ _).trans_lt (ih h)
  | _ => cases h

theorem pos_lt_of_readBlock {raw : String}
    (h : readBlock source line column raw s = .ok (k, s')) : s.pos < s'.pos := by
  fun_induction readBlock source line column raw s with
  | case2 =>
      obtain ⟨-, rfl⟩ := Prod.mk.inj (Except.ok.inj h)
      exact Nat.lt_add_of_pos_right (by decide)
  | case3 =>
      rename_i ih
      exact (Nat.le_add_right _ 4).trans_lt (ih h)
  | case5 =>
      rename_i ih
      have hlt := ih h
      rw [State.pos_pass] at hlt
      omega
  | _ => cases h

theorem pos_lt_of_readName (hs : passes source isNameChar s.pos = true)
    (h : readName source s = .ok (k, s')) : s.pos < s'.pos := by
  obtain ⟨text, -, h⟩ := exists_of_bind_eq_ok h
  obtain ⟨-, rfl⟩ := Prod.mk.inj (Except.ok.inj h)
  exact lt_runEnd hs

theorem pos_lt_of_readToken {b : Char} (hb : byteAt? source s.pos = some b)
    (h : readToken source line column b s = .ok (k, s')) : s.pos < s'.pos := by
  unfold readToken at h
  split at h
  · obtain ⟨-, rfl⟩ := Prod.mk.inj (Except.ok.inj h)
    exact Nat.lt_succ_self _
  · split at h
    · obtain ⟨cs, -, h⟩ := exists_of_bind_eq_ok h
      split at h
      · exact (Nat.le_add_right _ 3).trans_lt (pos_lt_of_readBlock h)
      · exact Nat.lt_of_succ_lt (pos_lt_of_readString h)
    · split at h
      · exact pos_lt_of_readNumber h
      · split at h
        · rename_i hname
          refine pos_lt_of_readName ?_ h
          rw [passes, hb]
          exact Token.isNameChar_of_isNameStart hname
        · obtain ⟨cs, -, h⟩ := exists_of_bind_eq_ok h
          cases h

end Progress

section Tokens

variable (source : String)

def nextToken (s : State) : Except Halt (Option TokenKind × Span × State) := do
  let s ← skipIgnored source s
  match byteAt? source s.pos with
  | none => return (none, ⟨s.pos, s.pos, s.line, s.column⟩, s)
  | some b =>
      let (kind, s') ← readToken source s.line s.column b s
      return (some kind, ⟨s.pos, s'.pos, s.line, s.column⟩, s')

variable {source} in
theorem pos_lt_of_nextToken {s s' : State} {kind : TokenKind} {span : Span}
    (h : nextToken source s = .ok (some kind, span, s')) :
    s.pos < source.utf8ByteSize ∧ s.pos < s'.pos := by
  obtain ⟨t, ht, h⟩ := exists_of_bind_eq_ok h
  have hle := pos_le_of_skipIgnored ht
  split at h
  · cases h
  · rename_i b hb
    obtain ⟨⟨k, u⟩, hu, h⟩ := exists_of_bind_eq_ok h
    obtain ⟨-, -, rfl⟩ := by simpa using Except.ok.inj h
    exact ⟨hle.trans_lt (Text.lt_of_byteAt? hb), hle.trans_lt (pos_lt_of_readToken hb hu)⟩

def tokenizeFrom (s : State) : Except Halt Tokens :=
  match h : nextToken source s with
  | .error e => .error e
  | .ok (none, span, _) => .ok ⟨[], ⟨span.start, span.line, span.column⟩⟩
  | .ok (some kind, span, s') =>
      have := pos_lt_of_nextToken h
      (tokenizeFrom s').map fun ts => { ts with items := ⟨kind, span⟩ :: ts.items }
termination_by source.utf8ByteSize - s.pos

def tokenize : Except Halt Tokens := tokenizeFrom source .start

end Tokens

end SchemaGraph.Lexer
