import SchemaGraph.Token.Basic
import SchemaGraph.Token.Numeral
import SchemaGraph.Text.Dedent

namespace SchemaGraph

def isIgnorable (c : Char) : Bool :=
  c == ' ' || c == '\t' || c == ',' || c == '\r' || c == '\n' || c == '\uFEFF'

def splitGap (inComment : Bool) : List Char → List Char × List Char
  | [] => ([], [])
  | c :: cs =>
      if inComment then
        let (gap, rest) := splitGap (c != '\n') cs
        (c :: gap, rest)
      else if isIgnorable c then
        let (gap, rest) := splitGap false cs
        (c :: gap, rest)
      else if c = '#' then
        let (gap, rest) := splitGap true cs
        (c :: gap, rest)
      else ([], c :: cs)

theorem splitGap_append (b : Bool) (cs : List Char) :
    (splitGap b cs).1 ++ (splitGap b cs).2 = cs := by
  induction cs generalizing b with
  | nil => rfl
  | cons c cs ih =>
      unfold splitGap
      split
      · simp [ih]
      · split
        · simp [ih]
        · split <;> simp [ih]

def isNameStart (c : Char) : Bool := c == '_' || c.isAlpha

def isNameChar (c : Char) : Bool := c == '_' || c.isAlphanum

structure Lexeme (α : Type) where
  value : α
  text : List Char
  rest : List Char

namespace Lexeme

def map {α β : Type} (f : α → β) (l : Lexeme α) : Lexeme β := ⟨f l.value, l.text, l.rest⟩

def grow (value text : List Char) (l : Lexeme (List Char)) : Lexeme (List Char) :=
  ⟨value ++ l.value, text ++ l.text, l.rest⟩

end Lexeme

namespace StringLiteral

def escaped? : Char → Option Char
  | '"' => some '"'
  | '\\' => some '\\'
  | '/' => some '/'
  | 'b' => some '\x08'
  | 'f' => some '\x0c'
  | 'n' => some '\n'
  | 'r' => some '\r'
  | 't' => some '\t'
  | _ => none

def hexValue? (c : Char) : Option Nat :=
  if c.isDigit then some (c.toNat - '0'.toNat)
  else if 'a' ≤ c ∧ c ≤ 'f' then some (c.toNat - 'a'.toNat + 10)
  else if 'A' ≤ c ∧ c ≤ 'F' then some (c.toNat - 'A'.toNat + 10)
  else none

def unicode? (a b c d : Char) : Option Char := do
  let n := (((← hexValue? a) * 16 + (← hexValue? b)) * 16 + (← hexValue? c)) * 16 + (← hexValue? d)
  if n.isValidChar then some (Char.ofNat n) else none

def takeBytes : Nat → List Char → Option (List Char)
  | 0, _ => some []
  | _ + 1, [] => none
  | n + 1, c :: cs =>
      if c.utf8Size ≤ n + 1 then (takeBytes (n + 1 - c.utf8Size) cs).map (c :: ·) else none

def unicodeFault (cs : List Char) : LexFault :=
  match takeBytes 4 cs with
  | some hex => .badUnicodeEscape (String.ofList hex)
  | none => .shortUnicodeEscape

def leadByte (c : Char) : Char := Char.ofNat ((String.utf8EncodeChar c).headD 0).toNat

def read : List Char → Except LexFault (Lexeme (List Char))
  | [] => .error .unterminated
  | '"' :: r => .ok ⟨[], ['"'], r⟩
  | '\n' :: _ => .error .unterminated
  | '\r' :: _ => .error .unterminated
  | '\\' :: [] => .error .unterminated
  | '\\' :: 'u' :: a :: b :: c :: d :: r =>
      match unicode? a b c d with
      | some x => (read r).map (.grow [x] ['\\', 'u', a, b, c, d])
      | none => .error (unicodeFault (a :: b :: c :: d :: r))
  | '\\' :: 'u' :: r => .error (unicodeFault r)
  | '\\' :: e :: r =>
      match escaped? e with
      | some x => (read r).map (.grow [x] ['\\', e])
      | none => .error (.badEscape (leadByte e))
  | c :: r => (read r).map (.grow [c] [c])

def readBlock : List Char → Except LexFault (Lexeme (List Char))
  | [] => .error .unterminated
  | '"' :: '"' :: '"' :: r => .ok ⟨[], ['"', '"', '"'], r⟩
  | '\\' :: '"' :: '"' :: '"' :: r =>
      (readBlock r).map (.grow ['"', '"', '"'] ['\\', '"', '"', '"'])
  | c :: r => (readBlock r).map (.grow [c] [c])

theorem append_of_map_grow {x : Except LexFault (Lexeme (List Char))} {v t cs r : List Char}
    {l : Lexeme (List Char)} (h : x.map (.grow v t) = .ok l)
    (ih : ∀ l', x = .ok l' → l'.text ++ l'.rest = r) (hc : t ++ r = cs) :
    l.text ++ l.rest = cs := by
  obtain ⟨l', hx, rfl⟩ := exists_of_map_eq_ok h
  simp [Lexeme.grow, ih l' hx, hc]

theorem read_append (cs : List Char) :
    ∀ {l : Lexeme (List Char)}, read cs = .ok l → l.text ++ l.rest = cs := by
  fun_induction read cs with
  | case1 => intro l h; simp at h
  | case2 r => intro l h; simp only [Except.ok.injEq] at h; subst h; rfl
  | case3 => intro l h; simp at h
  | case4 => intro l h; simp at h
  | case5 => intro l h; simp at h
  | case6 a b c d r x hx ih => exact fun h => append_of_map_grow h (fun _ => ih) rfl
  | case7 => intro l h; simp at h
  | case8 => intro l h; simp at h
  | case9 e r _ _ x hx ih => exact fun h => append_of_map_grow h (fun _ => ih) rfl
  | case10 => intro l h; simp at h
  | case11 =>
      rename_i ih
      exact fun h => append_of_map_grow h (fun _ => ih) rfl

theorem readBlock_append (cs : List Char) :
    ∀ {l : Lexeme (List Char)}, readBlock cs = .ok l → l.text ++ l.rest = cs := by
  fun_induction readBlock cs with
  | case1 => intro l h; simp at h
  | case2 r => intro l h; simp only [Except.ok.injEq] at h; subst h; rfl
  | case3 r ih => exact fun h => append_of_map_grow h (fun _ => ih) rfl
  | case4 c r _ _ ih => exact fun h => append_of_map_grow h (fun _ => ih) rfl

end StringLiteral

namespace Token

def ofNumeral (n : Numeral) : Except LexFault TokenKind :=
  if n.isFloat then .ok (.float n.floatValue)
  else if n.intValue < -Int.pow 2 63 then .error (.intTooSmall (String.ofList n.text))
  else if Int.pow 2 63 ≤ n.intValue then .error (.intTooLarge (String.ofList n.text))
  else .ok (.int n.intValue)

def scanNumber (cs : List Char) : Except LexFault (Lexeme TokenKind) := do
  let (n, r) ← Numeral.read cs
  let kind ← ofNumeral n
  .ok ⟨kind, n.text, r⟩

def scanString (cs : List Char) : Except LexFault (Lexeme TokenKind) :=
  match cs with
  | '"' :: '"' :: '"' :: r =>
      (StringLiteral.readBlock r).map fun l =>
        ⟨.blockString (String.ofList (Text.dedent l.value)), '"' :: '"' :: '"' :: l.text, l.rest⟩
  | c :: r =>
      (StringLiteral.read r).map fun l => ⟨.string (String.ofList l.value), c :: l.text, l.rest⟩
  | [] => .error .unterminated

def scan (c : Char) (cs : List Char) : Except LexFault (Lexeme TokenKind) :=
  match Punct.ofChar? c with
  | some p => .ok ⟨.punct p, [c], cs⟩
  | none =>
      if c = '"' then scanString (c :: cs)
      else if c = '-' ∨ c.isDigit then scanNumber (c :: cs)
      else if isNameStart c then
        let text := c :: cs.takeWhile isNameChar
        .ok ⟨.name (String.ofList text), text, cs.dropWhile isNameChar⟩
      else .error (.unexpectedCharacter c)

theorem scanNumber_eq_ok_iff {cs t r : List Char} {k : TokenKind} :
    scanNumber cs = .ok ⟨k, t, r⟩ ↔
      ∃ n, Numeral.read cs = .ok (n, r) ∧ ofNumeral n = .ok k ∧ n.text = t := by
  constructor
  · intro h
    obtain ⟨⟨n, s⟩, hr, h⟩ := exists_of_bind_eq_ok h
    obtain ⟨k', hk, h⟩ := exists_of_bind_eq_ok h
    obtain ⟨rfl, rfl, rfl⟩ := Lexeme.mk.inj (Except.ok.inj h)
    exact ⟨n, hr, hk, rfl⟩
  · rintro ⟨n, hr, hk, rfl⟩
    simp only [scanNumber, hr, hk, bind, Except.bind]

theorem scanNumber_append {cs : List Char} {l : Lexeme TokenKind} (h : scanNumber cs = .ok l) :
    l.text ++ l.rest = cs ∧ l.text ≠ [] := by
  obtain ⟨n, hr, -, ht⟩ := scanNumber_eq_ok_iff.mp h
  rw [← ht]
  exact Numeral.read_append hr

theorem scanString_append {cs : List Char} {l : Lexeme TokenKind} (h : scanString cs = .ok l) :
    l.text ++ l.rest = cs ∧ l.text ≠ [] := by
  unfold scanString at h
  split at h
  · obtain ⟨l', hb, rfl⟩ := exists_of_map_eq_ok h
    simp [StringLiteral.readBlock_append _ hb]
  · obtain ⟨l', hb, rfl⟩ := exists_of_map_eq_ok h
    simp [StringLiteral.read_append _ hb]
  · simp at h

theorem scan_append {c : Char} {cs : List Char} {l : Lexeme TokenKind} (h : scan c cs = .ok l) :
    l.text ++ l.rest = c :: cs ∧ l.text ≠ [] := by
  unfold scan at h
  split at h
  · simp only [Except.ok.injEq] at h
    subst h
    simp
  · split at h
    · exact scanString_append h
    · split at h
      · exact scanNumber_append h
      · split at h
        · simp only [Except.ok.injEq] at h
          subst h
          simp
        · simp at h

theorem length_rest_lt_of_scan {c : Char} {cs : List Char} {l : Lexeme TokenKind}
    (h : scan c cs = .ok l) : l.rest.length < (c :: cs).length := by
  obtain ⟨happ, hne⟩ := scan_append h
  rw [← happ, List.length_append]
  have := List.length_pos_iff.mpr hne
  omega

end Token

structure LexError where
  fault : LexFault
  place : Text.Position
  deriving DecidableEq, Repr

def tokenizeFrom (p : Text.Position) (cs : List Char) : Except LexError Tokens :=
  let place := p.after (splitGap false cs).1
  match hgap : (splitGap false cs).2 with
  | [] => .ok ⟨[], place⟩
  | c :: r =>
      match hscan : Token.scan c r with
      | .error fault => .error ⟨fault, place⟩
      | .ok lexeme =>
          let stop := place.after lexeme.text
          have : lexeme.rest.length < cs.length := by
            have h1 := Token.length_rest_lt_of_scan hscan
            have h2 := congrArg List.length (splitGap_append false cs)
            rw [← hgap] at h1
            simp only [List.length_append] at h2
            omega
          (tokenizeFrom stop lexeme.rest).map fun ts =>
            { ts with items := ⟨lexeme.value, .between place stop⟩ :: ts.items }
termination_by cs.length

def tokenize (source : String) : Except LexError Tokens :=
  tokenizeFrom .start source.toList

end SchemaGraph
