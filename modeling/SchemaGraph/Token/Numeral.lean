import SchemaGraph.Token.Fault
import SchemaGraph.Decimal.Binary64

namespace SchemaGraph

structure Exponent where
  mark : Char
  sign : Option Char
  digits : List Char
  deriving DecidableEq, Repr

structure Numeral where
  negative : Bool
  whole : List Char
  fraction : Option (List Char)
  exponent : Option Exponent
  deriving DecidableEq, Repr

namespace Exponent

def text (e : Exponent) : List Char := e.mark :: (e.sign.toList ++ e.digits)

end Exponent

namespace Numeral

def text (n : Numeral) : List Char :=
  (if n.negative then ['-'] else []) ++ n.whole ++
    (n.fraction.elim [] ('.' :: ·)) ++ (n.exponent.elim [] Exponent.text)

def isFloat (n : Numeral) : Bool := n.fraction.isSome || n.exponent.isSome

def digitValue (c : Char) : Nat := c.toNat - '0'.toNat

def digitsValue (cs : List Char) : Nat := cs.foldl (fun n c => 10 * n + digitValue c) 0

def intValue (n : Numeral) : Int :=
  if n.negative then -(digitsValue n.whole : Int) else digitsValue n.whole

def exponentValue (e : Exponent) : Int :=
  if e.sign = some '-' then -(digitsValue e.digits : Int) else digitsValue e.digits

def floatValue (n : Numeral) : Decimal.Binary64 :=
  let fraction := n.fraction.getD []
  .ofDecimal n.negative (digitsValue (n.whole ++ fraction))
    (n.exponent.elim 0 exponentValue - fraction.length)

def readDigits (cs : List Char) : Except LexFault (List Char × List Char) :=
  match cs.takeWhile Char.isDigit with
  | [] => .error .digitExpected
  | ds => .ok (ds, cs.dropWhile Char.isDigit)

def readSign (cs : List Char) : Bool × List Char :=
  match cs with
  | '-' :: r => (true, r)
  | r => (false, r)

def readWhole (cs : List Char) : Except LexFault (List Char × List Char) :=
  match cs with
  | '0' :: r => if (r.head?.elim false Char.isDigit) then .error .digitAfterZero else .ok (['0'], r)
  | r => readDigits r

def readFraction (cs : List Char) : Except LexFault (Option (List Char) × List Char) :=
  match cs with
  | '.' :: r => (readDigits r).map fun (ds, r) => (some ds, r)
  | r => .ok (none, r)

def readExponentSign (cs : List Char) : Option Char × List Char :=
  match cs with
  | '+' :: r => (some '+', r)
  | '-' :: r => (some '-', r)
  | r => (none, r)

def readExponent (cs : List Char) : Except LexFault (Option Exponent × List Char) :=
  match cs with
  | c :: r =>
      if c = 'e' ∨ c = 'E' then
        let (sign, r) := readExponentSign r
        (readDigits r).map fun (ds, r) => (some ⟨c, sign, ds⟩, r)
      else .ok (none, cs)
  | [] => .ok (none, [])

def endsNumber (cs : List Char) : Bool :=
  match cs with
  | c :: _ => !(c == '_' || c.isAlpha || c == '.')
  | [] => true

def read (cs : List Char) : Except LexFault (Numeral × List Char) := do
  let (negative, cs) := readSign cs
  let (whole, cs) ← readWhole cs
  let (fraction, cs) ← readFraction cs
  let (exponent, cs) ← readExponent cs
  if endsNumber cs then .ok (⟨negative, whole, fraction, exponent⟩, cs)
  else .error .digitExpected

theorem readSign_append (cs : List Char) :
    (if (readSign cs).1 then ['-'] else []) ++ (readSign cs).2 = cs := by
  unfold readSign
  split <;> simp

theorem readDigits_append {cs ds r : List Char} (h : readDigits cs = .ok (ds, r)) :
    ds ++ r = cs ∧ ds ≠ [] := by
  unfold readDigits at h
  split at h
  · simp at h
  · rename_i hne
    simp only [Except.ok.injEq, Prod.mk.injEq] at h
    obtain ⟨rfl, rfl⟩ := h
    exact ⟨List.takeWhile_append_dropWhile, hne⟩

theorem readWhole_append {cs ds r : List Char} (h : readWhole cs = .ok (ds, r)) :
    ds ++ r = cs ∧ ds ≠ [] := by
  unfold readWhole at h
  split at h
  · split at h
    · simp at h
    · simp only [Except.ok.injEq, Prod.mk.injEq] at h
      obtain ⟨rfl, rfl⟩ := h
      simp
  · exact readDigits_append h

theorem readFraction_append {cs r : List Char} {f : Option (List Char)}
    (h : readFraction cs = .ok (f, r)) : f.elim [] ('.' :: ·) ++ r = cs := by
  unfold readFraction at h
  split at h
  · rename_i s
    cases hd : readDigits s with
    | error e => simp [hd, Except.map] at h
    | ok p =>
        obtain ⟨ds, r'⟩ := p
        simp only [hd, Except.map, Except.ok.injEq, Prod.mk.injEq] at h
        obtain ⟨rfl, rfl⟩ := h
        simp [(readDigits_append hd).1]
  · simp only [Except.ok.injEq, Prod.mk.injEq] at h
    obtain ⟨rfl, rfl⟩ := h
    simp

theorem readExponentSign_append (cs : List Char) :
    (readExponentSign cs).1.toList ++ (readExponentSign cs).2 = cs := by
  unfold readExponentSign
  split <;> simp

theorem readExponent_append {cs r : List Char} {e : Option Exponent}
    (h : readExponent cs = .ok (e, r)) : e.elim [] Exponent.text ++ r = cs := by
  unfold readExponent at h
  split at h
  · rename_i c s
    split at h
    · cases hd : readDigits (readExponentSign s).2 with
      | error e => simp [hd, Except.map] at h
      | ok p =>
          obtain ⟨ds, r'⟩ := p
          simp only [hd, Except.map, Except.ok.injEq, Prod.mk.injEq] at h
          obtain ⟨rfl, rfl⟩ := h
          have hs := readExponentSign_append s
          rw [← (readDigits_append hd).1] at hs
          simpa [Exponent.text] using hs
    · simp only [Except.ok.injEq, Prod.mk.injEq] at h
      obtain ⟨rfl, rfl⟩ := h
      simp
  · simp only [Except.ok.injEq, Prod.mk.injEq] at h
    obtain ⟨rfl, rfl⟩ := h
    simp

theorem read_eq_ok_parts {cs r : List Char} {n : Numeral} : read cs = .ok (n, r) ↔
    (readSign cs).1 = n.negative ∧ ∃ s t, readWhole (readSign cs).2 = .ok (n.whole, s) ∧
      readFraction s = .ok (n.fraction, t) ∧ readExponent t = .ok (n.exponent, r) ∧
        endsNumber r = true := by
  constructor
  · intro h
    obtain ⟨⟨whole, s⟩, hw, h⟩ := exists_of_bind_eq_ok h
    obtain ⟨⟨fraction, t⟩, hf, h⟩ := exists_of_bind_eq_ok h
    obtain ⟨⟨exponent, u⟩, he, h⟩ := exists_of_bind_eq_ok h
    dsimp only at h
    split at h
    · rename_i hend
      obtain ⟨rfl, rfl⟩ := Prod.mk.inj (Except.ok.inj h)
      exact ⟨rfl, s, t, hw, hf, he, hend⟩
    · exact nomatch h
  · rintro ⟨hsign, s, t, hw, hf, he, hend⟩
    simp only [read, hw, hf, he, hsign, bind, Except.bind]
    rw [if_pos hend]

theorem read_append {cs r : List Char} {n : Numeral} (h : read cs = .ok (n, r)) :
    n.text ++ r = cs ∧ n.text ≠ [] := by
  obtain ⟨hsign, s, t, hw, hf, he, -⟩ := read_eq_ok_parts.mp h
  have hs := readSign_append cs
  rw [hsign] at hs
  have hwhole := readWhole_append hw
  constructor
  · simp [text, readExponent_append he, readFraction_append hf, hwhole.1, hs]
  · simp [text, hwhole.2]

end Numeral

end SchemaGraph
