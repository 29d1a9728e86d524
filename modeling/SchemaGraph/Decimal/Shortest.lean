import SchemaGraph.Decimal.Binary64

namespace SchemaGraph.Decimal

structure Digits where
  digits : Nat
  exponent : Int
  deriving DecidableEq, Repr

inductive Tie where
  | up
  | even
  deriving DecidableEq, Repr

def digitCount (n : Nat) : Nat := (Nat.toDigits 10 n).length

def magnitude10 (num den : Nat) : Int :=
  if den ≤ num then (digitCount (num / den) - 1 : Nat)
  else -(digitCount ((den + num - 1) / num - 1) : Int)

structure Interval where
  low : Nat
  value : Nat
  high : Nat
  den : Nat
  closed : Bool

namespace Interval

def of (x : Binary64) : Interval :=
  let m := x.significand
  let e := x.exponent
  let below := if m = Nat.pow 2 52 ∧ e ≠ 0 then 1 else 2
  let up := Nat.pow 2 (e - 1076)
  ⟨(4 * m - below) * up, 4 * m * up, (4 * m + 2) * up, Nat.pow 2 (1076 - e), m % 2 = 0⟩

def holds (i : Interval) (num den : Nat) : Bool :=
  let a := num * i.den
  (i.low * den < a && a < i.high * den) || (i.closed && (a == i.low * den || a == i.high * den))

def nearest? (i : Interval) (tie : Tie) (k : Int) : Option Digits :=
  let num := if 0 ≤ k then Nat.pow 10 k.toNat else 1
  let den := if 0 ≤ k then 1 else Nat.pow 10 (-k).toNat
  let d := i.value * den / (i.den * num)
  let rest := i.value * den % (i.den * num)
  let lower := i.holds (d * num) den
  let upper := i.holds ((d + 1) * num) den
  let pickUpper := i.den * num < 2 * rest ||
    (i.den * num == 2 * rest && (tie == .up || d % 2 == 1))
  match lower, upper with
  | true, true => some ⟨if pickUpper then d + 1 else d, k⟩
  | true, false => some ⟨d, k⟩
  | false, true => some ⟨d + 1, k⟩
  | false, false => none

def search (i : Interval) (tie : Tie) (top : Int) : Nat → Nat → Digits
  | 0, n => ⟨i.value, top - n⟩
  | fuel + 1, n =>
      match i.nearest? tie (top - n) with
      | some d => d
      | none => search i tie top fuel (n + 1)

end Interval

def stripZeros : Nat → Digits → Digits
  | 0, d => d
  | fuel + 1, d => if d.digits % 10 = 0 then stripZeros fuel ⟨d.digits / 10, d.exponent + 1⟩ else d

def shortest (tie : Tie) (x : Binary64) : Digits :=
  if x.magnitude = 0 then ⟨0, 0⟩
  else
    let i := Interval.of x
    stripZeros 17 (i.search tie (magnitude10 i.value i.den) 18 0)

end SchemaGraph.Decimal
