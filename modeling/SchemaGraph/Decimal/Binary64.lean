namespace SchemaGraph.Decimal

structure Binary64 where
  bits : UInt64
  deriving DecidableEq, Repr, Inhabited

namespace Binary64

def signBit : Nat := Nat.pow 2 63

def infinityBits : Nat := 0x7FF0000000000000

def magnitude (x : Binary64) : Nat := x.bits.toNat % signBit

def isNegative (x : Binary64) : Bool := signBit ≤ x.bits.toNat

def isFinite (x : Binary64) : Bool := x.magnitude < infinityBits

def isInfinite (x : Binary64) : Bool := x.magnitude == infinityBits

def ofMagnitude (negative : Bool) (m : Nat) : Binary64 :=
  ⟨UInt64.ofNat (if negative then signBit + m else m)⟩

def significand (x : Binary64) : Nat :=
  if x.magnitude < Nat.pow 2 52 then x.magnitude else Nat.pow 2 52 + x.magnitude % Nat.pow 2 52

def exponent (x : Binary64) : Nat := x.magnitude / Nat.pow 2 52 - 1

def roundHalfEven (num den : Nat) : Nat :=
  let q := num / den
  let r := num % den
  if 2 * r < den then q
  else if den < 2 * r then q + 1
  else q + q % 2

def scaled (num den e : Nat) : Nat :=
  if e ≤ 1074 then roundHalfEven (num * Nat.pow 2 (1074 - e)) den
  else roundHalfEven num (den * Nat.pow 2 (e - 1074))

def exponentFor (num den : Nat) : Nat :=
  let e := num.log2 + 1074 - den.log2 - 53
  let below := if e ≤ 1074 then num * Nat.pow 2 (1074 - e) < den * Nat.pow 2 53
    else num < den * Nat.pow 2 (e - 1074) * Nat.pow 2 53
  if below then e else e + 1

def ofRatio (negative : Bool) (num den : Nat) : Binary64 :=
  let e := if num = 0 then 0 else exponentFor num den
  ofMagnitude negative (min (e * Nat.pow 2 52 + scaled num den e) infinityBits)

def ofInt (n : Int) : Binary64 := ofRatio (n < 0) n.natAbs 1

/-- The number nearest to `digits * 10 ^ exponent`. Exponents so large or small that the result is
an infinity or a zero whatever the digits are decided without raising ten to them. -/
def ofDecimal (negative : Bool) (digits : Nat) (exponent : Int) : Binary64 :=
  if digits = 0 then ofMagnitude negative 0
  else if 400 < exponent then ofMagnitude negative infinityBits
  else if exponent < -(digits.log2 + 400 : Int) then ofMagnitude negative 0
  else if 0 ≤ exponent then ofRatio negative (digits * Nat.pow 10 exponent.toNat) 1
  else ofRatio negative digits (Nat.pow 10 (-exponent).toNat)

end Binary64

end SchemaGraph.Decimal
