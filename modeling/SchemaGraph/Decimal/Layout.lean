import SchemaGraph.Decimal.Shortest

namespace SchemaGraph.Decimal

def zeros (n : Nat) : String := String.ofList (List.replicate n '0')

namespace Digits

def text (d : Digits) : String := Nat.repr d.digits

def positional (d : Digits) : String :=
  let s := d.text.toList
  let n := s.length
  if 0 ≤ d.exponent then d.text ++ zeros d.exponent.toNat
  else
    let places := (-d.exponent).toNat
    if places < n then String.ofList (s.take (n - places)) ++ "." ++ String.ofList (s.drop (n - places))
    else "0." ++ zeros (places - n) ++ d.text

def leading (d : Digits) : Int := d.exponent + (d.text.length - 1 : Nat)

def scientific (d : Digits) : String :=
  let rest := d.text.toList.drop 1
  let point := if rest.isEmpty then "" else "." ++ String.ofList rest
  let sign := if 0 ≤ d.leading then "e+" else "e-"
  String.ofList (d.text.toList.take 1) ++ point ++ sign ++ Nat.repr d.leading.natAbs

end Digits

def signed (x : Binary64) (text : String) : String :=
  if x.isNegative then "-" ++ text else text

def plain (x : Binary64) : String :=
  if x.isInfinite then signed x "inf"
  else if x.isFinite then signed x (shortest .up x).positional
  else "NaN"

def compact (x : Binary64) : String :=
  let d := shortest .even x
  if x.magnitude = 0 then signed x "0.0"
  else if -5 ≤ d.leading ∧ d.leading < 16 then
    signed x (if 0 ≤ d.exponent then d.positional ++ ".0" else d.positional)
  else signed x d.scientific

end SchemaGraph.Decimal
