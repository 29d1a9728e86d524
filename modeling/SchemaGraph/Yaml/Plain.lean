import SchemaGraph.Token.Numeral

namespace SchemaGraph.Yaml

def isNull (s : String) : Bool := ["null", "Null", "NULL", "~"].contains s

def bool? (s : String) : Option Bool :=
  if ["true", "True", "TRUE"].contains s then some true
  else if ["false", "False", "FALSE"].contains s then some false
  else none

def isSign (c : Char) : Bool := c == '-' || c == '+'

def dropSign : List Char → List Char
  | c :: r => if isSign c then r else c :: r
  | [] => []

def isZeroLed (cs : List Char) : Bool :=
  match dropSign cs with
  | '0' :: d :: r => (d :: r).all Char.isDigit
  | _ => false

def digit? (radix : Nat) (c : Char) : Option Nat :=
  let value :=
    if c.isDigit then c.toNat - '0'.toNat
    else if 'a' ≤ c ∧ c ≤ 'f' then c.toNat - 'a'.toNat + 10
    else if 'A' ≤ c ∧ c ≤ 'F' then c.toNat - 'A'.toNat + 10
    else radix
  if value < radix then some value else none

def radixValue? (radix : Nat) (cs : List Char) : Option Nat :=
  if cs.isEmpty then none
  else (cs.mapM (digit? radix)).map fun ds => ds.foldl (fun n d => radix * n + d) 0

def radix? : List Char → Option (Nat × List Char)
  | '0' :: 'x' :: r => some (16, r)
  | '0' :: 'o' :: r => some (8, r)
  | '0' :: 'b' :: r => some (2, r)
  | _ => none

def isRadixInt (cs : List Char) : Bool :=
  let bound := if cs.head? = some '-' then Nat.pow 2 127 + 1 else Nat.pow 2 128
  match radix? (dropSign cs) with
  | some (radix, r) => (radixValue? radix r).elim false (· < bound)
  | none => false

def decimal? (cs : List Char) : Option Numeral :=
  let s := dropSign cs
  let whole := s.takeWhile Char.isDigit
  let rest := s.dropWhile Char.isDigit
  let (fraction, rest) :=
    match rest with
    | '.' :: r => (r.takeWhile Char.isDigit, r.dropWhile Char.isDigit)
    | r => ([], r)
  if (whole ++ fraction).isEmpty then none
  else
    match Numeral.readExponent rest with
    | .ok (e, []) => some ⟨cs.head? = some '-', whole, some fraction, e⟩
    | _ => none

def isInfinity (s : String) : Bool := [".inf", ".Inf", ".INF"].contains s

def isNotANumber (s : String) : Bool := [".nan", ".NaN", ".NAN"].contains s

def isFloat (cs : List Char) : Bool :=
  isInfinity (String.ofList (dropSign cs)) || isNotANumber (String.ofList cs) ||
    (decimal? cs).elim false fun n => n.floatValue.isFinite

def isNumber (cs : List Char) : Bool := isRadixInt cs || isFloat cs

def isAmbiguous (s : String) : Bool :=
  s.isEmpty || isNull s || (bool? s).isSome || isZeroLed s.toList || isNumber s.toList

end SchemaGraph.Yaml
