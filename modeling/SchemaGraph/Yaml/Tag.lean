import SchemaGraph.Yaml.Cursor
import SchemaGraph.Yaml.Plain

namespace SchemaGraph.Yaml

abbrev Octets := List UInt8

def octets (s : String) : Octets := s.toUTF8.toList

def Octets.text? (os : Octets) : Option String := String.fromUTF8? (ByteArray.mk os.toArray)

def isNameChar (c : Char) : Bool := c.isAlphanum || c == '_' || c == '-'

def isTagChar (marked : Bool) (c : Char) : Bool :=
  isNameChar c || ";/?:@&=+$.!~*'()".contains c || (marked && [',', '[', ']'].contains c)

def octet? : List Char → Option UInt8
  | '%' :: a :: b :: _ => (radixValue? 16 [a, b]).map UInt8.ofNat
  | _ => none

def octetCount? (first : UInt8) : Option Nat :=
  let n := first.toNat
  if n < 0x80 then some 1
  else if 0xC0 ≤ n ∧ n < 0xE0 then some 2
  else if 0xE0 ≤ n ∧ n < 0xF0 then some 3
  else if 0xF0 ≤ n ∧ n < 0xF8 then some 4
  else none

def isFollower (o : UInt8) : Bool := 0x80 ≤ o.toNat && o.toNat < 0xC0

def numbered? (cs : List Char) : Option Octets := do
  let first ← octet? cs
  let count ← octetCount? first
  let followers ← (List.range (count - 1)).mapM fun i => octet? (cs.drop (3 * (i + 1)))
  if followers.all isFollower then return first :: followers else none

def readTagText (marked : Bool) : List Char → Option (Octets × Nat)
  | [] => some ([], 0)
  | c :: r =>
      if c = '%' then do
        let os ← numbered? (c :: r)
        let (more, n) ← readTagText marked (r.drop (3 * os.length - 1))
        return (os ++ more, n + 3 * os.length)
      else if isTagChar marked c then
        (readTagText marked r).map fun (more, n) => (c.toUInt8 :: more, n + 1)
      else some ([], 0)
termination_by cs => cs.length
decreasing_by
  · simp only [List.length_drop, List.length_cons]
    omega
  · simp only [List.length_cons]
    omega

def Octets.untilZero (os : Octets) : Octets := os.takeWhile (· != 0)

structure TagName where
  handle : Option (List Char)
  text : Octets
  deriving DecidableEq, Repr

namespace TagName

def readMarked (cs : List Char) : Option (TagName × Nat) := do
  let (text, n) ← readTagText true cs
  if n = 0 ∨ (cs.drop n).head? ≠ some '>' then none
  return (⟨none, text.untilZero⟩, n + 1)

def readHandled (name cs : List Char) : Option (TagName × Nat) := do
  let (text, n) ← readTagText false cs
  if n = 0 then none
  return (⟨some ('!' :: name ++ ['!']), text.untilZero⟩, n)

def readPlain (cs : List Char) : Option (TagName × Nat) := do
  let (text, n) ← readTagText false cs
  if text.untilZero.isEmpty then return (⟨none, octets "!"⟩, n)
  else return (⟨some ['!'], text.untilZero⟩, n)

def read (cs : List Char) : Option (TagName × Nat) :=
  let name := cs.takeWhile isNameChar
  match cs, cs.drop name.length with
  | '<' :: r, _ => (readMarked r).map fun (t, n) => (t, n + 1)
  | _, '!' :: r => (readHandled name r).map fun (t, n) => (t, n + name.length + 1)
  | _, _ => readPlain cs

end TagName

inductive Directive where
  | version (major minor : Nat)
  | handle (name : List Char) (text : Octets)
  deriving DecidableEq, Repr

namespace Directive

def number? (cs : List Char) : Option (Nat × List Char) := do
  let digits := cs.takeWhile Char.isDigit
  if 9 < digits.length then none
  return (← radixValue? 10 digits, cs.drop digits.length)

def version? (cs : List Char) : Option (Directive × List Char) := do
  let (major, rest) ← number? (cs.dropWhile isBlank)
  match rest with
  | '.' :: rest =>
      let (minor, rest) ← number? rest
      return (.version major minor, rest)
  | _ => none

def handleName? (cs : List Char) : Option (List Char × List Char) :=
  match cs with
  | '!' :: r =>
      let name := r.takeWhile isNameChar
      match r.drop name.length with
      | '!' :: rest => some ('!' :: name ++ ['!'], rest)
      | rest => if name.isEmpty then some (['!'], rest) else none
  | _ => none

def handle? (cs : List Char) : Option (Directive × List Char) := do
  let (name, rest) ← handleName? (cs.dropWhile isBlank)
  if rest.head?.elim true (!isBlank ·) then none
  let rest := rest.dropWhile isBlank
  let (text, n) ← readTagText true rest
  if n = 0 ∨ !endsWord (rest.drop n) then none
  return (.handle name text.untilZero, rest.drop n)

def ofLine? (line : List Char) : Option Directive := do
  let name := line.takeWhile isNameChar
  let rest := line.drop name.length
  if !endsWord rest then none
  let (d, rest) ←
    if name = "YAML".toList then version? rest
    else if name = "TAG".toList then handle? rest
    else none
  match rest.dropWhile isBlank with
  | [] | '#' :: _ => return d
  | _ => none

end Directive

abbrev Handles := List (List Char × Octets)

namespace Handles

def standard : Handles :=
  [("!".toList, octets "!"), ("!!".toList, octets "tag:yaml.org,2002:")]

def ofDirectives? (ds : List Directive) : Option Handles :=
  let versions := ds.filterMap fun
    | .version major minor => some (major, minor)
    | .handle .. => none
  let named := ds.filterMap fun
    | .version .. => none
    | .handle name text => some (name, text)
  if versions.length ≤ 1 ∧ versions.all ([(1, 1), (1, 2)].contains ·) ∧ (named.map (·.1)).Nodup then
    some (named ++ standard)
  else none

def tag? (hs : Handles) (t : TagName) : Option Octets :=
  match t.handle with
  | none => some t.text
  | some h => (hs.lookup h).map (· ++ t.text)

end Handles

end SchemaGraph.Yaml
