import SchemaGraph.Yaml.Character
import SchemaGraph.Yaml.Plain
import SchemaGraph.Json.Printer

namespace SchemaGraph.Yaml

inductive Style where
  | plain
  | single
  | double
  | literal
  deriving DecidableEq, Repr

def opensOther (c : Char) : Bool :=
  ['#', ',', '[', ']', '\x7b', '\x7d', '&', '*', '!', '|', '>', '\x27', '"', '%', '@', '\x60'].contains c

def startsOther : List Char → Bool
  | '-' :: '-' :: '-' :: _ => true
  | '.' :: '.' :: '.' :: _ => true
  | '-' :: r => endsWord r
  | '?' :: r => endsWord r
  | c :: _ => opensOther c
  | [] => true

def endsInSpace (cs : List Char) : Bool := cs.getLast? = some ' '

def needsQuotes (cs : List Char) : Bool :=
  startsOther cs || cs.head? = some ' ' || endsInSpace cs || cs.any isBreak ||
    hasPair (· == ':') isGap cs || cs.getLast? = some ':' || hasPair isGap (· == '#') cs

def needsEscapes (cs : List Char) : Bool :=
  !cs.all isPrintable || hasPair (· == ' ') isBreak cs

def style (s : String) : Style :=
  let cs := s.toList
  if needsEscapes cs then .double
  else if cs.contains '\n' then if endsInSpace cs then .double else .literal
  else if isAmbiguous s || needsQuotes cs then
    if hasPair isBreak (· == ' ') cs then .double else .single
  else .plain

def padding (n : Nat) : String := String.ofList (List.replicate n ' ')

def singleBody (indent : Nat) : Bool → List Char → String
  | broken, [] => if broken then padding indent else ""
  | broken, c :: r =>
      if isBreak c then c.toString ++ singleBody indent true r
      else
        (if broken then padding indent else "") ++ (if c = '\x27' then "''" else c.toString) ++
          singleBody indent false r

def hex (width n : Nat) : String :=
  String.ofList ((List.range width).map fun i =>
    (Nat.digitChar (n / Nat.pow 16 (width - 1 - i) % 16)).toUpper)

def escapeChar (c : Char) : String :=
  if c = '\x00' then "\\0"
  else if c = '\x07' then "\\a"
  else if c = '\x08' then "\\b"
  else if c = '\t' then "\\t"
  else if c = '\n' then "\\n"
  else if c = '\x0b' then "\\v"
  else if c = '\x0c' then "\\f"
  else if c = '\r' then "\\r"
  else if c = '\x1b' then "\\e"
  else if c = '"' then "\\\""
  else if c = '\\' then "\\\\"
  else if c = '\x85' then "\\N"
  else if c = '\u2028' then "\\L"
  else if c = '\u2029' then "\\P"
  else if isPrintable c then c.toString
  else if c.toNat ≤ 0xFF then "\\x" ++ hex 2 c.toNat
  else "\\u" ++ hex 4 c.toNat

def literalBody (indent : Nat) : Bool → List Char → String
  | _, [] => ""
  | broken, c :: r =>
      if isBreak c then c.toString ++ literalBody indent true r
      else (if broken then padding indent else "") ++ c.toString ++ literalBody indent false r

def indentHint : List Char → String
  | c :: _ => if c = ' ' || isBreak c then "2" else ""
  | [] => ""

def chompHint (cs : List Char) : String :=
  match cs.reverse with
  | [] => "-"
  | c :: r => if isBreak c then (if (r.head?.elim true isBreak) then "+" else "") else "-"

def lastBreak (cs : List Char) : String := if (cs.getLast?.elim false isBreak) then "" else "\n"

def scalarLine (indent : Nat) (s : String) : String :=
  let cs := s.toList
  match style s with
  | .plain => s ++ "\n"
  | .single => "'" ++ singleBody indent false cs ++ "'\n"
  | .double => "\"" ++ String.join (cs.map escapeChar) ++ "\"\n"
  | .literal => "|" ++ indentHint cs ++ chompHint cs ++ "\n" ++ literalBody indent true cs ++ lastBreak cs

end SchemaGraph.Yaml
