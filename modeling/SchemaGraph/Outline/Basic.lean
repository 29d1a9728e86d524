import SchemaGraph.Json.Printer

namespace SchemaGraph

inductive Outline where
  | text (value : String)
  | count (value : Nat)
  | flag (value : Bool)
  | list (items : List Outline)
  | record (entries : List (String × Outline))
  deriving Repr, Inhabited

namespace Outline

def texts (items : List String) : Outline := .list (items.map .text)

def textEntry (key : String) (value : Option String) : List (String × Outline) :=
  value.toList.map fun s => (key, .text s)

def textsEntry (key : String) (items : List String) : List (String × Outline) :=
  if items.isEmpty then [] else [(key, texts items)]

def listEntry (key : String) (items : List Outline) : List (String × Outline) :=
  if items.isEmpty then [] else [(key, .list items)]

def countEntry (key : String) (n : Nat) : List (String × Outline) :=
  if n = 0 then [] else [(key, .count n)]

def flagEntry (key : String) (value : Bool) : List (String × Outline) :=
  if value then [(key, .flag true)] else []

mutual

def toJson : Outline → JsonValue
  | .text s => .string s
  | .count n => .int n
  | .flag b => .bool b
  | .list items => .array (toJsonItems items)
  | .record entries => .object (toJsonMembers entries)

def toJsonItems : List Outline → List JsonValue
  | [] => []
  | x :: xs => x.toJson :: toJsonItems xs

def toJsonMembers : List (String × Outline) → List (String × JsonValue)
  | [] => []
  | (k, x) :: xs => (k, x.toJson) :: toJsonMembers xs

end

end Outline

end SchemaGraph
