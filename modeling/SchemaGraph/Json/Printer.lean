import SchemaGraph.Json.Value
import SchemaGraph.Decimal.Layout

namespace SchemaGraph

namespace JsonText

def hex4 (n : Nat) : String :=
  String.ofList ((List.range 4).map fun i => Nat.digitChar (n / Nat.pow 16 (3 - i) % 16))

def escapeChar (c : Char) : String :=
  if c = '"' then "\\\""
  else if c = '\\' then "\\\\"
  else if c = '\x08' then "\\b"
  else if c = '\x0c' then "\\f"
  else if c = '\n' then "\\n"
  else if c = '\r' then "\\r"
  else if c = '\t' then "\\t"
  else if c.toNat < 0x20 then "\\u" ++ hex4 c.toNat
  else c.toString

def quote (s : String) : String := "\"" ++ String.join (s.toList.map escapeChar) ++ "\""

def comma (texts : List String) : String := ",".intercalate texts

def newline (depth : Nat) : String := "\n" ++ String.ofList (List.replicate (2 * depth) ' ')

end JsonText

namespace JsonValue

open JsonText

mutual

def compact : JsonValue → String
  | .null => "null"
  | .bool true => "true"
  | .bool false => "false"
  | .int n => toString n
  | .float x => Decimal.compact x
  | .string s => quote s
  | .array items => "[" ++ comma (compactItems items) ++ "]"
  | .object members => "\x7b" ++ comma (compactMembers members) ++ "\x7d"

def compactItems : List JsonValue → List String
  | [] => []
  | v :: vs => v.compact :: compactItems vs

def compactMembers : List (String × JsonValue) → List String
  | [] => []
  | (k, v) :: ms => (quote k ++ ":" ++ v.compact) :: compactMembers ms

end

mutual

def indented (depth : Nat) : JsonValue → String
  | .array [] => "[]"
  | .array (v :: vs) =>
      "[" ++ newline (depth + 1) ++ v.indented (depth + 1) ++ indentedItems (depth + 1) vs ++
        newline depth ++ "]"
  | .object [] => "\x7b\x7d"
  | .object ((k, v) :: ms) =>
      "\x7b" ++ newline (depth + 1) ++ quote k ++ ": " ++ v.indented (depth + 1) ++
        indentedMembers (depth + 1) ms ++ newline depth ++ "\x7d"
  | v => v.compact

def indentedItems (depth : Nat) : List JsonValue → String
  | [] => ""
  | v :: vs => "," ++ newline depth ++ v.indented depth ++ indentedItems depth vs

def indentedMembers (depth : Nat) : List (String × JsonValue) → String
  | [] => ""
  | (k, v) :: ms =>
      "," ++ newline depth ++ quote k ++ ": " ++ v.indented depth ++ indentedMembers depth ms

end

def pretty (v : JsonValue) : String := v.indented 0

end JsonValue

end SchemaGraph
