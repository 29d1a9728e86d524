import SchemaGraph.Decimal.Binary64

namespace SchemaGraph

inductive JsonValue where
  | null
  | bool (value : Bool)
  | int (value : Int)
  | float (value : Decimal.Binary64)
  | string (value : String)
  | array (items : List JsonValue)
  | object (members : List (String × JsonValue))
  deriving Repr, Inhabited

namespace JsonValue

def insertMember (key : String) (value : JsonValue) :
    List (String × JsonValue) → List (String × JsonValue)
  | [] => [(key, value)]
  | (k, v) :: rest =>
      if key < k then (key, value) :: (k, v) :: rest
      else if key = k then (key, value) :: rest
      else (k, v) :: insertMember key value rest

def ofMembers (members : List (String × JsonValue)) : JsonValue :=
  .object (members.foldl (fun acc (k, v) => insertMember k v acc) [])

def ofBinary64? (x : Decimal.Binary64) : Option JsonValue :=
  if x.isFinite then some (.float x) else none

end JsonValue

end SchemaGraph
