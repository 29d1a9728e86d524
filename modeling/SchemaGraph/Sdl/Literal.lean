import SchemaGraph.Text.Location
import SchemaGraph.Decimal.Binary64

namespace SchemaGraph

structure Ident where
  text : String
  span : Text.Span
  deriving DecidableEq, Repr

inductive Literal where
  | null
  | int (value : Int)
  | float (value : Decimal.Binary64)
  | string (value : String)
  | bool (value : Bool)
  | enum (tag : String)
  | list (items : List Literal)
  | object (entries : List (Ident × Literal))
  deriving Repr, Inhabited

def Literal.ofName (text : String) : Literal :=
  if text = "true" then .bool true
  else if text = "false" then .bool false
  else if text = "null" then .null
  else .enum text

end SchemaGraph
