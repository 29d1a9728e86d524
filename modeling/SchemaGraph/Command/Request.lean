import SchemaGraph.Summary.Format

namespace SchemaGraph

inductive Command where
  | build (inputs : List String)
  | extend (base extensions : List String)
  | validate (inputs extensions : List String)
  deriving DecidableEq, Repr

structure Flags where
  config : Option String
  format : Option Format
  assumeValid : Bool
  assumeValidSdl : Bool
  builtins : Bool
  deriving DecidableEq, Repr

structure Request where
  flags : Flags
  command : Command
  deriving DecidableEq, Repr

end SchemaGraph
