import SchemaGraph.Summary.Listing
import SchemaGraph.Summary.Outline
import SchemaGraph.Yaml.Layout

namespace SchemaGraph

inductive Format where
  | json
  | yaml
  | text
  deriving DecidableEq, Repr

namespace Format

def name : Format → String
  | .json => "json"
  | .yaml => "yaml"
  | .text => "text"

def all : List Format := [.json, .yaml, .text]

def ofName? (s : String) : Option Format := all.find? (·.name == s)

end Format

def Summary.render (s : Summary) : Format → String
  | .json => s.outline.toJson.pretty
  | .yaml => s.outline.yaml
  | .text => s.listing

end SchemaGraph
