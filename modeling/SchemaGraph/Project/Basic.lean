import SchemaGraph.Yaml.Node
import SchemaGraph.Schema.Snapshot
import SchemaGraph.Summary.Format
import SchemaGraph.Files.Path

namespace SchemaGraph

structure Project where
  base : List String
  extensions : List String
  options : Options
  format : Option Format
  builtins : Bool
  deriving DecidableEq, Repr

namespace Project

open Yaml

def empty : Project := ⟨[], [], .default, none, false⟩

def text? : Node → Option String
  | .scalar s _ _ => some s
  | _ => none

def isBlank : Node → Bool
  | .scalar s .plain _ => s.isEmpty
  | _ => false

def boolTag : Octets := octets "tag:yaml.org,2002:bool"

def nullTag : Octets := octets "tag:yaml.org,2002:null"

def flag? : Node → Option Bool
  | .scalar s .plain _ => bool? s
  | .scalar s .literal (some tag) => if tag = boolTag then bool? s else none
  | _ => none

def localName? : Octets → Option String
  | o :: os => if o = '!'.toUInt8 then Octets.text? os else none
  | [] => none

def formatName? : Node → Option String
  | .scalar s setting tag =>
      match tag.bind localName? with
      | some name => if setting = .plain ∧ (s.isEmpty ∨ isNull s) then some name else none
      | none => some s
  | _ => none

def isUnset : Node → Bool
  | .scalar s .plain none => s.isEmpty || isNull s
  | .scalar s .plain (some tag) => tag == nullTag && isNull s
  | _ => false

def isMistagged : Node → Bool
  | .scalar s .plain (some tag) => tag == nullTag && !isNull s
  | _ => false

def format? (n : Node) : Option (Option Format) :=
  if isUnset n then some none
  else if isMistagged n then none
  else ((formatName? n).bind Format.ofName?).map some

variable (c : Content)

def texts? : Node → Option (List String)
  | .sequence items => items.mapM fun n => text? (c.follow n)
  | n => if isBlank n then some [] else none

def entries? : Node → Option (List (String × Node))
  | .mapping es => es.mapM fun (k, v) => (text? (c.follow k)).map (·, c.follow v)
  | n => if isBlank n then some [] else none

def read {α : Type} (es : List (String × Node)) (key : String) (f : Node → Option α) (default : α) :
    Option α :=
  match es.filter (·.1 == key) with
  | [] => some default
  | [(_, n)] => f n
  | _ => none

def options? (n : Node) : Option Options := do
  let es ← entries? c n
  let assumeValid ← read es "assume_valid" flag? false
  let assumeValidSdl ← read es "assume_valid_sdl" flag? false
  return ⟨assumeValid, assumeValidSdl⟩

def ofContent? : Option Project := do
  let es ← entries? c c.root
  let base ← read es "base" (texts? c) []
  let extensions ← read es "extensions" (texts? c) []
  let options ← read es "options" (options? c) .default
  let format ← read es "format" format? none
  let builtins ← read es "include_builtins" flag? false
  return ⟨base, extensions, options, format, builtins⟩

def parse? (text : String) : Option Project := do ofContent? (← Node.parse? text)

def within (p : Project) (root : String) : Project :=
  { p with base := p.base.map (Path.join root), extensions := p.extensions.map (Path.join root) }

end Project

end SchemaGraph
