import SchemaGraph.Yaml.Token

namespace SchemaGraph.Yaml

inductive Node where
  | scalar (text : String) (setting : Setting) (tag : Option Octets)
  | sequence (items : List Node)
  | mapping (entries : List (Node × Node))
  | alias (anchor : Nat)
  deriving Repr, Inhabited

structure Anchored where
  number : Nat
  rank : Nat
  node : Node

structure Content where
  root : Node
  anchored : List Anchored

namespace Content

def target? (c : Content) (number : Nat) : Option Node :=
  let found := c.anchored.filter (·.number == number)
  (found.find? fun a => found.all (·.rank ≤ a.rank)).map (·.node)

def follow (c : Content) : Node → Node
  | .alias number => (c.target? number).getD (.alias number)
  | n => n

end Content

namespace Node

def absent : Node := .scalar "" .plain none

structure Rest where
  names : List (List Char × Nat)
  rank : Nat
  anchored : List Anchored
  tokens : List Token

abbrev Read := ReaderT Handles (StateT Rest Option)

def next? : Read (Option Token) := do return (← get).tokens.head?

def advance : Read Unit := modify fun s => { s with tokens := s.tokens.drop 1 }

def nextIs (t : Token) : Read Bool := do return (← next?) == some t

def nextIn (ts : List Token) : Read Bool := do return (← next?).elim false ts.contains

def expect (t : Token) : Read Unit := do if ← nextIs t then advance else failure

def skipIf (t : Token) : Read Bool := do
  if ← nextIs t then
    advance
    return true
  else return false

structure Properties where
  anchor : Option (Nat × Nat)
  tag : Option Octets

/-- The number of an anchor is how many names there were before it. A name that comes again is one
of these itself. -/
def anchor? : Read (Option (Nat × Nat)) := do
  match ← next? with
  | some (.anchor name) =>
      advance
      let s ← get
      let number := s.names.length
      set { s with names := (name, number) :: s.names.filter (·.1 != name), rank := s.rank + 1 }
      return some (number, s.rank)
  | _ => return none

def tag? : Read (Option Octets) := do
  match ← next? with
  | some (.tag name) =>
      advance
      return some (← (← readThe Handles).tag? name)
  | _ => return none

def properties : Read Properties := do
  let first ← anchor?
  let tag ← tag?
  let anchor ← if first.isSome then pure first else anchor?
  return ⟨anchor, tag⟩

def setAnchor (anchor : Option (Nat × Nat)) (node : Node) : Read Node := do
  let found := anchor.toList.map fun (number, rank) => ⟨number, rank, node⟩
  modify fun s => { s with anchored := found ++ s.anchored }
  return node

def aliased (name : List Char) : Read Node := do
  match (← get).names.lookup name with
  | some number => return .alias number
  | none => failure

mutual

def read : Nat → (block dashes : Bool) → Read Node
  | 0, _, _ => failure
  | n + 1, block, dashes => do
      match ← next? with
      | some (.alias name) =>
          advance
          aliased name
      | _ =>
          let p ← properties
          setAnchor p.anchor (← content n block dashes p)

def content : Nat → (block dashes : Bool) → Properties → Read Node
  | 0, _, _, _ => failure
  | n + 1, block, dashes, p => do
      match ← next? with
      | some (.scalar text setting) =>
          advance
          return .scalar (String.ofList text) setting p.tag
      | some .openSequence =>
          advance
          return .sequence (← flowItems n true)
      | some .openMapping =>
          advance
          return .mapping (← flowEntries n true)
      | t =>
          if dashes && t == some .dash then return .sequence (← dashItems n)
          else if block && t == some .sequenceBlock then
            advance
            let items ← dashItems n
            expect .blockEnd
            return .sequence items
          else if block && t == some .mappingBlock then
            advance
            return .mapping (← blockEntries n)
          else if p.anchor.isSome || p.tag.isSome then return .scalar "" .plain p.tag
          else failure

def readUnless : Nat → List Token → (block dashes : Bool) → Read Node
  | 0, _, _, _ => failure
  | n + 1, stops, block, dashes => do
      if ← nextIn stops then return absent else read n block dashes

def dashItems : Nat → Read (List Node)
  | 0 => failure
  | n + 1 => do
      if ← skipIf .dash then
        let item ← readUnless n [.dash, .key, .value, .blockEnd] true false
        return item :: (← dashItems n)
      else return []

def blockEntries : Nat → Read (List (Node × Node))
  | 0 => failure
  | n + 1 => do
      if ← skipIf .blockEnd then return []
      else
        expect .key
        let stops := [Token.key, .value, .blockEnd]
        let k ← readUnless n stops true true
        let v ← if ← skipIf .value then readUnless n stops true true else pure absent
        return (k, v) :: (← blockEntries n)

def flowItems : Nat → (first : Bool) → Read (List Node)
  | 0, _ => failure
  | n + 1, first => do
      if ← skipIf .closeSequence then return []
      else
        if !first then expect .comma
        if ← skipIf .closeSequence then return []
        else
          let item ← flowItem n
          return item :: (← flowItems n false)

def flowItem : Nat → Read Node
  | 0 => failure
  | n + 1 => do
      if ← skipIf .key then
        let stops := [Token.value, .comma, .closeSequence]
        let k ← if ← nextIn stops then advance *> pure absent else read n false false
        let v ←
          if ← skipIf .value then readUnless n [.comma, .closeSequence] false false else pure absent
        return .mapping [(k, v)]
      else read n false false

def flowEntries : Nat → (first : Bool) → Read (List (Node × Node))
  | 0, _ => failure
  | n + 1, first => do
      if ← skipIf .closeMapping then return []
      else
        if !first then expect .comma
        if ← skipIf .closeMapping then return []
        else
          let entry ← flowEntry n
          return entry :: (← flowEntries n false)

def flowEntry : Nat → Read (Node × Node)
  | 0 => failure
  | n + 1 => do
      if ← skipIf .key then
        let k ← readUnless n [.value, .comma, .closeMapping] false false
        let v ←
          if ← skipIf .value then readUnless n [.comma, .closeMapping] false false else pure absent
        return (k, v)
      else return (← read n false false, absent)

end

def endMarks (ts : List Token) : List Token := ts.dropWhile (· == .documentEnd)

def body (ts : List Token) : Read Node := do
  let fuel := 4 * ts.length + 4
  if ← skipIf .documentStart then
    match ← next? with
    | none | some (.directive _) | some .documentStart | some .documentEnd => return absent
    | some _ => read fuel true false
  else read fuel true false

def directive? : Token → Option Directive
  | .directive d => some d
  | _ => none

def ofTokens? (ts : List Token) : Option Content := do
  if ts.isEmpty then return ⟨absent, []⟩
  let directives := (ts.map directive?).takeWhile Option.isSome
  let ts := ts.drop directives.length
  if !directives.isEmpty && ts.head? != some .documentStart then none
  let handles ← Handles.ofDirectives? directives.reduceOption
  let (root, rest) ← ((body ts).run handles).run ⟨[], 0, [], ts⟩
  if (endMarks rest.tokens).isEmpty then return ⟨root, rest.anchored⟩ else none

def parse? (text : String) : Option Content := do ofTokens? (← tokens? text)

end Node

end SchemaGraph.Yaml
