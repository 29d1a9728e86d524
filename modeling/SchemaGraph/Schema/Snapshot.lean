import SchemaGraph.Schema.Lineage

namespace SchemaGraph

structure Options where
  assumeValid : Bool
  assumeValidSdl : Bool
  deriving DecidableEq, Repr

namespace Options

def default : Options := ⟨false, false⟩

def checks (o : Options) : Bool := !o.assumeValid && !o.assumeValidSdl

end Options

structure Roots where
  query : Option Ref
  mutation : Option Ref
  subscription : Option Ref
  deriving DecidableEq, Repr

namespace Roots

def empty : Roots := ⟨none, none, none⟩

def get (r : Roots) : Operation → Option Ref
  | .query => r.query
  | .mutation => r.mutation
  | .subscription => r.subscription

def set (r : Roots) (root : Option Ref) : Operation → Roots
  | .query => { r with query := root }
  | .mutation => { r with mutation := root }
  | .subscription => { r with subscription := root }

def isEmpty (r : Roots) : Bool := Operation.all.all fun o => (r.get o).isNone

end Roots

structure Snapshot where
  description : Option String
  roots : Roots
  lineage : Lineage
  generation : Nat
  directives : List Directive
  remarks : List String
  node : Option SchemaDef
  extensions : List SchemaDef
  assumeValid : Bool
  deriving Repr

namespace Snapshot

def empty : Snapshot :=
  ⟨none, .empty, ⟨[.empty]⟩, 0, [], [], none, [], false⟩

def registry (s : Snapshot) : Registry := (s.lineage.registries[s.generation]?).getD .empty

def scope (s : Snapshot) : Scope := ⟨s.registry.names, .generation s.generation⟩

def alone (s : Snapshot) : Snapshot := { s with lineage := s.lineage.only s.generation }

def shift (s : Snapshot) (i : Nat) : Home := .generation (s.lineage.registries.length + i)

def joinLineage (s other : Snapshot) : Lineage :=
  ⟨s.lineage.registries ++
    other.lineage.registries.map fun r => ⟨r.types.map (NamedType.mapHome s.shift)⟩⟩

def graftRoot (s other : Snapshot) (operation : Operation) : Snapshot :=
  { s with
    lineage := s.joinLineage other
    roots := s.roots.set ((other.roots.get operation).map (Ref.mapHome s.shift)) operation }

def graftDirectives (s other : Snapshot) : Snapshot :=
  { s with
    lineage := s.joinLineage other
    directives := other.directives.map (Directive.mapHome s.shift) }

def addRemarks (s : Snapshot) (keys : List String) : Snapshot :=
  { s with remarks := Keyed.lastWriteWins id s.remarks keys }

end Snapshot

end SchemaGraph
