import SchemaGraph.Schema.Snapshot

namespace SchemaGraph

namespace Lineage

def unseen (l : Lineage) (seen : List NamedType) : Nat :=
  (l.types.filter fun t => !seen.any (·.name == t.name)).length

theorem unseen_append_lt {l : Lineage} {seen : List NamedType} {t : NamedType} (ht : t ∈ l.types)
    (hs : (seen.any (·.name == t.name)) = false) : l.unseen (seen ++ [t]) < l.unseen seen := by
  unfold unseen
  have hsplit : (l.types.filter fun x => !(seen ++ [t]).any (·.name == x.name)) =
      (l.types.filter fun x => !seen.any (·.name == x.name)).filter fun x => !(t.name == x.name) := by
    rw [List.filter_filter]
    congr 1
    funext x
    simp [Bool.and_comm]
  rw [hsplit]
  have hmem : t ∈ l.types.filter fun x => !seen.any (·.name == x.name) := by
    simpa [List.mem_filter, ht] using hs
  exact List.length_filter_lt_length_iff_exists.mpr ⟨t, hmem, by simp⟩

def walk (l : Lineage) (seen : List NamedType) (pending : List Ref) : List NamedType :=
  match pending with
  | [] => seen
  | r :: rest =>
      match ht : l.resolve? r with
      | none => l.walk seen rest
      | some t =>
          if hs : seen.any (·.name == t.name) then l.walk seen rest
          else
            have := unseen_append_lt (mem_types_of_resolve? ht) (by simpa using hs)
            l.walk (seen ++ [t]) (t.refs ++ rest)
termination_by (l.unseen seen, pending.length)

end Lineage

structure Schema where
  snapshot : Snapshot
  typeMap : List NamedType
  deriving Repr

namespace Snapshot

def seeds (s : Snapshot) : List Ref :=
  s.registry.names.map (fun n => ⟨n, .generation s.generation⟩) ++
    s.directives.flatMap (fun d => d.arguments.map (·.type.leaf)) ++
    Builtin.introspectionNames.map (fun n => ⟨n, .builtin⟩)

def toSchema (s : Snapshot) : Schema := ⟨s, s.lineage.walk [] s.seeds⟩

end Snapshot

namespace Schema

def type? (s : Schema) (name : String) : Option NamedType :=
  Keyed.get? NamedType.name name s.typeMap

def directive? (s : Schema) (name : String) : Option Directive :=
  Keyed.get? Directive.name name s.snapshot.directives

end Schema

end SchemaGraph
