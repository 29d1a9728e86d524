import SchemaGraph.Builtin.Types

namespace SchemaGraph

structure Registry where
  types : List NamedType
  deriving Repr

namespace Registry

def empty : Registry := ⟨[]⟩

def get? (r : Registry) (name : String) : Option NamedType := Keyed.get? NamedType.name name r.types

def names (r : Registry) : List String := r.types.map NamedType.name

def lookup (r : Registry) (name : String) : Option NamedType :=
  (Builtin.type? name).or (r.get? name)

end Registry

structure Lineage where
  registries : List Registry
  deriving Repr

namespace Lineage

def empty : Lineage := ⟨[]⟩

def resolve? (l : Lineage) (r : Ref) : Option NamedType :=
  match r.home with
  | .builtin => Builtin.type? r.name
  | .generation i => l.registries[i]?.bind (·.get? r.name)

def only (l : Lineage) (i : Nat) : Lineage :=
  ⟨l.registries.mapIdx fun j r => if j = i then r else .empty⟩

theorem resolve?_only (l : Lineage) (i : Nat) (r : Ref) :
    (l.only i).resolve? r =
      if r.home = .builtin ∨ r.home = .generation i then l.resolve? r else none := by
  unfold resolve? only
  cases h : r.home with
  | builtin => simp only [true_or, if_true]
  | generation j =>
      by_cases hj : j = i
      · subst hj
        simp only [List.getElem?_mapIdx, if_true, or_true, Option.map_id']
      · cases hg : l.registries[j]? <;>
          simp [List.getElem?_mapIdx, hg, hj, Registry.get?, Registry.empty, Keyed.get?]

def types (l : Lineage) : List NamedType := Builtin.types ++ l.registries.flatMap Registry.types

theorem name_of_resolve? {l : Lineage} {r : Ref} {t : NamedType} (h : l.resolve? r = some t) :
    t.name = r.name := by
  unfold resolve? at h
  split at h
  · exact Keyed.key_of_get? _ h
  · obtain ⟨_, _, h⟩ := Option.bind_eq_some_iff.mp h
    exact Keyed.key_of_get? _ h

theorem mem_types_of_resolve? {l : Lineage} {r : Ref} {t : NamedType}
    (h : l.resolve? r = some t) : t ∈ l.types := by
  unfold resolve? at h
  split at h
  · exact List.mem_append_left _ (Keyed.mem_of_get? _ h)
  · obtain ⟨g, hg, h⟩ := Option.bind_eq_some_iff.mp h
    exact List.mem_append_right _
      (List.mem_flatMap.mpr ⟨g, List.mem_of_getElem? hg, Keyed.mem_of_get? _ h⟩)

end Lineage

end SchemaGraph
