import Mathlib.Logic.Function.Iterate
import Mathlib.Order.Bounds.Defs
import SchemaGraph.Proofs.Carry
import SchemaGraph.Proofs.Reach

namespace SchemaGraph

namespace Lineage

variable (l : Lineage)

def step : List NamedType × List Ref → List NamedType × List Ref
  | (seen, []) => (seen, [])
  | (seen, r :: rest) =>
      match l.resolve? r with
      | none => (seen, rest)
      | some t =>
          if seen.any (·.name == t.name) then (seen, rest) else (seen ++ [t], t.refs ++ rest)

theorem step_skip {seen : List NamedType} {r : Ref}
    (h : ∀ t, l.resolve? r = some t → t.name ∈ seen.map NamedType.name) (rest : List Ref) :
    l.step (seen, r :: rest) = (seen, rest) := by
  unfold step
  dsimp only
  cases ht : l.resolve? r with
  | none => rfl
  | some t => exact if_pos (any_name_iff.mpr (h t ht))

theorem step_visit {seen : List NamedType} {r : Ref} {t : NamedType} (ht : l.resolve? r = some t)
    (hn : t.name ∉ seen.map NamedType.name) (rest : List Ref) :
    l.step (seen, r :: rest) = (seen ++ [t], t.refs ++ rest) := by
  unfold step
  simp only [ht]
  exact if_neg fun h => hn (any_name_iff.mp h)

theorem step_iterate (seen : List NamedType) (pending : List Ref) :
    ∃ found, l.walk seen pending = seen ++ found ∧
      l.step^[pending.length + (found.flatMap NamedType.refs).length] (seen, pending) =
        (l.walk seen pending, []) := by
  induction seen, pending using l.walk_induction with
  | nil seen => exact ⟨[], by rw [walk_nil, List.append_nil], by rw [walk_nil]; rfl⟩
  | skip seen r rest hr ih =>
      obtain ⟨found, hfound, hsteps⟩ := ih
      rw [l.walk_skip hr]
      refine ⟨found, hfound, ?_⟩
      rw [List.length_cons, Nat.add_right_comm, Function.iterate_succ_apply, l.step_skip hr, hsteps]
  | visit seen r rest t ht hn ih =>
      obtain ⟨found, hfound, hsteps⟩ := ih
      rw [l.walk_visit ht hn]
      refine ⟨t :: found, by rw [hfound, List.append_assoc, List.singleton_append], ?_⟩
      have hcount : (r :: rest).length + ((t :: found).flatMap NamedType.refs).length =
          (t.refs ++ rest).length + (found.flatMap NamedType.refs).length + 1 := by
        simp only [List.length_cons, List.flatMap_cons, List.length_append]
        omega
      rw [hcount, Function.iterate_succ_apply, l.step_visit ht hn, hsteps]

end Lineage

namespace Snapshot

variable {s : Snapshot}

theorem step_iterate_seeds (s : Snapshot) :
    s.lineage.step^[s.seeds.length + (s.toSchema.typeMap.flatMap NamedType.refs).length]
      ([], s.seeds) = (s.toSchema.typeMap, []) := by
  obtain ⟨found, hfound, hsteps⟩ := s.lineage.step_iterate [] s.seeds
  rw [List.nil_append] at hfound
  rw [← hfound] at hsteps
  exact hsteps

structure Encloses (s : Snapshot) (names : Set String) : Prop where
  declared : ∀ n ∈ s.registry.names, n ∈ names
  arguments : ∀ d ∈ s.directives, ∀ a ∈ d.arguments, a.type.leaf.name ∈ names
  introspection : ∀ n ∈ Builtin.introspectionNames, n ∈ names
  refs : ∀ n ∈ names, ∀ t, s.registry.lookup n = some t → ∀ r ∈ t.refs, r.name ∈ names

theorem encloses_reached (s : Snapshot) : s.Encloses {n | s.Reaches n} where
  declared n hn := by
    have hseed : (⟨n, .generation s.generation⟩ : Ref) ∈ s.seeds :=
      List.mem_append_left _ (List.mem_append_left _ (List.mem_map_of_mem hn))
    exact .seed hseed
  arguments d hd a ha := by
    have hseed : a.type.leaf ∈ s.seeds := by
      refine List.mem_append_left _ (List.mem_append_right _ ?_)
      exact List.mem_flatMap.mpr ⟨d, hd, List.mem_map_of_mem ha⟩
    exact .seed hseed
  introspection n hn := by
    have hseed : (⟨n, .builtin⟩ : Ref) ∈ s.seeds :=
      List.mem_append_right _ (List.mem_map_of_mem hn)
    exact .seed hseed
  refs _ hn _ ht _ hr := .ref hn ht hr

theorem Encloses.mem_of_seed {names : Set String} (h : s.Encloses names) {r : Ref}
    (hr : r ∈ s.seeds) : r.name ∈ names := by
  rcases List.mem_append.mp hr with hm | hm
  · rcases List.mem_append.mp hm with hm | hm
    · obtain ⟨n, hn, rfl⟩ := List.mem_map.mp hm
      exact h.declared n hn
    · obtain ⟨d, hd, hm⟩ := List.mem_flatMap.mp hm
      obtain ⟨a, ha, rfl⟩ := List.mem_map.mp hm
      exact h.arguments d hd a ha
  · obtain ⟨n, hn, rfl⟩ := List.mem_map.mp hm
    exact h.introspection n hn

theorem Encloses.mem_of_reaches {names : Set String} (h : s.Encloses names) {n : String}
    (hn : s.Reaches n) : n ∈ names := by
  induction hn with
  | seed hr => exact h.mem_of_seed hr
  | ref _ ht hr ih => exact h.refs _ ih _ ht _ hr

theorem isLeast_reached (s : Snapshot) : IsLeast {names | s.Encloses names} {n | s.Reaches n} :=
  ⟨s.encloses_reached, fun _ h _ hn => h.mem_of_reaches hn⟩

end Snapshot

namespace Schema

variable {S : Schema}

theorem typeMap_isLeast (hS : S.Reachable) :
    S.snapshot.lineage.step^[S.snapshot.seeds.length + (S.typeMap.flatMap NamedType.refs).length]
      ([], S.snapshot.seeds) = (S.typeMap, []) ∧
    (S.typeMap.map NamedType.name).Nodup ∧
    IsLeast {names | S.snapshot.Encloses names} {n | n ∈ S.typeMap.map NamedType.name} ∧
    ∀ t ∈ S.typeMap, S.type? t.name = some t ∧ S.snapshot.registry.lookup t.name = some t := by
  have hsound := hS.sound
  rw [hS.eq_toSchema]
  have hnodup := S.snapshot.nodup_names_typeMap
  have hnames : {n | n ∈ S.snapshot.toSchema.typeMap.map NamedType.name} =
      {n | S.snapshot.Reaches n} := Set.ext fun _ => hsound.mem_names_typeMap_iff
  refine ⟨S.snapshot.step_iterate_seeds, hnodup, ?_, fun t ht => ?_⟩
  · rw [hnames]
    exact S.snapshot.isLeast_reached
  · exact ⟨Keyed.get?_of_nodup _ hnodup ht, hsound.lookup_of_mem_typeMap t ht⟩

end Schema

namespace Pets

theorem longhaired_typeMap : longhaired.Reachable ∧
    IsLeast {names | longhaired.snapshot.Encloses names} {n | n ∈ longhaired.typeMap.map NamedType.name} ∧
    (longhaired.type? "Coat").map tagsOf = some ["SHORT", "LONG"] := by
  obtain ⟨-, -, hleast, hentries⟩ := Schema.typeMap_isLeast reachable_longhaired
  refine ⟨reachable_longhaired, hleast, ?_⟩
  obtain ⟨t, ht, hname⟩ := List.mem_map.mp (hleast.1.declared "Coat" (by decide +kernel))
  obtain ⟨htype, hlookup⟩ := hentries t ht
  rw [← hname, htype, ← hlookup, hname]
  decide +kernel

end Pets

end SchemaGraph
