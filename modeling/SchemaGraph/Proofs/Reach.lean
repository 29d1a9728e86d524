import SchemaGraph.Proofs.TypeMap

namespace SchemaGraph

namespace Lineage

def Follows (l : Lineage) (seen : List NamedType) (pending : List Ref) : Prop :=
  ∀ t ∈ seen, ∀ r ∈ t.refs, ∀ u, l.resolve? r = some u →
    u.name ∈ seen.map NamedType.name ∨ r ∈ pending

variable {l : Lineage} {seen : List NamedType} {r : Ref} {rest : List Ref}

theorem Follows.skip (h : l.Follows seen (r :: rest))
    (hr : ∀ t, l.resolve? r = some t → t.name ∈ seen.map NamedType.name) : l.Follows seen rest := by
  intro t ht q hq u hu
  rcases h t ht q hq u hu with hs | hm
  · exact Or.inl hs
  · rcases List.mem_cons.mp hm with rfl | hm
    · exact Or.inl (hr u hu)
    · exact Or.inr hm

theorem Follows.visit (h : l.Follows seen (r :: rest)) {t : NamedType} (ht : l.resolve? r = some t) :
    l.Follows (seen ++ [t]) (t.refs ++ rest) := by
  intro v hv q hq u hu
  rw [List.map_append, List.mem_append]
  rcases List.mem_append.mp hv with hs | hs
  · rcases h v hs q hq u hu with hn | hm
    · exact Or.inl (Or.inl hn)
    · rcases List.mem_cons.mp hm with rfl | hm
      · obtain rfl : t = u := Option.some.inj (ht.symm.trans hu)
        exact Or.inl (Or.inr (List.mem_map_of_mem List.mem_cons_self))
      · exact Or.inr (List.mem_append_right _ hm)
  · obtain rfl := List.mem_singleton.mp hs
    exact Or.inr (List.mem_append_left _ hq)

theorem Follows.walk {pending : List Ref} (h : l.Follows seen pending) :
    l.Follows (l.walk seen pending) [] := by
  induction seen, pending using l.walk_induction with
  | nil seen =>
      rw [walk_nil]
      exact h
  | skip seen r rest hr ih =>
      rw [l.walk_skip hr]
      exact ih (h.skip hr)
  | visit seen r rest t ht hn ih =>
      rw [l.walk_visit ht hn]
      exact ih (h.visit ht)

end Lineage

namespace Snapshot

variable {s s' : Snapshot} {n : String} {t : NamedType}

inductive Reaches (s : Snapshot) : String → Prop
  | seed {r : Ref} : r ∈ s.seeds → Reaches s r.name
  | ref {n : String} {t : NamedType} {r : Ref} :
      Reaches s n → s.registry.lookup n = some t → r ∈ t.refs → Reaches s r.name

theorem Reaches.imp (hseeds : s.seeds ⊆ s'.seeds)
    (hl : ∀ n, s.registry.lookup n = s'.registry.lookup n) (h : s.Reaches n) : s'.Reaches n := by
  induction h with
  | seed hr => exact .seed (hseeds hr)
  | ref _ ht hr ih => exact .ref ih ((hl _).symm.trans ht) hr

theorem Reaches.of_lookup (h : s.Reaches t.name) (hl : s.registry.lookup t.name = some t) :
    ∀ r ∈ t.refs, s.Reaches r.name :=
  fun _ hr => .ref h hl hr

theorem reaches_of_mem_walk {seen : List NamedType} {pending : List Ref}
    (hl : ∀ t ∈ s.lineage.walk seen pending, s.registry.lookup t.name = some t)
    (hseen : ∀ t ∈ seen, s.Reaches t.name) (hp : ∀ r ∈ pending, s.Reaches r.name) :
    ∀ t ∈ s.lineage.walk seen pending, s.Reaches t.name := by
  induction seen, pending using s.lineage.walk_induction with
  | nil seen =>
      rw [Lineage.walk_nil]
      exact hseen
  | skip seen r rest hr ih =>
      rw [Lineage.walk_skip _ hr] at hl ⊢
      exact ih hl hseen fun q hq => hp q (List.mem_cons_of_mem _ hq)
  | visit seen r rest t ht hn ih =>
      rw [Lineage.walk_visit _ ht hn] at hl ⊢
      have ht' : s.Reaches t.name := Lineage.name_of_resolve? ht ▸ hp r List.mem_cons_self
      -- the type is part of the result, and so what the registry gives for its name
      have hlt := hl t (s.lineage.subset_walk _ _ (List.mem_append_right _ List.mem_cons_self))
      refine ih hl ?_ ?_
      · exact List.forall_mem_append.mpr ⟨hseen, List.forall_mem_singleton.mpr ht'⟩
      · exact List.forall_mem_append.mpr
          ⟨ht'.of_lookup hlt, fun q hq => hp q (List.mem_cons_of_mem _ hq)⟩

theorem Sound.name_mem_typeMap_of_gives (hs : s.Sound) (ht : t ∈ s.toSchema.typeMap) {r : Ref}
    (hr : r ∈ t.refs) : r.name ∈ s.toSchema.typeMap.map NamedType.name := by
  have hl := hs.lookup_of_mem_typeMap t ht
  obtain ⟨u, hu, -⟩ := (hs.owns (hs.gives_of_lookup hl r hr)).target
  have hempty : s.lineage.Follows [] s.seeds := nofun
  have hclosed : s.lineage.Follows s.toSchema.typeMap [] := hempty.walk
  rw [← Lineage.name_of_resolve? hu]
  exact (hclosed t ht r hr u hu).resolve_right List.not_mem_nil

theorem Sound.name_mem_typeMap_of_seed (hs : s.Sound) {r : Ref} (hr : r ∈ s.seeds) :
    r.name ∈ s.toSchema.typeMap.map NamedType.name := by
  have hbuiltin {q : Ref} (hq : q ∈ s.seeds) (hb : Builtin.isBuiltin q.name = true)
      (hh : q.home = .builtin) : q.name ∈ s.toSchema.typeMap.map NamedType.name := by
    obtain ⟨t, ht⟩ := Builtin.exists_type? hb
    rw [← Builtin.name_of_type? ht]
    exact s.lineage.name_mem_walk hq (by rw [Lineage.resolve?, hh, ht])
  rcases List.mem_append.mp hr with hm | hm
  · rcases List.mem_append.mp hm with hm | hm
    · obtain ⟨n, hn, rfl⟩ := List.mem_map.mp hm
      exact hs.name_mem_typeMap hn
    · obtain ⟨d, hd, hm⟩ := List.mem_flatMap.mp hm
      obtain ⟨a, ha, rfl⟩ := List.mem_map.mp hm
      rcases hs.directives d hd a ha with ⟨hb, hh⟩ | hn
      · exact hbuiltin hr hb hh
      · exact hs.name_mem_typeMap hn
  · obtain ⟨n, hn, rfl⟩ := List.mem_map.mp hm
    exact hbuiltin hr (Builtin.isBuiltin_of_introspection hn) rfl

theorem Sound.mem_names_typeMap_iff (hs : s.Sound) :
    n ∈ s.toSchema.typeMap.map NamedType.name ↔ s.Reaches n := by
  constructor
  · intro h
    obtain ⟨t, ht, rfl⟩ := List.mem_map.mp h
    exact reaches_of_mem_walk hs.lookup_of_mem_typeMap nofun (fun _ hr => .seed hr) t ht
  · intro h
    induction h with
    | seed hr => exact hs.name_mem_typeMap_of_seed hr
    | ref _ ht hr ih =>
        obtain ⟨u, hu, hname⟩ := List.mem_map.mp ih
        have hl := hs.lookup_of_mem_typeMap u hu
        rw [hname, ht] at hl
        obtain rfl := Option.some.inj hl
        exact hs.name_mem_typeMap_of_gives hu hr

theorem nodup_names_typeMap (s : Snapshot) : (s.toSchema.typeMap.map NamedType.name).Nodup :=
  s.lineage.nodup_walk List.nodup_nil

theorem Sound.type?_eq_some_iff (hs : s.Sound) :
    s.toSchema.type? n = some t ↔ s.Reaches n ∧ s.registry.lookup n = some t := by
  rw [← hs.mem_names_typeMap_iff]
  constructor
  · intro h
    obtain rfl : t.name = n := Keyed.key_of_get? NamedType.name h
    have ht := Keyed.mem_of_get? NamedType.name h
    exact ⟨List.mem_map_of_mem ht, hs.lookup_of_mem_typeMap t ht⟩
  · rintro ⟨hn, hl⟩
    obtain ⟨u, hu⟩ := Keyed.exists_get?_of_mem_keys NamedType.name hn
    have hlu := hs.lookup_of_mem_typeMap u (Keyed.mem_of_get? _ hu)
    rw [Keyed.key_of_get? NamedType.name hu, hl] at hlu
    exact hlu ▸ hu

end Snapshot

end SchemaGraph
