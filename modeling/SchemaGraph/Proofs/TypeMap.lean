import SchemaGraph.Proofs.History

namespace SchemaGraph

namespace Lineage

variable (l : Lineage)

@[simp] theorem walk_nil (seen : List NamedType) : l.walk seen [] = seen := by
  rw [walk]

theorem any_name_iff {seen : List NamedType} {n : String} :
    (seen.any (·.name == n)) = true ↔ n ∈ seen.map NamedType.name := by
  simp [List.any_eq_true]

theorem walk_skip {seen : List NamedType} {r : Ref}
    (h : ∀ t, l.resolve? r = some t → t.name ∈ seen.map NamedType.name) (rest : List Ref) :
    l.walk seen (r :: rest) = l.walk seen rest := by
  rw [walk]
  split
  · rfl
  · rename_i t ht
    rw [dif_pos (any_name_iff.mpr (h t ht))]

theorem walk_visit {seen : List NamedType} {r : Ref} {t : NamedType} (ht : l.resolve? r = some t)
    (hn : t.name ∉ seen.map NamedType.name) (rest : List Ref) :
    l.walk seen (r :: rest) = l.walk (seen ++ [t]) (t.refs ++ rest) := by
  rw [walk]
  split
  · rename_i hnone
    exact absurd (ht.symm.trans hnone) (Option.some_ne_none t)
  · rename_i u hu
    obtain rfl : t = u := Option.some.inj (ht.symm.trans hu)
    rw [dif_neg fun ha => hn (any_name_iff.mp ha)]

theorem walk_induction {motive : List NamedType → List Ref → Prop}
    (nil : ∀ seen, motive seen [])
    (skip : ∀ seen r rest, (∀ t, l.resolve? r = some t → t.name ∈ seen.map NamedType.name) →
      motive seen rest → motive seen (r :: rest))
    (visit : ∀ seen r rest t, l.resolve? r = some t → t.name ∉ seen.map NamedType.name →
      motive (seen ++ [t]) (t.refs ++ rest) → motive seen (r :: rest))
    (seen : List NamedType) (pending : List Ref) : motive seen pending := by
  induction seen, pending using walk.induct l with
  | case1 seen => exact nil seen
  | case2 seen r rest hr ih =>
      refine skip seen r rest ?_ ih
      rw [hr]
      exact nofun
  | case3 seen r rest t ht hs ih =>
      refine skip seen r rest ?_ ih
      intro u hu
      obtain rfl : t = u := Option.some.inj (ht.symm.trans hu)
      exact any_name_iff.mp hs
  | case4 seen r rest t ht hs _ ih =>
      exact visit seen r rest t ht (fun hn => hs (any_name_iff.mpr hn)) ih

theorem walk_append (seen : List NamedType) (p q : List Ref) :
    l.walk seen (p ++ q) = l.walk (l.walk seen p) q := by
  induction seen, p using l.walk_induction with
  | nil seen => rw [walk_nil, List.nil_append]
  | skip seen r rest hr ih => rw [List.cons_append, l.walk_skip hr, l.walk_skip hr, ih]
  | visit seen r rest t ht hn ih =>
      rw [List.cons_append, l.walk_visit ht hn, l.walk_visit ht hn, ← List.append_assoc, ih]

theorem subset_walk (seen : List NamedType) (p : List Ref) : seen ⊆ l.walk seen p := by
  induction seen, p using l.walk_induction with
  | nil seen =>
      rw [walk_nil]
      exact List.Subset.refl _
  | skip seen r rest hr ih =>
      rw [l.walk_skip hr]
      exact ih
  | visit seen r rest t ht hn ih =>
      rw [l.walk_visit ht hn]
      exact List.Subset.trans (List.subset_append_left seen [t]) ih

theorem name_mem_walk {seen : List NamedType} {p : List Ref} {r : Ref} {t : NamedType} (hr : r ∈ p)
    (ht : l.resolve? r = some t) : t.name ∈ (l.walk seen p).map NamedType.name := by
  induction seen, p using l.walk_induction with
  | nil seen => exact absurd hr List.not_mem_nil
  | skip seen q rest hq ih =>
      rw [l.walk_skip hq]
      rcases List.mem_cons.mp hr with rfl | hm
      · exact List.map_subset _ (l.subset_walk seen rest) (hq t ht)
      · exact ih hm
  | visit seen q rest u hu hn ih =>
      rw [l.walk_visit hu hn]
      rcases List.mem_cons.mp hr with rfl | hm
      · obtain rfl : t = u := Option.some.inj (ht.symm.trans hu)
        refine List.map_subset _ (l.subset_walk _ _) ?_
        exact List.mem_map_of_mem (List.mem_append_right _ List.mem_cons_self)
      · exact ih (List.mem_append_right _ hm)

theorem nodup_walk {seen : List NamedType} {p : List Ref} (hs : (seen.map NamedType.name).Nodup) :
    ((l.walk seen p).map NamedType.name).Nodup := by
  induction seen, p using l.walk_induction with
  | nil seen =>
      rw [walk_nil]
      exact hs
  | skip seen r rest hr ih =>
      rw [l.walk_skip hr]
      exact ih hs
  | visit seen r rest t ht hn ih =>
      rw [l.walk_visit ht hn]
      refine ih ?_
      rw [List.map_append, List.map_singleton]
      exact List.nodup_append.mpr ⟨hs, List.nodup_singleton _, fun a ha b hb he =>
        hn (List.mem_singleton.mp hb ▸ he ▸ ha)⟩

end Lineage

theorem Registry.name_of_lookup {r : Registry} {n : String} {t : NamedType}
    (h : r.lookup n = some t) : t.name = n := by
  rcases Option.or_eq_some_iff.mp h with hb | ⟨-, hg⟩
  · exact Builtin.name_of_type? hb
  · exact Keyed.key_of_get? _ hg

namespace Snapshot

def Settled (s : Snapshot) (seen : List NamedType) (r : Ref) : Prop :=
  r.name ∈ seen.map NamedType.name ∨ s.lineage.resolve? r = s.registry.lookup r.name

variable {s : Snapshot}

theorem Settled.mono {seen : List NamedType} {r : Ref} (h : s.Settled seen r)
    (more : List NamedType) : s.Settled (seen ++ more) r := by
  refine h.imp (fun hn => ?_) id
  rw [List.map_append]
  exact List.mem_append_left _ hn

theorem Sound.resolve?_of_gives (hs : s.Sound) {r : Ref} (hr : s.scope.Gives r) :
    s.lineage.resolve? r = s.registry.lookup r.name := by
  obtain ⟨t, ht, -, hl, -⟩ := (hs.owns hr).target
  rw [ht, hl]

theorem Sound.gives_of_lookup (hs : s.Sound) {n : String} {t : NamedType}
    (h : s.registry.lookup n = some t) : ∀ r ∈ t.refs, s.scope.Gives r := by
  rcases Option.or_eq_some_iff.mp h with hb | ⟨-, hg⟩
  · rw [← Builtin.name_of_type? hb] at hb
    exact (NamedType.Entry.builtin hb).refs
  · exact (hs.entries t (Keyed.mem_of_get? _ hg)).refs

theorem Sound.settled_refs (hs : s.Sound) {n : String} {t : NamedType}
    (h : s.registry.lookup n = some t) (seen : List NamedType) : ∀ r ∈ t.refs, s.Settled seen r :=
  fun r hr => Or.inr (hs.resolve?_of_gives (hs.gives_of_lookup h r hr))

theorem Sound.settled_visit (hs : s.Sound) {n : String} {t : NamedType}
    (h : s.registry.lookup n = some t) {seen : List NamedType} {r : Ref} {rest : List Ref}
    (hp : ∀ q ∈ r :: rest, s.Settled seen q) : ∀ q ∈ t.refs ++ rest, s.Settled (seen ++ [t]) q := by
  intro q hq
  rcases List.mem_append.mp hq with hm | hm
  · exact hs.settled_refs h _ q hm
  · exact (hp q (List.mem_cons_of_mem _ hm)).mono [t]

theorem Settled.resolve? {seen : List NamedType} {r : Ref} (h : s.Settled seen r)
    (hn : r.name ∉ seen.map NamedType.name) : s.lineage.resolve? r = s.registry.lookup r.name :=
  h.resolve_left hn

theorem Sound.lookup_of_mem_walk (hs : s.Sound) {seen : List NamedType} {p : List Ref}
    (hseen : ∀ t ∈ seen, s.registry.lookup t.name = some t) (hp : ∀ r ∈ p, s.Settled seen r) :
    ∀ t ∈ s.lineage.walk seen p, s.registry.lookup t.name = some t := by
  induction seen, p using s.lineage.walk_induction with
  | nil seen =>
      rw [Lineage.walk_nil]
      exact hseen
  | skip seen r rest hr ih =>
      rw [Lineage.walk_skip _ hr]
      exact ih hseen fun q hq => hp q (List.mem_cons_of_mem _ hq)
  | visit seen r rest t ht hn ih =>
      rw [Lineage.walk_visit _ ht hn]
      have hname := Lineage.name_of_resolve? ht
      have hl : s.registry.lookup t.name = some t := by
        rw [hname, ← (hp r List.mem_cons_self).resolve? (hname ▸ hn), ht]
      refine ih ?_ (hs.settled_visit hl hp)
      intro u hu
      rcases List.mem_append.mp hu with hm | hm
      · exact hseen u hm
      · obtain rfl := List.mem_singleton.mp hm
        exact hl

def ownSeeds (s : Snapshot) : List Ref :=
  s.registry.names.map fun n => ⟨n, .generation s.generation⟩

def otherSeeds (s : Snapshot) : List Ref :=
  s.directives.flatMap (fun d => d.arguments.map (·.type.leaf)) ++
    Builtin.introspectionNames.map fun n => ⟨n, .builtin⟩

theorem typeMap_toSchema (s : Snapshot) :
    s.toSchema.typeMap = s.lineage.walk (s.lineage.walk [] s.ownSeeds) s.otherSeeds := by
  rw [← Lineage.walk_append, toSchema, seeds, ownSeeds, otherSeeds, List.append_assoc]

theorem Sound.lookup_of_mem_names (hs : s.Sound) {n : String} (hn : n ∈ s.registry.names) :
    ∃ t, s.registry.get? n = some t ∧ s.registry.lookup n = some t := by
  obtain ⟨t, ht⟩ := Keyed.exists_get?_of_mem_keys NamedType.name hn
  refine ⟨t, ht, ?_⟩
  have hname : t.name = n := Keyed.key_of_get? _ ht
  by_cases hb : Builtin.isBuiltin n = true
  · have h := hs.builtin_entry (Keyed.mem_of_get? _ ht) (hname.symm ▸ hb)
    rw [Registry.lookup, ← hname, h, Option.some_or]
  · rw [Registry.lookup, Builtin.type?_eq_none_iff.mpr (by simpa using hb), Option.none_or]
    exact ht

theorem Sound.settled_ownSeeds (hs : s.Sound) : ∀ r ∈ s.ownSeeds, s.Settled [] r := by
  intro r hr
  obtain ⟨n, hn, rfl⟩ := List.mem_map.mp hr
  obtain ⟨t, hg, hl⟩ := hs.lookup_of_mem_names hn
  exact Or.inr ((hs.resolve?_generation n).trans (hg.trans hl.symm))

theorem Sound.name_mem_walk_ownSeeds (hs : s.Sound) {n : String} (hn : n ∈ s.registry.names) :
    n ∈ (s.lineage.walk [] s.ownSeeds).map NamedType.name := by
  obtain ⟨t, hg, -⟩ := hs.lookup_of_mem_names hn
  rw [← show t.name = n from Keyed.key_of_get? _ hg]
  exact s.lineage.name_mem_walk (List.mem_map_of_mem hn) ((hs.resolve?_generation n).trans hg)

theorem settled_of_builtin {r : Ref} (hb : Builtin.isBuiltin r.name = true)
    (hh : r.home = .builtin) (seen : List NamedType) : s.Settled seen r := by
  obtain ⟨t, ht⟩ := Builtin.exists_type? hb
  refine Or.inr ?_
  rw [Lineage.resolve?, hh, Registry.lookup, ht, Option.some_or]

theorem Sound.settled_otherSeeds (hs : s.Sound) :
    ∀ r ∈ s.otherSeeds, s.Settled (s.lineage.walk [] s.ownSeeds) r := by
  intro r hr
  rcases List.mem_append.mp hr with hm | hm
  · obtain ⟨d, hd, hm⟩ := List.mem_flatMap.mp hm
    obtain ⟨a, ha, rfl⟩ := List.mem_map.mp hm
    rcases hs.directives d hd a ha with ⟨hb, hh⟩ | hn
    · exact settled_of_builtin hb hh _
    · exact Or.inl (hs.name_mem_walk_ownSeeds hn)
  · obtain ⟨n, hn, rfl⟩ := List.mem_map.mp hm
    exact settled_of_builtin (Builtin.isBuiltin_of_introspection hn) rfl _

theorem Sound.lookup_of_mem_typeMap (hs : s.Sound) :
    ∀ t ∈ s.toSchema.typeMap, s.registry.lookup t.name = some t := by
  rw [typeMap_toSchema]
  exact hs.lookup_of_mem_walk (hs.lookup_of_mem_walk nofun hs.settled_ownSeeds) hs.settled_otherSeeds

theorem Sound.name_mem_typeMap (hs : s.Sound) {n : String} (hn : n ∈ s.registry.names) :
    n ∈ s.toSchema.typeMap.map NamedType.name := by
  rw [typeMap_toSchema]
  exact List.map_subset _ (s.lineage.subset_walk _ _) (hs.name_mem_walk_ownSeeds hn)

theorem Sound.type?_or (hs : s.Sound) (n : String) :
    (s.toSchema.type? n).or (Builtin.type? n) = s.registry.lookup n := by
  cases ht : s.toSchema.type? n with
  | some t =>
      have hname : t.name = n := Keyed.key_of_get? _ ht
      rw [Option.some_or, ← hname]
      exact (hs.lookup_of_mem_typeMap t (Keyed.mem_of_get? _ ht)).symm
  | none =>
      have hn : n ∉ s.registry.names := fun h =>
        (Keyed.get?_eq_none_iff _).mp ht (hs.name_mem_typeMap h)
      rw [Option.none_or, Registry.lookup, Registry.get?, (Keyed.get?_eq_none_iff _).mpr hn,
        Option.or_none]

end Snapshot

end SchemaGraph
