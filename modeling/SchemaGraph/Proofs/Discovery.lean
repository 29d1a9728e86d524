import SchemaGraph.Proofs.Reach

namespace SchemaGraph

namespace Discovery

def fresh (found : List NamedType) (refs : List Ref) : List Ref :=
  refs.filter fun r => r.name ∉ found.map NamedType.name

def leads (seeds : List Ref) (found : List NamedType) : List Ref :=
  found.reverse.flatMap NamedType.refs ++ seeds

def next? (seeds : List Ref) (found : List NamedType) : Option String :=
  ((leads seeds found).find? fun r => r.name ∉ found.map NamedType.name).map Ref.name

def Discovers (seeds : List Ref) : List NamedType → List NamedType → Prop
  | _, [] => True
  | found, t :: types => next? seeds found = some t.name ∧ Discovers seeds (found ++ [t]) types

instance decidableDiscovers (seeds : List Ref) :
    ∀ found types, Decidable (Discovers seeds found types)
  | _, [] => .isTrue trivial
  | found, t :: types =>
      have := decidableDiscovers seeds (found ++ [t]) types
      inferInstanceAs (Decidable (_ ∧ _))

variable {seeds : List Ref} {found : List NamedType}

theorem fresh_append (refs refs' : List Ref) :
    fresh found (refs ++ refs') = fresh found refs ++ fresh found refs' :=
  List.filter_append ..

theorem fresh_concat (t : NamedType) (refs : List Ref) :
    fresh (found ++ [t]) refs = (fresh found refs).filter (·.name ≠ t.name) := by
  rw [fresh, fresh, List.filter_filter]
  congr 1
  funext r
  simp [and_comm]

theorem fresh_cons_old {r : Ref} (h : r.name ∈ found.map NamedType.name) (rest : List Ref) :
    fresh found (r :: rest) = fresh found rest :=
  List.filter_cons_of_neg (by simpa using h)

theorem fresh_cons_new {r : Ref} (h : r.name ∉ found.map NamedType.name) (rest : List Ref) :
    fresh found (r :: rest) = r :: fresh found rest :=
  List.filter_cons_of_pos (by simpa using h)

theorem leads_append (seeds : List Ref) (found types : List NamedType) :
    leads seeds (found ++ types) = types.reverse.flatMap NamedType.refs ++ leads seeds found := by
  rw [leads, leads, List.reverse_append, List.flatMap_append, List.append_assoc]

theorem leads_concat (t : NamedType) : leads seeds (found ++ [t]) = t.refs ++ leads seeds found := by
  rw [leads_append, List.reverse_singleton, List.flatMap_singleton]

theorem leads_append_seeds (more : List Ref) :
    leads (seeds ++ more) found = leads seeds found ++ more :=
  (List.append_assoc ..).symm

theorem next?_eq_head? :
    next? seeds found = (fresh found (leads seeds found)).head?.map Ref.name := by
  rw [next?, fresh, List.head?_filter]

theorem next?_append_seeds {n : String} (h : next? seeds found = some n) (more : List Ref) :
    next? (seeds ++ more) found = some n := by
  obtain ⟨r, hr, hn⟩ := Option.map_eq_some_iff.mp h
  rw [next?, leads_append_seeds, List.find?_append, hr, Option.some_or, Option.map_some, hn]

theorem Discovers.append_seeds {types : List NamedType} (h : Discovers seeds found types)
    (more : List Ref) : Discovers (seeds ++ more) found types := by
  induction types generalizing found with
  | nil => trivial
  | cons t types ih => exact ⟨next?_append_seeds h.1 more, ih h.2⟩

theorem discovers_append {types types' : List NamedType} : Discovers seeds found (types ++ types') ↔
    Discovers seeds found types ∧ Discovers seeds (found ++ types) types' := by
  induction types generalizing found with
  | nil => simp [Discovers]
  | cons t types ih => simp [Discovers, ih, and_assoc]

def Pends (seeds : List Ref) (found : List NamedType) (pending : List Ref) : Prop :=
  fresh found pending = fresh found (leads seeds found)

variable {r : Ref} {rest : List Ref}

theorem Pends.skip (h : Pends seeds found (r :: rest)) (hr : r.name ∈ found.map NamedType.name) :
    Pends seeds found rest := by
  rw [Pends, fresh_cons_old hr] at h
  exact h

theorem Pends.visit (h : Pends seeds found (r :: rest)) (hr : r.name ∉ found.map NamedType.name)
    {t : NamedType} (ht : t.name = r.name) : Pends seeds (found ++ [t]) (t.refs ++ rest) := by
  rw [Pends, fresh_cons_new hr] at h
  rw [Pends, leads_concat, fresh_append, fresh_append, fresh_concat t rest, fresh_concat t (leads _ _),
    ← h, List.filter_cons_of_neg (by simp [ht])]

theorem Pends.next? (h : Pends seeds found (r :: rest)) (hr : r.name ∉ found.map NamedType.name) :
    next? seeds found = some r.name := by
  rw [Pends, fresh_cons_new hr] at h
  rw [next?_eq_head?, ← h]
  rfl

theorem Pends.next?_eq_none (h : Pends seeds found []) : Discovery.next? seeds found = none := by
  rw [next?_eq_head?, ← show fresh found [] = _ from h]
  rfl

end Discovery

namespace Snapshot

open Discovery

variable {s : Snapshot}

theorem Sound.exists_lookup (hs : s.Sound) {n : String} (h : s.scope.knows n = true) :
    ∃ t, s.registry.lookup n = some t := by
  rcases s.scope.knows_eq_true_iff.mp h with hb | hn
  · obtain ⟨t, ht⟩ := Builtin.exists_type? hb
    exact ⟨t, by rw [Registry.lookup, ht, Option.some_or]⟩
  · obtain ⟨t, -, ht⟩ := hs.lookup_of_mem_names hn
    exact ⟨t, ht⟩

theorem Sound.discovers_walk (hs : s.Sound) {seeds : List Ref} {seen : List NamedType}
    {pending : List Ref} (hp : ∀ r ∈ pending, s.Settled seen r ∧ s.scope.knows r.name = true)
    (hseeds : Pends seeds seen pending) :
    ∃ found, s.lineage.walk seen pending = seen ++ found ∧ Discovers seeds seen found ∧
      Pends seeds (seen ++ found) [] := by
  induction seen, pending using s.lineage.walk_induction with
  | nil seen =>
      refine ⟨[], by rw [Lineage.walk_nil, List.append_nil], trivial, ?_⟩
      rw [List.append_nil]
      exact hseeds
  | skip seen r rest hr ih =>
      have hold : r.name ∈ seen.map NamedType.name := by
        obtain ⟨hset, hk⟩ := hp r List.mem_cons_self
        refine hset.elim id fun hl => ?_
        obtain ⟨t, ht⟩ := hs.exists_lookup hk
        rw [← Registry.name_of_lookup ht]
        exact hr t (hl.trans ht)
      rw [s.lineage.walk_skip hr]
      exact ih (fun q hq => hp q (List.mem_cons_of_mem _ hq)) (hseeds.skip hold)
  | visit seen r rest t ht hn ih =>
      have hname := Lineage.name_of_resolve? ht
      have hnew : r.name ∉ seen.map NamedType.name := hname ▸ hn
      have hl : s.registry.lookup t.name = some t := by
        rw [hname, ← (hp r List.mem_cons_self).1.resolve? hnew, ht]
      have hnext : ∀ q ∈ t.refs ++ rest, s.Settled (seen ++ [t]) q ∧ s.scope.knows q.name = true := by
        intro q hq
        refine ⟨hs.settled_visit hl (fun q hq => (hp q hq).1) q hq, ?_⟩
        rcases List.mem_append.mp hq with hm | hm
        · exact (hs.gives_of_lookup hl q hm).1
        · exact (hp q (List.mem_cons_of_mem _ hm)).2
      obtain ⟨found, hfound, hdisc, hend⟩ := ih hnext (hseeds.visit hnew hname)
      rw [List.append_assoc, List.singleton_append] at hfound hend
      rw [s.lineage.walk_visit ht hn]
      exact ⟨t :: found, hfound, ⟨hname ▸ hseeds.next? hnew, hdisc⟩, hend⟩

theorem Sound.knows_ownSeeds (hs : s.Sound) :
    ∀ r ∈ s.ownSeeds, s.Settled [] r ∧ s.scope.knows r.name = true := by
  intro r hr
  refine ⟨hs.settled_ownSeeds r hr, ?_⟩
  obtain ⟨n, hn, rfl⟩ := List.mem_map.mp hr
  exact s.scope.knows_eq_true_iff.mpr (Or.inr hn)

theorem Sound.knows_otherSeeds (hs : s.Sound) : ∀ r ∈ s.otherSeeds,
    s.Settled (s.lineage.walk [] s.ownSeeds) r ∧ s.scope.knows r.name = true := by
  intro r hr
  refine ⟨hs.settled_otherSeeds r hr, ?_⟩
  rcases List.mem_append.mp hr with hm | hm
  · obtain ⟨d, hd, hm⟩ := List.mem_flatMap.mp hm
    obtain ⟨a, ha, rfl⟩ := List.mem_map.mp hm
    exact (hs.directives d hd a ha).knows
  · obtain ⟨n, hn, rfl⟩ := List.mem_map.mp hm
    exact s.scope.knows_eq_true_iff.mpr (Or.inl (Builtin.isBuiltin_of_introspection hn))

theorem Sound.discovers_typeMap (hs : s.Sound) :
    Discovers s.seeds [] s.toSchema.typeMap ∧ next? s.seeds s.toSchema.typeMap = none := by
  -- arguments may refer to types of old, so they count from when all types of the registry are found
  have hseeds : s.seeds = s.ownSeeds ++ s.otherSeeds := List.append_assoc ..
  obtain ⟨own, hown, hfirst, hempty⟩ := hs.discovers_walk hs.knows_ownSeeds
    (show Pends s.ownSeeds [] s.ownSeeds from rfl)
  rw [List.nil_append] at hown hempty
  have hpends : Pends s.seeds own s.otherSeeds := by
    rw [Pends, hseeds, leads_append_seeds, fresh_append, ← show fresh own [] = _ from hempty]
    rfl
  obtain ⟨others, hothers, hsecond, hend⟩ := hs.discovers_walk (hown ▸ hs.knows_otherSeeds) hpends
  rw [typeMap_toSchema, hown, hothers]
  refine ⟨discovers_append.mpr ⟨?_, hsecond⟩, hend.next?_eq_none⟩
  rw [hseeds]
  exact hfirst.append_seeds _

theorem Sound.prefix_typeMap_iff (hs : s.Sound) {types : List NamedType}
    (hl : ∀ t ∈ types, s.registry.lookup t.name = some t) :
    types <+: s.toSchema.typeMap ↔ Discovers s.seeds [] types := by
  obtain ⟨hdisc, hend⟩ := hs.discovers_typeMap
  constructor
  · rintro ⟨rest, he⟩
    rw [← he, discovers_append] at hdisc
    exact hdisc.1
  · intro h
    induction types using List.reverseRecOn with
    | nil => exact List.nil_prefix
    | append_singleton types t ih =>
        rw [discovers_append] at h
        obtain ⟨rest, he⟩ := ih (fun u hu => hl u (List.mem_append_left _ hu)) h.1
        have hnext : next? s.seeds types = some t.name := h.2.1
        cases rest with
        | nil =>
            rw [List.append_nil] at he
            exact nomatch (he ▸ hnext).symm.trans hend
        | cons u rest =>
            rw [← he, discovers_append] at hdisc
            have hname : t.name = u.name := Option.some.inj (hnext.symm.trans hdisc.2.1)
            have hu := hs.lookup_of_mem_typeMap u (he ▸ List.mem_append_right _ List.mem_cons_self)
            rw [← hname, hl t (List.mem_append_right _ List.mem_cons_self)] at hu
            obtain rfl := Option.some.inj hu
            exact ⟨rest, by rw [List.append_assoc, List.singleton_append, he]⟩

end Snapshot

end SchemaGraph
