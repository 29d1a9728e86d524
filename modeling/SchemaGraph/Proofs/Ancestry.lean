import SchemaGraph.Proofs.Conservation

namespace SchemaGraph

namespace NamedType

variable {s : Scope} {t : NamedType}

theorem distinct_of_build {d : TypeDef} {extensions : List TypeDef} (h : build s d extensions = .ok t) :
    t.body.Distinct := by
  rw [build_eq_guard, Scope.guard_eq_ok_iff] at h
  obtain ⟨-, rfl⟩ := h
  exact Body.distinct_grow s (Body.distinct_empty _) _

theorem nodup_recordFields (h : t.body.Distinct) : (t.recordFields.map InputValue.name).Nodup := by
  unfold recordFields
  cases hr : record? t.body.variants with
  | none => exact List.nodup_nil
  | some v =>
      refine h.variants.fields v ?_
      rw [(record?_eq_some_iff.mp hr).1]
      exact List.mem_cons_self

theorem leaf_mem_refs {f : InputValue} (hf : f ∈ t.recordFields) : f.type.leaf ∈ t.refs := by
  unfold recordFields at hf
  cases hr : record? t.body.variants with
  | none =>
      rw [hr] at hf
      exact absurd hf List.not_mem_nil
  | some v =>
      rw [hr] at hf
      have hv : v ∈ t.body.variants := by
        rw [(record?_eq_some_iff.mp hr).1]
        exact List.mem_cons_self
      unfold refs
      cases hb : t.body with
      | data vs =>
          rw [hb] at hv
          exact List.mem_flatMap.mpr ⟨v, hv, List.mem_map_of_mem hf⟩
      | _ =>
          rw [hb] at hv
          exact absurd hv List.not_mem_nil

end NamedType

namespace Builtin

theorem distinct {t : NamedType} (ht : t ∈ types) : t.body.Distinct := by
  rcases List.mem_append.mp ht with h | h
  · obtain ⟨d, -, hd⟩ := mem_built h
    exact NamedType.distinct_of_build hd
  · obtain ⟨d, -, hd⟩ := mem_built h
    exact NamedType.distinct_of_build hd

end Builtin

namespace NamedType

theorem Entry.distinct_body {s : Scope} {t : NamedType} (h : t.Entry s) : t.body.Distinct := by
  cases h with
  | builtin h => exact Builtin.distinct (Keyed.mem_of_get? _ h)
  | declared _ _ h => exact distinct_of_build h

end NamedType

structure Registry.Regular (g : Registry) (home : Home) : Prop where
  unique : g.names.Nodup
  entries : ∀ t ∈ g.types, NamedType.Entry ⟨g.names, home⟩ t

namespace Lineage

def Regular (l : Lineage) : Prop :=
  ∀ (i : Nat) (g : Registry), l.registries[i]? = some g → g.Regular (.generation i)

def Within (i : Nat) (r : Ref) : Prop := r.home = .builtin ∨ r.home = .generation i

variable {l : Lineage} {i : Nat} {r r' : Ref} {t t' : NamedType} {f : InputValue}

theorem Regular.append (hl : l.Regular) {g : Registry}
    (hg : g.Regular (.generation l.registries.length)) :
    (⟨l.registries ++ [g]⟩ : Lineage).Regular := by
  intro i g' hg'
  change (l.registries ++ [g])[i]? = some g' at hg'
  rcases Nat.lt_trichotomy i l.registries.length with hlt | rfl | hgt
  · rw [List.getElem?_append_left hlt] at hg'
    exact hl i g' hg'
  · rw [List.getElem?_concat_length] at hg'
    exact Option.some.inj hg' ▸ hg
  · rw [List.getElem?_eq_none (by rw [List.length_append, List.length_singleton]; omega)] at hg'
    exact nomatch hg'

theorem Regular.resolve?_cases (hl : l.Regular) (h : l.resolve? r = some t) :
    (Builtin.type? t.name = some t ∧ r.home = .builtin) ∨ ∃ j g, r.home = .generation j ∧
      l.registries[j]? = some g ∧ g.get? t.name = some t ∧ t.Entry ⟨g.names, .generation j⟩ := by
  have hname := name_of_resolve? h
  unfold resolve? at h
  cases hr : r.home with
  | builtin =>
      rw [hr] at h
      exact Or.inl ⟨hname ▸ h, rfl⟩
  | generation j =>
      rw [hr] at h
      obtain ⟨g, hg, h⟩ := Option.bind_eq_some_iff.mp h
      exact Or.inr ⟨j, g, rfl, hg, hname ▸ h, (hl j g hg).entries t (Keyed.mem_of_get? _ h)⟩

theorem Regular.distinct (hl : l.Regular) (h : l.resolve? r = some t) : t.body.Distinct := by
  rcases hl.resolve?_cases h with ⟨hb, -⟩ | ⟨j, g, -, -, -, he⟩
  · exact Builtin.distinct (Keyed.mem_of_get? _ hb)
  · exact he.distinct_body

theorem within_of_gives {s : Scope} (hs : s.home = .builtin ∨ s.home = .generation i)
    (h : s.Gives r) : Within i r := by
  rw [h.2]
  unfold Within Scope.ref
  split
  · exact Or.inl rfl
  · exact hs

theorem Regular.within (hl : l.Regular) (hr : Within i r) (h : l.resolve? r = some t) :
    ∀ x ∈ t.refs, Within i x := by
  intro x hx
  rcases hl.resolve?_cases h with ⟨hb, -⟩ | ⟨j, g, hj, -, -, he⟩
  · exact within_of_gives (Or.inl rfl) (Builtin.gives_of_mem_refs (Keyed.mem_of_get? _ hb) x hx)
  · have hji : Home.generation j = .generation i := by
      rw [Within, hj] at hr
      exact hr.resolve_left nofun
    exact within_of_gives (Or.inr hji) (he.refs x hx)

theorem Regular.eq_of_name (hl : l.Regular) (hr : Within i r) (hr' : Within i r')
    (h : l.resolve? r = some t) (h' : l.resolve? r' = some t') (hname : t.name = t'.name) : t = t' := by
  -- what a registry has under a builtin name is the builtin type
  have hbuiltin {g : Registry} {j : Nat} {u v : NamedType} (hu : Builtin.type? u.name = some u)
      (hv : v.Entry ⟨g.names, .generation j⟩) (huv : u.name = v.name) : u = v := by
    cases hv with
    | builtin hv => exact Option.some.inj (hu.symm.trans (huv ▸ hv))
    | declared hb _ _ => exact absurd (Builtin.isBuiltin_of_type? hu) (by rw [huv, hb]; simp)
  rcases hl.resolve?_cases h with ⟨hb, -⟩ | ⟨j, g, hj, hg, hget, he⟩ <;>
    rcases hl.resolve?_cases h' with ⟨hb', -⟩ | ⟨j', g', hj', hg', hget', he'⟩
  · exact Option.some.inj (hb.symm.trans (hname ▸ hb'))
  · exact hbuiltin hb he' hname
  · exact (hbuiltin hb' he hname.symm).symm
  · rw [Within, hj] at hr
    rw [Within, hj'] at hr'
    obtain rfl := Home.generation.inj ((hr.resolve_left nofun).trans (hr'.resolve_left nofun).symm)
    obtain rfl := Option.some.inj (hg.symm.trans hg')
    exact Option.some.inj (hget.symm.trans (hname ▸ hget'))

end Lineage

namespace Snapshot

variable {s s' : Snapshot} {d : Document} {o : Options}

theorem Sound.regular_registry (hs : s.Sound) : s.registry.Regular (.generation s.generation) :=
  ⟨hs.unique, hs.entries⟩

theorem regular_empty : empty.lineage.Regular := by
  intro i g hg
  cases i with
  | zero =>
      obtain rfl := Option.some.inj hg
      exact ⟨List.nodup_nil, nofun⟩
  | succ i => exact nomatch hg

theorem regular_extend (hl : s.lineage.Regular) (hs : s.Sound) (h : s.extend d o = .ok s') :
    s'.lineage.Regular := by
  have hs' := hs.extend h
  cases hd : d.isEmpty with
  | true =>
      rw [extend_of_isEmpty hd] at h
      exact Except.ok.inj h ▸ hl
  | false =>
      obtain rfl := eq_extended hd h
      have hregistry : (s.extended d o).registry = s.registry.extended s.nextHome d := registry_extended
      exact hl.append (hregistry ▸ hs'.regular_registry)

end Snapshot

namespace Schema

variable {S : Schema}

theorem Reachable.regular (hS : S.Reachable) : S.snapshot.lineage.Regular := by
  induction hS with
  | build h =>
      obtain ⟨-, s, hs, rfl⟩ := exists_of_build h
      obtain ⟨t, ht, rfl⟩ := Snapshot.exists_of_build hs
      obtain ⟨roots, hroots⟩ := t.exists_withConventionalRoots
      have ht' := Snapshot.regular_extend Snapshot.regular_empty Snapshot.sound_empty ht
      rw [hroots]
      exact ht'
  | extend hS h ih =>
      obtain ⟨-, ⟨-, rfl⟩ | ⟨-, s, hs, rfl⟩⟩ := exists_of_extend h
      · exact ih
      · exact Snapshot.regular_extend ih hS.sound hs

end Schema

end SchemaGraph
