import SchemaGraph.Proofs.Builtin

namespace SchemaGraph

namespace Scope

def Admits (s : Scope) (r : Ref) : Prop :=
  (Builtin.isBuiltin r.name = true ∧ r.home = .builtin) ∨ r.name ∈ s.names

theorem Gives.admits {s : Scope} {r : Ref} (h : s.Gives r) : s.Admits r := by
  rcases s.knows_eq_true_iff.mp h.1 with hb | hn
  · refine Or.inl ⟨hb, ?_⟩
    rw [h.2]
    exact if_pos hb
  · exact Or.inr hn

theorem Admits.knows {s : Scope} {r : Ref} (h : s.Admits r) : s.knows r.name = true :=
  s.knows_eq_true_iff.mpr (h.imp And.left id)

theorem Admits.mono {s s' : Scope} (hn : s.names ⊆ s'.names) {r : Ref} (h : s.Admits r) :
    s'.Admits r :=
  h.imp id fun hm => hn hm

theorem knows_mono {s s' : Scope} (hn : s.names ⊆ s'.names) {n : String} (h : s.knows n = true) :
    s'.knows n = true :=
  s'.knows_eq_true_iff.mpr ((s.knows_eq_true_iff.mp h).imp id fun hm => hn hm)

end Scope

namespace NamedType

inductive Entry (s : Scope) (t : NamedType) : Prop where
  | builtin (h : Builtin.type? t.name = some t)
  | declared (hb : Builtin.isBuiltin t.name = false)
      (hx : ∀ e ∈ t.extensions, e.name.text = t.name ∧ e.kind = t.kind)
      (h : build s t.node t.extensions = .ok t)

theorem Entry.refs {s : Scope} {t : NamedType} (h : t.Entry s) : ∀ r ∈ t.refs, s.Gives r := by
  cases h with
  | builtin h =>
      intro r hr
      obtain ⟨hk, he⟩ := Builtin.gives_of_mem_refs (Keyed.mem_of_get? _ h) r hr
      rw [Builtin.knows_scope] at hk
      refine ⟨s.knows_eq_true_iff.mpr (Or.inl hk), ?_⟩
      rw [he]
      simp [Scope.ref, hk]
  | declared hb hx h => exact gives_of_build h

theorem entry_of_build {s : Scope} {d : TypeDef} {extensions : List TypeDef}
    (hb : Builtin.isBuiltin d.name.text = false) (hx : ∀ e ∈ extensions, e.name.text = d.name.text)
    (hk : ∀ n ∈ placeMentions d extensions, s.knows n = true) : (place s d extensions).Entry s := by
  refine Entry.declared hb ?_ ?_
  · intro e he
    obtain ⟨hm, hkind⟩ := mem_ofKind.mp he
    exact ⟨hx e hm, hkind.trans (kind_place s d extensions).symm⟩
  · change build s d (ofKind d.kind extensions) = _
    rw [build_eq_guard, place_ofKind, placeMentions, ofKind_ofKind]
    exact s.guard_of_known hk _

end NamedType

namespace Seed

@[simp] theorem name_ofType (t : NamedType) : (ofType t).name = t.name := by
  unfold ofType
  cases hb : Builtin.type? t.name with
  | none => rfl
  | some b => exact Builtin.name_of_type? hb

@[simp] theorem name_ofDef (d : TypeDef) : (ofDef d).name = d.name.text := by
  unfold ofDef
  cases hb : Builtin.type? d.name.text with
  | none => rfl
  | some b => exact Builtin.name_of_type? hb

theorem name_comp_ofType : name ∘ ofType = NamedType.name := funext name_ofType

theorem name_comp_ofDef : name ∘ ofDef = fun d => d.name.text := funext name_ofDef

end Seed

namespace Registry

variable (r : Registry) (home : Home) (d : Document)

theorem mem_names_nextScope {n : String} :
    n ∈ (r.nextScope home d).names ↔ n ∈ r.names ∨ n ∈ d.types.map (·.name.text) := by
  rw [nextScope, seeds, Keyed.mem_keys_lastWriteWins, List.map_map, List.map_map, Seed.name_comp_ofType,
    Seed.name_comp_ofDef]
  rfl

theorem names_subset_nextScope : r.names ⊆ (r.nextScope home d).names := fun _ hn =>
  (r.mem_names_nextScope home d).mpr (Or.inl hn)

theorem nodup_names_extended : (r.extended home d).names.Nodup := by
  rw [names_extended, seeds]
  exact Keyed.nodup_ofList _ _

variable {r home d}

theorem entry_carried {t : NamedType} {h : Home} (ht : t.Entry ⟨r.names, h⟩)
    (hb : Builtin.isBuiltin t.name = false)
    (hk : ∀ n ∈ t.growMentions (d.extensionsOf t.name), (r.nextScope home d).knows n = true) :
    (t.grow (r.nextScope home d) (d.extensionsOf t.name)).Entry (r.nextScope home d) := by
  cases ht with
  | builtin hs => exact absurd (Builtin.isBuiltin_of_type? hs) (by simp [hb])
  | declared _ hx hbuild =>
      rw [NamedType.build_eq_guard, Scope.guard_eq_ok_iff] at hbuild
      obtain ⟨hold, hplace⟩ := hbuild
      have hgrow : t.grow (r.nextScope home d) (d.extensionsOf t.name) =
          NamedType.place (r.nextScope home d) t.node (t.extensions ++ d.extensionsOf t.name) := by
        rw [← NamedType.grow_place, hplace]
      have hkind : t.node.kind = t.kind := by
        rw [← hplace, NamedType.kind_place]
        rfl
      rw [hgrow]
      refine NamedType.entry_of_build hb ?_ ?_
      · intro e he
        rcases List.mem_append.mp he with hm | hm
        · exact (hx e hm).1
        · exact beq_iff_eq.mp (List.mem_filter.mp hm).2
      · -- names of old nodes were known already, though the type may not refer to them any more
        intro n hn
        have hmono := Scope.knows_mono (s := ⟨r.names, h⟩) (r.names_subset_nextScope home d) (n := n)
        rcases NamedType.mem_placeMentions.mp hn with hm | ⟨e, he, hek, hm⟩
        · exact hmono (hold n (NamedType.mem_placeMentions.mpr (Or.inl hm)))
        · rcases List.mem_append.mp he with he | he
          · exact hmono (hold n (NamedType.mem_placeMentions.mpr (Or.inr ⟨e, he, hek, hm⟩)))
          · exact hk n (NamedType.mem_growMentions.mpr (Or.inr ⟨e, he, hek.trans hkind, hm⟩))

theorem seed_cases {seed : Seed} (hs : seed ∈ r.seeds d) :
    (∃ b, seed = .builtin b ∧ Builtin.type? b.name = some b) ∨
    (∃ t ∈ r.types, seed = .carried t ∧ Builtin.isBuiltin t.name = false) ∨
    ∃ x ∈ d.types, seed = .fresh x ∧ Builtin.isBuiltin x.name.text = false := by
  have hself {n : String} {b : NamedType} (hb : Builtin.type? n = some b) :
      Builtin.type? b.name = some b := by
    rw [Builtin.name_of_type? hb, hb]
  rcases Keyed.mem_of_mem_lastWriteWins Seed.name hs with hm | hm
  · obtain ⟨t, ht, rfl⟩ := List.mem_map.mp hm
    unfold Seed.ofType
    cases hb : Builtin.type? t.name with
    | some b => exact Or.inl ⟨b, rfl, hself hb⟩
    | none => exact Or.inr (Or.inl ⟨t, ht, rfl, Builtin.type?_eq_none_iff.mp hb⟩)
  · obtain ⟨x, hx, rfl⟩ := List.mem_map.mp hm
    unfold Seed.ofDef
    cases hb : Builtin.type? x.name.text with
    | some b => exact Or.inl ⟨b, rfl, hself hb⟩
    | none => exact Or.inr (Or.inr ⟨x, hx, rfl, Builtin.type?_eq_none_iff.mp hb⟩)

theorem entry_extended {h : Home} (hr : ∀ t ∈ r.types, NamedType.Entry ⟨r.names, h⟩ t)
    (hk : ∀ n ∈ r.mentions d, (r.nextScope home d).knows n = true) :
    ∀ t ∈ (r.extended home d).types, NamedType.Entry (r.nextScope home d) t := by
  intro t ht
  obtain ⟨seed, hseed, rfl⟩ := List.mem_map.mp ht
  have hkseed : ∀ n ∈ seed.mentions (d.extensionsOf seed.name), (r.nextScope home d).knows n = true :=
    fun n hn => hk n (List.mem_flatMap.mpr ⟨seed, hseed, hn⟩)
  rcases seed_cases hseed with ⟨b, rfl, hb⟩ | ⟨t, hold, rfl, hb⟩ | ⟨x, hx, rfl, hb⟩
  · exact NamedType.Entry.builtin hb
  · exact entry_carried (hr t hold) hb hkseed
  · refine NamedType.entry_of_build hb ?_ hkseed
    intro e he
    exact beq_iff_eq.mp (List.mem_filter.mp he).2

end Registry

end SchemaGraph
