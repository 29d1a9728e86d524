import SchemaGraph.Proofs.Sound

namespace SchemaGraph

inductive Snapshot.Reachable : Snapshot → Prop
  | empty : Reachable .empty
  | extend {s s' : Snapshot} {d : Document} {o : Options} :
      Reachable s → s.extend d o = .ok s' → Reachable s'
  | buildSchema {S : Schema} {d : Document} {o : Options} :
      Schema.build d o = .ok S → Reachable S.snapshot
  | extendSchema {S S' : Schema} {d : Document} {o : Options} :
      Reachable S.snapshot → S.extend d o = .ok S' → Reachable S'.snapshot

inductive Schema.Reachable : Schema → Prop
  | build {S : Schema} {d : Document} {o : Options} : Schema.build d o = .ok S → Reachable S
  | extend {S S' : Schema} {d : Document} {o : Options} :
      Reachable S → S.extend d o = .ok S' → Reachable S'

namespace Schema

variable {S S' : Schema} {d : Document} {o : Options}

theorem exists_of_build (h : Schema.build d o = .ok S) :
    check d none o = .ok () ∧ ∃ s, Snapshot.build d o = .ok s ∧ S = s.toSchema := by
  obtain ⟨u, hc, h⟩ := exists_of_bind_eq_ok h
  obtain ⟨s, hs, h⟩ := exists_of_bind_eq_ok h
  exact ⟨hc, s, hs, (Except.ok.inj h).symm⟩

theorem exists_of_extend (h : S.extend d o = .ok S') :
    check d (some S) o = .ok () ∧ (d.isEmpty = true ∧ S' = S ∨ d.isEmpty = false ∧
      ∃ s, S.snapshot.extend d o = .ok s ∧ S' = s.toSchema) := by
  obtain ⟨u, hc, h⟩ := exists_of_bind_eq_ok h
  refine ⟨hc, ?_⟩
  cases hd : d.isEmpty with
  | true =>
      rw [hd] at h
      exact Or.inl ⟨rfl, (Except.ok.inj h).symm⟩
  | false =>
      rw [hd] at h
      obtain ⟨s, hs, h⟩ := exists_of_bind_eq_ok h
      exact Or.inr ⟨rfl, s, hs, (Except.ok.inj h).symm⟩

theorem sound_extend (hS : S.snapshot.Sound) (h : S.extend d o = .ok S') : S'.snapshot.Sound := by
  obtain ⟨-, ⟨-, rfl⟩ | ⟨-, s, hs, rfl⟩⟩ := exists_of_extend h
  · exact hS
  · exact hS.extend hs

theorem sound_build (h : Schema.build d o = .ok S) : S.snapshot.Sound := by
  obtain ⟨-, s, hs, rfl⟩ := exists_of_build h
  exact Snapshot.sound_build hs

theorem Reachable.sound (hS : S.Reachable) : S.snapshot.Sound := by
  induction hS with
  | build h => exact sound_build h
  | extend _ h ih => exact sound_extend ih h

end Schema

namespace Snapshot

theorem Reachable.sound {s : Snapshot} (hs : s.Reachable) : s.Sound := by
  induction hs with
  | empty => exact sound_empty
  | extend _ h ih => exact ih.extend h
  | buildSchema h => exact Schema.sound_build h
  | extendSchema _ h ih => exact Schema.sound_extend ih h

structure Owns (s : Snapshot) (r : Ref) : Prop where
  home : r.home = if Builtin.isBuiltin r.name then .builtin else .generation s.generation
  target : ∃ t, s.lineage.resolve? r = some t ∧ s.alone.lineage.resolve? r = some t ∧
    s.registry.lookup r.name = some t ∧
    (if Builtin.isBuiltin r.name then Builtin.type? r.name else s.registry.get? r.name) = some t

structure Closed (s : Snapshot) : Prop where
  refs : ∀ t ∈ s.registry.types, ∀ r ∈ t.refs, s.Owns r
  roots : ∀ o r, s.roots.get o = some r → s.Owns r
  builtin : ∀ t ∈ s.registry.types, Builtin.isBuiltin t.name = true → Builtin.type? t.name = some t
  keys : s.registry.names.Nodup ∧ ∀ n t, s.registry.get? n = some t → t.name = n

variable {s : Snapshot}

theorem Sound.resolve?_generation (hs : s.Sound) (n : String) :
    s.lineage.resolve? ⟨n, .generation s.generation⟩ = s.registry.get? n := by
  change (s.lineage.registries[s.generation]?).bind (·.get? n) = _
  rw [hs.current, Option.bind_some]

theorem Sound.owns (hs : s.Sound) {r : Ref} (hr : s.scope.Gives r) : s.Owns r := by
  obtain ⟨hk, he⟩ := hr
  have hhome : r.home = if Builtin.isBuiltin r.name then .builtin else .generation s.generation :=
    congrArg Ref.home he
  refine ⟨hhome, ?_⟩
  have halone : s.alone.lineage.resolve? r = s.lineage.resolve? r := by
    rw [alone, Lineage.resolve?_only, if_pos]
    rw [hhome]
    split
    · exact Or.inl rfl
    · exact Or.inr rfl
  rw [halone]
  by_cases hb : Builtin.isBuiltin r.name = true
  · obtain ⟨t, ht⟩ := Builtin.exists_type? hb
    rw [if_pos hb] at hhome
    refine ⟨t, ?_, ?_, ?_, ?_⟩
    · rw [Lineage.resolve?, hhome]
      exact ht
    · rw [Lineage.resolve?, hhome]
      exact ht
    · rw [Registry.lookup, ht, Option.some_or]
    · rw [if_pos hb]
      exact ht
  · have hn : r.name ∈ s.registry.names := (s.scope.knows_eq_true_iff.mp hk).resolve_left hb
    obtain ⟨t, ht⟩ := Keyed.exists_get?_of_mem_keys NamedType.name hn
    have hbn : Builtin.type? r.name = none := Builtin.type?_eq_none_iff.mpr (by simpa using hb)
    rw [if_neg hb] at hhome
    have hres : s.lineage.resolve? r = some t := by
      rw [show r = ⟨r.name, .generation s.generation⟩ by rw [← hhome], hs.resolve?_generation]
      exact ht
    refine ⟨t, hres, hres, ?_, ?_⟩
    · rw [Registry.lookup, hbn, Option.none_or]
      exact ht
    · rw [if_neg hb]
      exact ht

theorem Sound.builtin_entry (hs : s.Sound) {t : NamedType} (ht : t ∈ s.registry.types)
    (hb : Builtin.isBuiltin t.name = true) : Builtin.type? t.name = some t := by
  cases hs.entries t ht with
  | builtin h => exact h
  | declared hn => exact absurd hb (by simp [hn])

theorem Sound.closed (hs : s.Sound) : s.Closed where
  refs t ht r hr := hs.owns ((hs.entries t ht).refs r hr)
  roots o r hr := hs.owns (hs.roots o r hr)
  builtin _ ht hb := hs.builtin_entry ht hb
  keys := ⟨hs.unique, fun _ _ h => Keyed.key_of_get? _ h⟩

theorem closed_of_reachable (hs : s.Reachable) : s.Closed := hs.sound.closed

end Snapshot

namespace Pets

def object (name : String) (fields : List FieldDef) : TypeDef :=
  ⟨Builtin.ident name, none, [], .object [] fields, .nowhere⟩

def document : Document := ⟨[
  .type (object "Query" [Builtin.field "pets" "[Pet!]!"]),
  .type (object "Pet" [Builtin.field "name" "String!", Builtin.field "weight" "Float"])]⟩

def owners : Document := ⟨[
  .type (object "Owner" [Builtin.field "pets" "[Pet!]!"]),
  .typeExtension (object "Pet" [Builtin.field "owner" "Owner", Builtin.field "weight" "Int"])]⟩

def snapshot : Snapshot := (Snapshot.empty.extended document .default).extended owners .default

theorem reachable_snapshot : snapshot.Reachable :=
  (Snapshot.Reachable.empty.extend (Snapshot.extend_of_known rfl (by decide +kernel) .default)).extend
    (Snapshot.extend_of_known rfl (by decide +kernel) .default)

end Pets

namespace Snapshot

variable {s : Snapshot}

theorem closed_pets : Pets.snapshot.Reachable ∧ Pets.snapshot.Closed :=
  ⟨Pets.reachable_snapshot, closed_of_reachable Pets.reachable_snapshot⟩

structure Declares (s : Snapshot) (t : NamedType) : Prop where
  node : t.node.name.text = t.name ∧ t.node.kind = t.kind
  extensions : ∀ e ∈ t.extensions, e.name.text = t.name ∧ e.kind = t.kind
  build : NamedType.build s.scope t.node t.extensions = .ok t

theorem declares_of_reachable (hs : s.Reachable) {t : NamedType} (ht : t ∈ s.registry.types)
    (hb : Builtin.isBuiltin t.name = false) : s.Declares t := by
  cases hs.sound.entries t ht with
  | builtin h => exact absurd (Builtin.isBuiltin_of_type? h) (by simp [hb])
  | declared _ hx h =>
      refine ⟨⟨rfl, ?_⟩, hx, h⟩
      rw [NamedType.build_eq_guard, Scope.guard_eq_ok_iff] at h
      calc t.node.kind = (NamedType.place s.scope t.node t.extensions).kind := (NamedType.kind_place ..).symm
        _ = t.kind := by rw [h.2]

theorem declares_pet : ∃ t ∈ Pets.snapshot.registry.types,
    t.name = "Pet" ∧ Builtin.isBuiltin t.name = false ∧ Pets.snapshot.Declares t := by
  have hsome : (Pets.snapshot.registry.get? "Pet").isSome = true := by decide +kernel
  obtain ⟨t, ht⟩ := Option.isSome_iff_exists.mp hsome
  have hm : t ∈ Pets.snapshot.registry.types := Keyed.mem_of_get? NamedType.name ht
  have hn : t.name = "Pet" := Keyed.key_of_get? NamedType.name ht
  have hb : Builtin.isBuiltin t.name = false := by
    rw [hn]
    decide
  exact ⟨t, hm, hn, hb, declares_of_reachable Pets.reachable_snapshot hm hb⟩

end Snapshot

end SchemaGraph
