import SchemaGraph.Proofs.Report

namespace SchemaGraph

namespace Schema

def Defines (S : Schema) (x : TypeDef) : Prop :=
  ∃ t, S.type? x.name.text = some t ∧ t.kind = x.kind ∧ t.node = x

def Extends (S : Schema) (e : TypeDef) : Prop :=
  ∃ t, S.type? e.name.text = some t ∧ t.kind = e.kind ∧ e ∈ t.extensions

variable {S : Schema} {n : String}

theorem Reachable.type?_of_custom (hS : S.Reachable) (hb : Builtin.isBuiltin n = false) :
    S.type? n = S.snapshot.registry.get? n := by
  have h := hS.grounded.types n
  rw [Registry.lookup, Builtin.type?_eq_none_iff.mpr hb, Option.or_none, Option.none_or] at h
  exact h

theorem Reachable.type?_of_builtin (hS : S.Reachable) (hb : Builtin.isBuiltin n = true) {t : NamedType}
    (ht : S.type? n = some t) : Builtin.type? n = some t := by
  obtain ⟨b, hbt⟩ := Builtin.exists_type? hb
  have h := hS.grounded.types n
  rw [Option.bind_some, ht, Option.some_or, Registry.lookup, hbt, Option.some_or] at h
  rw [hbt, h]

end Schema

namespace Snapshot

variable {s : Snapshot} {d : Document} {o : Options}

theorem Effective.exists_defined (hu : s.registry.names.Nodup) {x : TypeDef}
    (h : s.Effective d (.type x)) :
    ∃ t, (s.extended d o).registry.get? x.name.text = some t ∧ t.kind = x.kind ∧ t.node = x := by
  obtain ⟨hb, hd⟩ := h
  refine ⟨NamedType.place (s.nextScope d) x (d.extensionsOf x.name.text), ?_, ?_, rfl⟩
  · rw [registry_extended, Registry.get?_extended_of_custom hu _ hb, hd, Option.map_some, Option.some_or]
    rfl
  · exact NamedType.kind_place _ x _

theorem Effective.exists_extended (hu : s.registry.names.Nodup) {e : TypeDef}
    (h : s.Effective d (.typeExtension e)) :
    ∃ t, (s.extended d o).registry.get? e.name.text = some t ∧ t.kind = e.kind ∧ e ∈ t.extensions := by
  obtain ⟨hb, he, hk⟩ := h
  have hm : e ∈ d.extensionsOf e.name.text := Document.mem_extensionsOf.mpr ⟨he, rfl⟩
  rw [registry_extended, Registry.get?_extended_of_custom hu _ hb]
  rw [targetKind?_of_custom hb] at hk
  cases hd : d.definition? e.name.text with
  | some x =>
      rw [hd, Option.map_some, Option.some_or, Option.some.injEq] at hk
      refine ⟨_, rfl, (NamedType.kind_place _ x _).trans hk, ?_⟩
      exact NamedType.mem_ofKind.mpr ⟨hm, hk.symm⟩
  | none =>
      rw [hd, Option.map_none, Option.none_or] at hk
      obtain ⟨t, ht, hk⟩ := Option.map_eq_some_iff.mp hk
      rw [ht]
      refine ⟨_, rfl, (NamedType.kind_grow _ t _).trans hk, ?_⟩
      exact List.mem_append_right _ (NamedType.mem_ofKind.mpr ⟨hm, hk.symm⟩)

end Snapshot

namespace Validation.Clean

open Schema

variable {base : Option Schema} {d : Document}

theorem effective_type (hc : Clean d base) {x : TypeDef} (hx : x ∈ d.types)
    (hb : Builtin.isBuiltin x.name.text = false) : (under base).Effective d (.type x) :=
  ⟨hb, Document.definition?_of_mem hc.nodup_types hx⟩

theorem effective_typeExtension (hc : Clean d base) (hg : Grounded base) {e : TypeDef}
    (he : e ∈ d.typeExtensions) (hb : Builtin.isBuiltin e.name.text = false) :
    (under base).Effective d (.typeExtension e) := by
  have hnone := List.filterMap_eq_nil_iff.mp hc.typeExtensions e he
  rw [checkExtension_eq_none_iff, hg.targetKind?_eq] at hnone
  exact ⟨hb, he, hnone⟩

end Validation.Clean

namespace Schema

variable {base : Option Schema} {S : Schema} {d : Document} {o : Options} {n : String}

theorem type?_declared (hb : ∀ B ∈ base, B.Reachable) (hd : d.isEmpty = false)
    (h : declare base d o = .ok S) (hn : Builtin.isBuiltin n = false) :
    S.type? n = ((under base).extended d o).registry.get? n := by
  rw [(reachable_of_declare hb h).type?_of_custom hn]
  obtain ⟨-, s, hs, rfl⟩ := declare_eq_ok_iff.mp h
  rw [registry_completed hs, Snapshot.eq_extended hd hs]

structure Honors (S : Schema) (d : Document) : Prop where
  types : ∀ x ∈ d.types, Builtin.isBuiltin x.name.text = false → S.Defines x
  extensions : ∀ e ∈ d.typeExtensions, Builtin.isBuiltin e.name.text = false → S.Extends e
  builtin : ∀ n t, Builtin.isBuiltin n = true → S.type? n = some t → Builtin.type? n = some t

theorem declare_honors (hb : ∀ S ∈ base, S.Reachable) (h : validate d base = []) (o : Options) :
    ∃ S, declare base d o = .ok S ∧ S.Honors d := by
  have hg := grounded_of_reachable hb
  have hc := Validation.validate_eq_nil_iff.mp h
  obtain ⟨s, hs⟩ := hg.extend_ok hc.knownTypes (o := o)
  have hS := declare_eq_ok_iff.mpr ⟨check_of_validate h, s, hs, rfl⟩
  have hne {x : Definition} (hx : x ∈ d.definitions) : d.isEmpty = false :=
    List.isEmpty_eq_false_iff.mpr (List.ne_nil_of_mem hx)
  refine ⟨_, hS, ?_, ?_, fun n t hn => (reachable_of_declare hb hS).type?_of_builtin hn⟩
  · intro x hx hn
    rw [Defines, type?_declared hb (hne (Document.mem_types.mp hx)) hS hn]
    exact (hc.effective_type hx hn).exists_defined hg.sound.unique
  · intro e he hn
    rw [Extends, type?_declared hb (hne (Document.mem_typeExtensions.mp he)) hS hn]
    exact (hc.effective_typeExtension hg he hn).exists_extended hg.sound.unique

end Schema

namespace Pets

theorem owners_honored : validate owners (some schema) = [] ∧
    ∃ S, Schema.declare (some schema) owners .default = .ok S ∧ S.Honors owners ∧
      (∀ x ∈ owners.types, S.Defines x) ∧ ∀ e ∈ owners.typeExtensions, S.Extends e := by
  obtain ⟨S, hS, hh⟩ := Schema.declare_honors reachable_schema.forall_mem_some validate_owners .default
  refine ⟨validate_owners, S, hS, hh, fun x hx => hh.types x hx ?_, fun e he => hh.extensions e he ?_⟩
  · revert x
    decide
  · revert e
    decide

def floats : Document := ⟨[
  .type (object "Float" [Builtin.field "mantissa" "Int"]),
  .typeExtension (object "Float" [Builtin.field "exponent" "Int"]),
  .type (object "Query" [Builtin.field "float" "Float"])]⟩

theorem floats_ignored : validate floats none = [] ∧ ∃ S, Schema.declare none floats .default = .ok S ∧
    (∃ x ∈ floats.types, ¬S.Defines x) ∧ ∃ e ∈ floats.typeExtensions, ¬S.Extends e := by
  have hvalid : validate floats none = [] := by decide +kernel
  obtain ⟨S, hS⟩ : ∃ S, Schema.declare none floats .default = .ok S :=
    ⟨_, Schema.declare_of_validate (by simp) hvalid rfl .default⟩
  have hfloat {t : NamedType} (ht : S.type? "Float" = some t) : t.kind = .scalar := by
    have hb := (Schema.Reachable.build hS).type?_of_builtin (by decide) ht
    have hk : (Builtin.type? "Float").map NamedType.kind = some .scalar := by decide +kernel
    rw [hb] at hk
    exact Option.some.inj hk
  refine ⟨hvalid, S, hS, ⟨_, List.mem_cons_self, ?_⟩, _, List.mem_cons_self, ?_⟩
  · rintro ⟨t, ht, hk, -⟩
    exact nomatch (hfloat ht).symm.trans hk
  · rintro ⟨t, ht, hk, -⟩
    exact nomatch (hfloat ht).symm.trans hk

end Pets

end SchemaGraph
