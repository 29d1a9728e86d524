import SchemaGraph.Proofs.Effect
import SchemaGraph.Proofs.TypeMap

namespace SchemaGraph

namespace Snapshot

variable {s : Snapshot} {d : Document}

theorem Sound.knows_of_mem_mentions (hs : s.Sound) {n : String} (hn : n ∈ s.mentions d) :
    s.scope.knows n = true ∨ n ∈ d.typeNames := by
  refine (hs.effective_of_mem_mentions hn).imp id ?_
  rintro ⟨x, hx, hm⟩
  exact Document.mem_typeNames.mpr ⟨x, hx.mem, hm⟩

structure Fits (s : Snapshot) (d : Document) : Prop where
  custom : ∀ x ∈ d.types, Builtin.isBuiltin x.name.text = false
  unique : (s.registry.names ++ d.types.map (·.name.text)).Nodup
  schemas : d.schemas.length ≤ 1
  targets : ∀ e ∈ d.typeExtensions, s.targetKind? d e.name.text = some e.kind

namespace Fits

theorem seeds_eq (hf : s.Fits d) :
    s.registry.seeds d = s.registry.types.map Seed.ofType ++ d.types.map Seed.fresh := by
  have hfresh : d.types.map Seed.ofDef = d.types.map Seed.fresh := by
    refine List.map_congr_left fun x hx => ?_
    rw [Seed.ofDef, Builtin.type?_eq_none_iff.mpr (hf.custom x hx)]
  rw [← hfresh]
  refine Keyed.lastWriteWins_of_nodup Seed.name ?_
  rw [List.map_append, List.map_map, List.map_map, Seed.name_comp_ofType, Seed.name_comp_ofDef]
  exact hf.unique

theorem exists_target (hf : s.Fits d) {e : TypeDef} (he : e ∈ d.typeExtensions)
    (hb : Builtin.isBuiltin e.name.text = false) :
    (∃ t ∈ s.registry.types, t.name = e.name.text ∧ t.kind = e.kind) ∨
      ∃ x ∈ d.types, x.name.text = e.name.text ∧ x.kind = e.kind := by
  rcases Option.or_eq_some_iff.mp (hf.targets e he) with h | ⟨-, h⟩
  · obtain ⟨x, hx, hk⟩ := Option.map_eq_some_iff.mp h
    obtain ⟨hm, hn⟩ := List.mem_filter.mp (List.mem_of_getLast? hx)
    exact Or.inr ⟨x, hm, beq_iff_eq.mp hn, hk⟩
  · obtain ⟨t, ht, hk⟩ := Option.map_eq_some_iff.mp h
    rw [Registry.lookup, Builtin.type?_eq_none_iff.mpr hb, Option.none_or] at ht
    exact Or.inl ⟨t, Keyed.mem_of_get? _ ht, Keyed.key_of_get? _ ht, hk⟩

theorem schema?_of_mem (hf : s.Fits d) {x : SchemaDef} (hx : x ∈ d.schemas) : d.schema? = some x := by
  have h := hf.schemas
  rw [Document.schema?]
  match hd : d.schemas with
  | [] => exact absurd (hd ▸ hx) List.not_mem_nil
  | [y] =>
      rw [hd, List.mem_singleton] at hx
      rw [hx, List.getLast?_singleton]
  | _ :: _ :: _ =>
      rw [hd] at h
      exact absurd h (by simp)

theorem definition?_of_mem (hf : s.Fits d) {x : TypeDef} (hx : x ∈ d.types) :
    d.definition? x.name.text = some x :=
  Document.definition?_of_mem (List.nodup_append.mp hf.unique).2.1 hx

theorem effective (hf : s.Fits d)
    (hb : ∀ e ∈ d.typeExtensions, Builtin.isBuiltin e.name.text = false) {x : Definition}
    (hx : x ∈ d.definitions) : s.Effective d x := by
  cases x with
  | type x =>
      have hm := Document.mem_types.mpr hx
      exact ⟨hf.custom x hm, hf.definition?_of_mem hm⟩
  | typeExtension e =>
      have he := Document.mem_typeExtensions.mpr hx
      exact ⟨hb e he, he, hf.targets e he⟩
  | directive x => exact Document.mem_directives.mpr hx
  | schema x => exact hf.schema?_of_mem (Document.mem_schemas.mpr hx)
  | schemaExtension x => exact Document.mem_schemaExtensions.mpr hx

theorem mem_mentions (hf : s.Fits d)
    (hb : ∀ e ∈ d.typeExtensions, Builtin.isBuiltin e.name.text = false) {n : String}
    (hn : n ∈ d.typeNames) : n ∈ s.mentions d := by
  obtain ⟨x, hx, hn⟩ := Document.mem_typeNames.mp hn
  exact mem_mentions_of_effective (List.nodup_append.mp hf.unique).1 (hf.effective hb hx) hn

end Fits

end Snapshot

end SchemaGraph
