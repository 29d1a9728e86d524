import SchemaGraph.Proofs.Alike
import SchemaGraph.Proofs.Concat

namespace SchemaGraph

namespace Seed

theorem entry_ofType_entry (s s' : Scope) (t : NamedType) (old new : List TypeDef) :
    (ofType ((ofType t).entry s old)).entry s' new = (ofType t).entry s' (old ++ new) := by
  cases hb : Builtin.type? t.name with
  | some b =>
      have hb' : Builtin.type? b.name = some b := by rw [Builtin.name_of_type? hb, hb]
      simp only [ofType, hb, entry, hb']
  | none =>
      have hg : Builtin.type? (t.grow s old).name = none := hb
      simp only [ofType, hb, entry, hg, NamedType.grow_grow]

theorem entry_ofType_place (s s' : Scope) {d : TypeDef} (hd : Builtin.isBuiltin d.name.text = false)
    (old new : List TypeDef) :
    (ofType (NamedType.place s d old)).entry s' new = NamedType.place s' d (old ++ new) := by
  have hb : Builtin.type? (NamedType.place s d old).name = none := Builtin.type?_eq_none_iff.mpr hd
  simp only [ofType, hb, entry, NamedType.grow_place]

@[simp] theorem bare_entry_ofType (s : Scope) (t : NamedType) (extensions : List TypeDef) :
    ((ofType t).entry s extensions).bare = ((ofType t).entry Builtin.scope extensions).bare := by
  unfold ofType
  cases Builtin.type? t.name with
  | some b => rfl
  | none => rw [entry, NamedType.bare_grow, entry, NamedType.bare_grow]

end Seed

namespace Roots

@[simp] theorem move_move (s s' : Scope) (r : Roots) : (r.move s).move s' = r.move s' := by
  simp [move, Function.comp_def]

theorem move_set (s : Scope) (r : Roots) (root : Option Ref) (o : Operation) :
    (r.set root o).move s = (r.move s).set (root.map s.move) o := by
  cases o <;> rfl

theorem move_declared (s s' : Scope) (r : Roots) (ops : List OperationDef) :
    (r.declared s ops).move s' = (r.move s').declared s' ops := by
  unfold declared
  induction ops generalizing r with
  | nil => rfl
  | cons op ops ih =>
      rw [List.foldl_cons, ih, move_set]
      rfl

theorem declared_append (s : Scope) (r : Roots) (ops ops' : List OperationDef) :
    r.declared s (ops ++ ops') = (r.declared s ops).declared s ops' :=
  List.foldl_append

end Roots

namespace Directive

@[simp] theorem bare_carried (s : Scope) (d : Directive) :
    (d.carried s).move Builtin.scope = d.move Builtin.scope := by
  unfold carried
  split
  · rfl
  · exact move_move s Builtin.scope d

end Directive

namespace Snapshot

variable {s : Snapshot} {a b d : Document} {o : Options}

theorem Fits.types_extended (hf : s.Fits d) : (s.extended d o).registry.types =
    s.registry.types.map (fun t => (Seed.ofType t).entry (s.nextScope d) (d.extensionsOf t.name)) ++
      d.types.map fun x => NamedType.place (s.nextScope d) x (d.extensionsOf x.name.text) := by
  rw [registry_extended, Registry.extended, hf.seeds_eq, List.map_append, List.map_map, List.map_map]
  refine congrArg₂ _ (List.map_congr_left fun t _ => ?_) rfl
  rw [Function.comp_apply, Seed.name_ofType]
  rfl

theorem Fits.names_extended (hf : s.Fits d) :
    (s.extended d o).registry.names = s.registry.names ++ d.types.map (·.name.text) := by
  rw [Registry.names, hf.types_extended, List.map_append, List.map_map, List.map_map, Registry.names]
  refine congrArg₂ _ (List.map_congr_left fun t _ => ?_) rfl
  rw [Function.comp_apply, Seed.name_entry, Seed.name_ofType]

theorem Fits.extensionsOf_eq_nil (hf : s.Fits d) {n : String} (hb : Builtin.isBuiltin n = false)
    (hn : n ∉ s.registry.names ++ d.types.map (·.name.text)) : d.extensionsOf n = [] := by
  refine List.eq_nil_iff_forall_not_mem.mpr fun e he => hn ?_
  obtain ⟨hm, rfl⟩ := Document.mem_extensionsOf.mp he
  rcases hf.exists_target hm hb with ⟨t, ht, hname, -⟩ | ⟨x, hx, hname, -⟩
  · exact List.mem_append_left _ (hname ▸ List.mem_map_of_mem ht)
  · exact List.mem_append_right _ (hname ▸ List.mem_map_of_mem hx)

theorem lookup_of_custom {n : String} (hb : Builtin.isBuiltin n = false) :
    s.registry.lookup n = s.registry.get? n := by
  rw [Registry.lookup, Builtin.type?_eq_none_iff.mpr hb, Option.none_or]

theorem Fits.targetKind?_of_mem_types (hf : s.Fits d) {x : TypeDef} (hx : x ∈ d.types) :
    s.targetKind? d x.name.text = some x.kind := by
  rw [targetKind?, ← Document.definition?, hf.definition?_of_mem hx, Option.map_some, Option.some_or]

theorem targetKind?_of_not_mem_types {n : String} (hn : n ∉ d.types.map (·.name.text)) :
    s.targetKind? d n = (s.registry.lookup n).map NamedType.kind := by
  rw [targetKind?, ← Document.definition?, Document.definition?_eq_none_iff.mpr hn, Option.map_none,
    Option.none_or]

theorem Fits.get?_extended_of_type (hf : s.Fits d) {x : TypeDef} (hx : x ∈ d.types) :
    (s.extended d o).registry.get? x.name.text =
      some (NamedType.place (s.nextScope d) x (d.extensionsOf x.name.text)) := by
  rw [registry_extended, Registry.get?_extended_of_custom (List.nodup_append.mp hf.unique).1 _
    (hf.custom x hx), hf.definition?_of_mem hx, Option.map_some, Option.some_or]
  rfl

theorem Fits.get?_extended_of_get? (hf : s.Fits d) {n : String} (hb : Builtin.isBuiltin n = false)
    (hn : n ∉ d.types.map (·.name.text)) : (s.extended d o).registry.get? n =
      (s.registry.get? n).map fun t => t.grow (s.nextScope d) (d.extensionsOf n) := by
  rw [registry_extended, Registry.get?_extended_of_custom (List.nodup_append.mp hf.unique).1 _ hb,
    Document.definition?_eq_none_iff.mpr hn, Option.map_none, Option.none_or]
  rfl

theorem Fits.kind_lookup_extended (hf : s.Fits d) (n : String) :
    ((s.extended d o).registry.lookup n).map NamedType.kind = s.targetKind? d n := by
  cases hb : Builtin.isBuiltin n with
  | true =>
      have hn : n ∉ d.types.map (·.name.text) := by
        intro hm
        obtain ⟨x, hx, rfl⟩ := List.mem_map.mp hm
        exact nomatch (hf.custom x hx).symm.trans hb
      obtain ⟨t, ht⟩ := Builtin.exists_type? hb
      rw [targetKind?_of_not_mem_types hn, Registry.lookup, Registry.lookup, ht, Option.some_or,
        Option.some_or]
  | false =>
      rw [lookup_of_custom hb]
      by_cases hn : n ∈ d.types.map (·.name.text)
      · obtain ⟨x, hx, rfl⟩ := List.mem_map.mp hn
        rw [hf.get?_extended_of_type hx, hf.targetKind?_of_mem_types hx, Option.map_some,
          NamedType.kind_place]
      · rw [targetKind?_of_not_mem_types hn, lookup_of_custom hb, hf.get?_extended_of_get? hb hn,
          Option.map_map]
        exact Option.map_congr fun t _ => NamedType.kind_grow _ t _

structure FitsInTurn (s : Snapshot) (a b : Document) (o : Options) : Prop where
  first : s.Fits a
  second : (s.extended a o).Fits b
  schema : Document.OneSchema a b

namespace FitsInTurn

variable (h : s.FitsInTurn a b o)
include h

theorem unique_concat :
    (s.registry.names ++ (Document.concat [a, b]).types.map (·.name.text)).Nodup := by
  have hu := h.second.unique
  rw [h.first.names_extended, List.append_assoc, ← List.map_append, ← Document.types_concat] at hu
  exact hu

theorem custom_concat :
    ∀ x ∈ (Document.concat [a, b]).types, Builtin.isBuiltin x.name.text = false := by
  rw [Document.types_concat]
  exact List.forall_mem_append.mpr ⟨h.first.custom, h.second.custom⟩

theorem extensionsOf_concat_of_second {x : TypeDef} (hx : x ∈ b.types) :
    (Document.concat [a, b]).extensionsOf x.name.text = b.extensionsOf x.name.text := by
  rw [Document.extensionsOf_concat, h.first.extensionsOf_eq_nil (h.second.custom x hx), List.nil_append]
  rw [← h.first.names_extended (o := o)]
  intro hm
  exact (List.nodup_append.mp h.second.unique).2.2 _ hm _ (List.mem_map_of_mem hx) rfl

theorem types_in_turn : ((s.extended a o).extended b o).registry.types =
    s.registry.types.map (fun t => (Seed.ofType t).entry ((s.extended a o).nextScope b)
      ((Document.concat [a, b]).extensionsOf t.name)) ++
    (Document.concat [a, b]).types.map fun x => NamedType.place ((s.extended a o).nextScope b) x
      ((Document.concat [a, b]).extensionsOf x.name.text) := by
  rw [h.second.types_extended, h.first.types_extended, Document.types_concat, List.map_append,
    List.map_append, List.map_map, List.map_map, List.append_assoc]
  refine congrArg₂ _ (List.map_congr_left fun t _ => ?_)
    (congrArg₂ _ (List.map_congr_left fun x hx => ?_) (List.map_congr_left fun x hx => ?_))
  · rw [Function.comp_apply, Seed.entry_ofType_entry, Seed.name_entry, Seed.name_ofType,
      Document.extensionsOf_concat]
  · rw [Function.comp_apply, Seed.entry_ofType_place _ _ (h.first.custom x hx),
      Document.extensionsOf_concat]
    rfl
  · rw [h.extensionsOf_concat_of_second hx]

theorem schemas_concat : (Document.concat [a, b]).schemas.length ≤ 1 := by
  rw [Document.schemas_concat]
  rcases h.schema with hb | ⟨ha, -⟩
  · rw [hb, List.append_nil]
    exact h.first.schemas
  · rw [ha, List.nil_append]
    exact h.second.schemas

theorem targetKind?_concat (n : String) :
    s.targetKind? (Document.concat [a, b]) n = (s.extended a o).targetKind? b n := by
  rw [targetKind?, Document.types_concat, List.filter_append, List.getLast?_append, Option.map_or,
    Option.or_assoc, targetKind?, h.first.kind_lookup_extended, targetKind?]

theorem targetKind?_second {n : String} {k : Kind} (hk : s.targetKind? a n = some k) :
    (s.extended a o).targetKind? b n = some k := by
  rw [← h.first.kind_lookup_extended (o := o)] at hk
  rw [targetKind?_of_not_mem_types, hk]
  intro hm
  obtain ⟨x, hx, rfl⟩ := List.mem_map.mp hm
  obtain ⟨t, ht, -⟩ := Option.map_eq_some_iff.mp hk
  rw [lookup_of_custom (h.second.custom x hx)] at ht
  have hn : x.name.text ∈ (s.extended a o).registry.names :=
    Keyed.key_of_get? NamedType.name ht ▸ List.mem_map_of_mem (Keyed.mem_of_get? _ ht)
  exact (List.nodup_append.mp h.second.unique).2.2 _ hn _ hm rfl

theorem concat : s.Fits (Document.concat [a, b]) where
  custom := h.custom_concat
  unique := h.unique_concat
  schemas := h.schemas_concat
  targets := by
    intro e he
    rw [h.targetKind?_concat]
    rw [Document.typeExtensions_concat] at he
    rcases List.mem_append.mp he with hm | hm
    · exact h.targetKind?_second (h.first.targets e hm)
    · exact h.second.targets e hm

theorem alike : (s.extended (Document.concat [a, b]) o).Alike ((s.extended a o).extended b o) where
  description := h.schema.description_concat s.description
  types := by
    rw [h.types_in_turn, h.concat.types_extended]
    simp only [List.map_append, List.map_map, Function.comp_def, NamedType.bare_place]
    refine congrArg₂ _ (List.map_congr_left fun t _ => ?_) rfl
    rw [Seed.bare_entry_ofType, ← Seed.bare_entry_ofType ((s.extended a o).nextScope b)]
  roots := by
    simp only [extended, Roots.move_declared, Roots.move_move, ← Roots.declared_append,
      h.schema.operations_concat]
  directives := by
    simp only [extended, List.map_append, List.map_map, Function.comp_def, Directive.bare_carried,
      Directive.move_place, Document.directives_concat, List.append_assoc]
  remarks := rfl
  node := by
    simp only [extended, Document.schema?_concat, Option.or_assoc]
  extensions := by
    simp only [extended, Document.schemaExtensions_concat, List.append_assoc]
  assumeValid := rfl

end FitsInTurn

end Snapshot

end SchemaGraph
