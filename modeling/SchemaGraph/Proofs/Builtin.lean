import SchemaGraph.Proofs.Extension

namespace SchemaGraph

namespace Scope

def Gives (s : Scope) (r : Ref) : Prop := s.knows r.name = true ∧ r = s.ref r.name

theorem gives_ref {s : Scope} {n : String} (h : s.knows n = true) : s.Gives (s.ref n) := ⟨h, rfl⟩

end Scope

theorem NamedType.gives_of_build {s : Scope} {d : TypeDef} {extensions : List TypeDef} {t : NamedType}
    (h : build s d extensions = .ok t) : ∀ r ∈ t.refs, s.Gives r := by
  rw [build_eq_guard, s.guard_eq_ok_iff] at h
  obtain ⟨hk, rfl⟩ := h
  intro r hr
  obtain ⟨n, hn, rfl⟩ := Body.exists_of_mem_refs_grow hr
  exact Scope.gives_ref (hk n hn)

namespace Builtin

theorem names_types : types.map NamedType.name = scalarNames ++ introspectionNames := by
  decide +kernel

theorem isBuiltin_iff_mem_names {n : String} : isBuiltin n = true ↔ n ∈ types.map NamedType.name := by
  rw [names_types, List.mem_append, isBuiltin, isScalar, isIntrospection, Bool.or_eq_true,
    List.contains_iff_mem, List.contains_iff_mem]

theorem isBuiltin_of_type? {n : String} {t : NamedType} (h : type? n = some t) : isBuiltin n = true := by
  refine isBuiltin_iff_mem_names.mpr ?_
  rw [← Keyed.key_of_get? _ h]
  exact List.mem_map_of_mem (Keyed.mem_of_get? _ h)

theorem isBuiltin_of_introspection {n : String} (h : n ∈ introspectionNames) : isBuiltin n = true := by
  rw [isBuiltin, isIntrospection, List.contains_iff_mem.mpr h, Bool.or_true]

theorem exists_type? {n : String} (h : isBuiltin n = true) : ∃ t, type? n = some t :=
  Keyed.exists_get?_of_mem_keys _ (isBuiltin_iff_mem_names.mp h)

theorem type?_eq_none_iff {n : String} : type? n = none ↔ isBuiltin n = false := by
  rw [← Bool.not_eq_true, isBuiltin_iff_mem_names]
  exact Keyed.get?_eq_none_iff _

theorem name_of_type? {n : String} {t : NamedType} (h : type? n = some t) : t.name = n :=
  Keyed.key_of_get? _ h

theorem mem_built {α β : Type} {f : α → Except SchemaError β} {xs : List α} {b : β}
    (h : b ∈ built f xs) : ∃ a ∈ xs, f a = .ok b := by
  obtain ⟨a, ha, hb⟩ := List.mem_filterMap.mp h
  cases hf : f a with
  | error e => exact absurd hb (by simp [hf, Except.toOption])
  | ok c => exact ⟨a, ha, by simpa [hf, Except.toOption] using hb⟩

theorem knows_scope {n : String} : scope.knows n = isBuiltin n := Bool.or_false _

theorem gives_of_mem_refs {t : NamedType} (ht : t ∈ types) : ∀ r ∈ t.refs, scope.Gives r := by
  rcases List.mem_append.mp ht with h | h
  · obtain ⟨d, -, hd⟩ := mem_built h
    exact NamedType.gives_of_build hd
  · obtain ⟨d, -, hd⟩ := mem_built h
    exact NamedType.gives_of_build hd

theorem builtin_of_mem_arguments {d : Directive} (hd : d ∈ directives) {a : InputValue}
    (ha : a ∈ d.arguments) : isBuiltin a.type.leaf.name = true ∧ a.type.leaf.home = .builtin := by
  obtain ⟨x, -, hx⟩ := mem_built hd
  rw [Directive.build_eq_guard, Scope.guard_eq_ok_iff] at hx
  obtain ⟨hk, rfl⟩ := hx
  obtain ⟨n, hn, he⟩ := InputValue.leaf_of_mem_placeAll ha
  rw [List.map_map] at hk
  have hb : isBuiltin n = true := knows_scope.symm.trans (hk n hn)
  rw [he]
  exact ⟨hb, if_pos hb⟩

end Builtin

end SchemaGraph
