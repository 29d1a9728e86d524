import SchemaGraph.Proofs.Placement

namespace SchemaGraph

theorem record?_eq_some_iff {vs : List Variant} {v : Variant} :
    record? vs = some v ↔ vs = [v] ∧ v.fields ≠ [] := by
  match vs with
  | [] => simp [record?]
  | [w] =>
      cases hw : w.fields <;> simp [record?, hw] <;> rintro rfl <;> simp [hw]
  | _ :: _ :: _ => simp [record?]

namespace Variant

theorem record?_map_move (s : Scope) (vs : List Variant) :
    record? (vs.map (move s)) = (record? vs).map (move s) := by
  match vs with
  | [] => rfl
  | [v] => cases hv : v.fields <;> simp [record?, move, hv]
  | _ :: _ :: _ => rfl

theorem map_mergeStep (s : Scope) (acc added : List Variant) :
    (mergeStep acc added).map (move s) = mergeStep (acc.map (move s)) (added.map (move s)) := by
  unfold mergeStep
  rw [record?_map_move]
  cases record? acc with
  | none => exact Keyed.map_lastWriteWins name (name_move s) acc added
  | some v =>
      have hf : (added.map (move s)).flatMap fields = (added.flatMap fields).map (InputValue.move s) := by
        rw [List.flatMap_map, List.map_flatMap]
        rfl
      simp only [Option.map_some, List.map_singleton, hf]
      rw [move, Keyed.map_lastWriteWins InputValue.name (InputValue.name_move s)]
      rfl

theorem map_mergeVariants (s : Scope) (base : List Variant) (fragments : List (List Variant)) :
    (mergeVariants base fragments).map (move s) =
      mergeVariants (base.map (move s)) (fragments.map (List.map (move s))) := by
  induction fragments generalizing base with
  | nil => rfl
  | cons f fs ih => exact (ih (mergeStep base f)).trans (by rw [map_mergeStep]; rfl)

theorem mergeVariants_append (base : List Variant) (fs gs : List (List Variant)) :
    mergeVariants base (fs ++ gs) = mergeVariants (mergeVariants base fs) gs :=
  List.foldl_append

theorem mem_fields_mergeStep {acc added : List Variant} {a : InputValue}
    (h : a ∈ (mergeStep acc added).flatMap fields) :
    a ∈ acc.flatMap fields ∨ a ∈ added.flatMap fields := by
  unfold mergeStep at h
  cases hr : record? acc with
  | none =>
      rw [hr] at h
      obtain ⟨v, hv, ha⟩ := List.mem_flatMap.mp h
      exact (Keyed.mem_of_mem_lastWriteWins name hv).imp
        (fun hm => List.mem_flatMap.mpr ⟨v, hm, ha⟩) (fun hm => List.mem_flatMap.mpr ⟨v, hm, ha⟩)
  | some v =>
      obtain ⟨hv, -⟩ := record?_eq_some_iff.mp hr
      rw [hr] at h
      rw [List.flatMap_singleton] at h
      rw [hv, List.flatMap_singleton]
      exact Keyed.mem_of_mem_lastWriteWins InputValue.name h

theorem mem_fields_mergeVariants {base : List Variant} {fragments : List (List Variant)}
    {a : InputValue} (h : a ∈ (mergeVariants base fragments).flatMap fields) :
    a ∈ base.flatMap fields ∨ ∃ f ∈ fragments, a ∈ f.flatMap fields := by
  induction fragments generalizing base with
  | nil => exact Or.inl h
  | cons f fs ih =>
      rcases ih h with hb | ⟨g, hg, ha⟩
      · rcases mem_fields_mergeStep hb with hb | hf
        · exact Or.inl hb
        · exact Or.inr ⟨f, List.mem_cons_self, hf⟩
      · exact Or.inr ⟨g, List.mem_cons_of_mem _ hg, ha⟩

end Variant

namespace Body

variable (s s' : Scope)

def growFields (fields : List Field) (declared : List TypeDef) : List Field :=
  Keyed.lastWriteWins Field.name (fields.map (Field.move s))
    ((declared.flatMap (·.body.fields)).map (Field.place s))

def growRefs (refs : List Ref) (declared : List Ident) : List Ref :=
  Keyed.append (refs.map s.move) (declared.map s.place)

def growVariants (variants : List Variant) (declared : List TypeDef) : List Variant :=
  mergeVariants (variants.map (Variant.move s)) (declared.map fun d => Variant.placeAll s d.body.variants)

def grow (declared : List TypeDef) : Body → Body
  | .scalar url => .scalar (Keyed.lastDeclared url
      (declared.map fun d => Applied.specifiedBy? d.directives))
  | .object fields interfaces => .object (growFields s fields declared)
      (growRefs s interfaces (declared.flatMap (·.body.interfaces)))
  | .interface fields interfaces => .interface (growFields s fields declared)
      (growRefs s interfaces (declared.flatMap (·.body.interfaces)))
  | .union members => .union (growRefs s members (declared.flatMap (·.body.members)))
  | .data variants => .data (growVariants s variants declared)

def move : Body → Body
  | .scalar url => .scalar url
  | .object fields interfaces => .object (fields.map (Field.move s)) (interfaces.map s.move)
  | .interface fields interfaces => .interface (fields.map (Field.move s)) (interfaces.map s.move)
  | .union members => .union (members.map s.move)
  | .data variants => .data (variants.map (Variant.move s))

@[simp] theorem kind_grow (declared : List TypeDef) (b : Body) : (b.grow s declared).kind = b.kind := by
  cases b <;> rfl

theorem map_move_growFields (fields : List Field) (declared : List TypeDef) :
    (growFields s fields declared).map (Field.move s') = growFields s' fields declared := by
  rw [growFields, Keyed.map_lastWriteWins Field.name (Field.name_move s'), List.map_map,
    List.map_map, growFields]
  congr 2
  · funext f
    exact Field.move_move s s' f
  · funext d
    exact Field.move_place s s' d

theorem map_move_growRefs (refs : List Ref) (declared : List Ident) :
    (growRefs s refs declared).map s'.move = growRefs s' refs declared := by
  rw [growRefs, Keyed.append, List.map_append, List.map_map, List.map_map]
  rfl

theorem map_move_growVariants (variants : List Variant) (declared : List TypeDef) :
    (growVariants s variants declared).map (Variant.move s') = growVariants s' variants declared := by
  rw [growVariants, Variant.map_mergeVariants, List.map_map, List.map_map, growVariants]
  congr 2
  · funext v
    exact Variant.move_move s s' v
  · funext d
    exact Variant.map_move_placeAll s s' d.body.variants

theorem move_grow (declared : List TypeDef) (b : Body) :
    (b.grow s declared).move s' = b.grow s' declared := by
  cases b <;> simp only [grow, move, map_move_growFields, map_move_growRefs, map_move_growVariants]

theorem growFields_growFields (fields : List Field) (old new : List TypeDef) :
    growFields s' (growFields s fields old) new = growFields s' fields (old ++ new) := by
  rw [growFields, map_move_growFields, growFields, Keyed.lastWriteWins_lastWriteWins, ← List.map_append,
    ← List.flatMap_append, growFields]

theorem growRefs_growRefs (refs : List Ref) (old new : List Ident) :
    growRefs s' (growRefs s refs old) new = growRefs s' refs (old ++ new) := by
  rw [growRefs, map_move_growRefs, growRefs, Keyed.append, Keyed.append, List.append_assoc,
    ← List.map_append, growRefs, Keyed.append]

theorem growVariants_growVariants (variants : List Variant) (old new : List TypeDef) :
    growVariants s' (growVariants s variants old) new = growVariants s' variants (old ++ new) := by
  rw [growVariants, map_move_growVariants, growVariants, ← Variant.mergeVariants_append,
    ← List.map_append, growVariants]

theorem grow_grow (old new : List TypeDef) (b : Body) :
    (b.grow s old).grow s' new = b.grow s' (old ++ new) := by
  cases b with
  | scalar url => simp only [grow, Keyed.lastDeclared, List.map_append, List.foldl_append]
  | object fields interfaces =>
      simp only [grow, growFields_growFields, growRefs_growRefs, List.flatMap_append]
  | interface fields interfaces =>
      simp only [grow, growFields_growFields, growRefs_growRefs, List.flatMap_append]
  | union members => simp only [grow, growRefs_growRefs, List.flatMap_append]
  | data variants => simp only [grow, growVariants_growVariants]

end Body

end SchemaGraph
