import Mathlib.Data.Nat.Find
import SchemaGraph.Proofs.Growth

namespace SchemaGraph

theorem record?_eq_none_of_two {vs : List Variant} (h : 2 ≤ vs.length) : record? vs = none := by
  match vs with
  | _ :: _ :: _ => rfl

namespace Variant

structure IsMap (vs : List Variant) : Prop where
  names : (vs.map name).Nodup
  fields : ∀ v ∈ vs, (v.fields.map InputValue.name).Nodup

instance : DecidablePred IsMap := fun vs =>
  decidable_of_iff ((vs.map name).Nodup ∧ ∀ v ∈ vs, (v.fields.map InputValue.name).Nodup)
    ⟨fun h => ⟨h.1, h.2⟩, fun h => ⟨h.names, h.fields⟩⟩

theorem isMap_nil : IsMap [] := ⟨List.nodup_nil, by simp⟩

theorem isMap_placeAll (s : Scope) (ds : List VariantDef) : IsMap (placeAll s ds) := by
  refine ⟨Keyed.nodup_ofList name _, fun v hv => ?_⟩
  obtain ⟨d, -, rfl⟩ := List.mem_map.mp (Keyed.mem_of_mem_ofList name hv)
  exact Keyed.nodup_ofList InputValue.name _

theorem IsMap.move {vs : List Variant} (h : IsMap vs) (s : Scope) : IsMap (vs.map (move s)) where
  names := by
    rw [List.map_map]
    exact h.names
  fields := by
    intro v hv
    obtain ⟨w, hw, rfl⟩ := List.mem_map.mp hv
    have hn := h.fields w hw
    rwa [Variant.move, List.map_map]

theorem mergeStep_of_none {acc : List Variant} (h : record? acc = none) (added : List Variant) :
    mergeStep acc added = Keyed.lastWriteWins name acc added := by
  rw [mergeStep, h]

theorem mergeStep_of_fields {v : Variant} (h : v.fields ≠ []) (added : List Variant) :
    mergeStep [v] added =
      [{ v with fields := Keyed.lastWriteWins InputValue.name v.fields (added.flatMap fields) }] := by
  rw [mergeStep, record?_eq_some_iff.mpr ⟨rfl, h⟩]

theorem IsMap.lastWriteWins {base added : List Variant} (hb : IsMap base)
    (ha : ∀ v ∈ added, (v.fields.map InputValue.name).Nodup) :
    IsMap (Keyed.lastWriteWins name base added) := by
  refine ⟨Keyed.nodup_ofList name _, fun v hv => ?_⟩
  rcases Keyed.mem_of_mem_lastWriteWins name hv with hv | hv
  · exact hb.fields v hv
  · exact ha v hv

theorem IsMap.mergeStep {acc added : List Variant} (hc : IsMap acc) (ha : IsMap added) :
    IsMap (mergeStep acc added) := by
  cases hr : record? acc with
  | none =>
      rw [mergeStep_of_none hr]
      exact hc.lastWriteWins ha.fields
  | some v =>
      obtain ⟨rfl, hv⟩ := record?_eq_some_iff.mp hr
      rw [mergeStep_of_fields hv]
      refine ⟨by simp, fun w hw => ?_⟩
      rw [List.mem_singleton.mp hw]
      exact Keyed.nodup_ofList InputValue.name _

theorem IsMap.mergeVariants {base : List Variant} {fragments : List (List Variant)}
    (hb : IsMap base) (hf : ∀ f ∈ fragments, IsMap f) : IsMap (mergeVariants base fragments) := by
  induction fragments generalizing base with
  | nil => exact hb
  | cons f fs ih =>
      obtain ⟨hf, hfs⟩ := List.forall_mem_cons.mp hf
      exact ih (hb.mergeStep hf) hfs

theorem names_prefix_mergeStep {acc : List Variant} (h : IsMap acc) (added : List Variant) :
    acc.map name <+: (mergeStep acc added).map name := by
  cases hr : record? acc with
  | none =>
      rw [mergeStep_of_none hr, Keyed.keys_lastWriteWins name h.names]
      exact List.prefix_append ..
  | some v =>
      obtain ⟨rfl, hv⟩ := record?_eq_some_iff.mp hr
      rw [mergeStep_of_fields hv]
      exact List.prefix_rfl

theorem names_prefix_mergeVariants {base : List Variant} {fragments : List (List Variant)}
    (hb : IsMap base) (hf : ∀ f ∈ fragments, IsMap f) :
    base.map name <+: (mergeVariants base fragments).map name := by
  induction fragments generalizing base with
  | nil => exact List.prefix_rfl
  | cons f fs ih =>
      obtain ⟨hf, hfs⟩ := List.forall_mem_cons.mp hf
      exact (names_prefix_mergeStep hb f).trans (ih (hb.mergeStep hf) hfs)

theorem mergeVariants_concat (base : List Variant) (fs : List (List Variant)) (f : List Variant) :
    mergeVariants base (fs ++ [f]) = mergeStep (mergeVariants base fs) f :=
  mergeVariants_append base fs [f]

theorem lastWriteWins_fields_ne_nil {xs : List InputValue} (h : xs ≠ []) (ys : List InputValue) :
    Keyed.lastWriteWins InputValue.name xs ys ≠ [] := by
  obtain ⟨x, hx⟩ := List.exists_mem_of_ne_nil xs h
  intro he
  have hm : x.name ∈ (Keyed.lastWriteWins InputValue.name xs ys).map InputValue.name :=
    (Keyed.mem_keys_lastWriteWins InputValue.name).mpr (Or.inl (List.mem_map_of_mem hx))
  simp [he] at hm

theorem mergeVariants_of_fields {v : Variant} (h : v.fields ≠ [])
    (hn : (v.fields.map InputValue.name).Nodup) (fragments : List (List Variant)) :
    mergeVariants [v] fragments = [{ v with
      fields := Keyed.lastWriteWins InputValue.name v.fields (fragments.flatten.flatMap fields) }] := by
  induction fragments using List.reverseRecOn with
  | nil =>
      simp [mergeVariants, Keyed.lastWriteWins, Keyed.ofList_of_nodup InputValue.name hn]
  | append_singleton fs f ih =>
      rw [mergeVariants_concat, ih, mergeStep_of_fields (lastWriteWins_fields_ne_nil h _),
        Keyed.lastWriteWins_lastWriteWins]
      simp

def byName (base : List Variant) (fragments : List (List Variant)) (k : Nat) : List Variant :=
  Keyed.lastWriteWins name base (fragments.take k).flatten

theorem mergeVariants_eq_byName {base : List Variant} (hb : IsMap base)
    {fragments : List (List Variant)}
    (h : ∀ k < fragments.length, record? (byName base fragments k) = none) :
    mergeVariants base fragments = byName base fragments fragments.length := by
  induction fragments using List.reverseRecOn with
  | nil => simp [mergeVariants, byName, Keyed.lastWriteWins, Keyed.ofList_of_nodup name hb.names]
  | append_singleton fs f ih =>
      have hbefore : ∀ k ≤ fs.length, byName base (fs ++ [f]) k = byName base fs k := by
        intro k hk
        simp [byName, List.take_append_of_le_length hk]
      have hfs : mergeVariants base fs = byName base fs fs.length := by
        refine ih fun k hk => ?_
        rw [← hbefore k (by omega)]
        exact h k (by simp; omega)
      have hlast := h fs.length (by simp)
      rw [hbefore _ le_rfl] at hlast
      have hall : (fs ++ [f]).take (fs ++ [f]).length = fs ++ [f] := List.take_length
      rw [mergeVariants_concat, hfs, mergeStep_of_none hlast, byName, byName, hall]
      simp [Keyed.lastWriteWins_lastWriteWins]

/-- After `k` fragments, and not before, merging by name has made a record, of the variant `v`. -/
structure SettlesAt (base : List Variant) (fragments : List (List Variant)) (k : Nat)
    (v : Variant) : Prop where
  le : k ≤ fragments.length
  record : record? (byName base fragments k) = some v
  least : ∀ j < k, record? (byName base fragments j) = none

theorem exists_settlesAt {base : List Variant} {fragments : List (List Variant)} {k : Nat}
    {v : Variant} (hk : k ≤ fragments.length) (hv : record? (byName base fragments k) = some v) :
    ∃ k v, SettlesAt base fragments k v := by
  have h : ∃ k, (record? (byName base fragments k)).isSome := ⟨k, by simp [hv]⟩
  obtain ⟨w, hw⟩ := Option.isSome_iff_exists.mp (Nat.find_spec h)
  have hle : Nat.find h ≤ k := Nat.find_min' h (Option.isSome_of_eq_some hv)
  refine ⟨Nat.find h, w, by omega, hw, fun j hj => ?_⟩
  simpa using Nat.find_min h hj

theorem SettlesAt.mergeVariants {base : List Variant} {fragments : List (List Variant)} {k : Nat}
    {v : Variant} (h : SettlesAt base fragments k v) (hb : IsMap base)
    (hf : ∀ f ∈ fragments, IsMap f) :
    mergeVariants base fragments = [{ v with
      fields := Keyed.lastWriteWins InputValue.name v.fields
        ((fragments.drop k).flatten.flatMap fields) }] := by
  obtain ⟨heq, hv⟩ := record?_eq_some_iff.mp h.record
  have htake : ∀ j ≤ k, byName base (fragments.take k) j = byName base fragments j := by
    intro j hj
    rw [byName, List.take_take, Nat.min_eq_left hj, byName]
  have hlength : (fragments.take k).length = k := List.length_take_of_le h.le
  have hmap : IsMap (byName base fragments k) := by
    refine hb.lastWriteWins fun w hw => ?_
    obtain ⟨f, hm, hw⟩ := List.mem_flatten.mp hw
    exact (hf f (List.mem_of_mem_take hm)).fields w hw
  have hfirst : SchemaGraph.mergeVariants base (fragments.take k) = [v] := by
    rw [mergeVariants_eq_byName hb, hlength, htake k le_rfl, heq]
    intro j hj
    rw [hlength] at hj
    rw [htake j (by omega)]
    exact h.least j hj
  have hn : (v.fields.map InputValue.name).Nodup := hmap.fields v (by simp [heq])
  conv_lhs => rw [← List.take_append_drop k fragments]
  rw [mergeVariants_append, hfirst, mergeVariants_of_fields hv hn]

theorem mergeVariants_closed_form {base : List Variant} {fragments : List (List Variant)}
    (hb : IsMap base) (hf : ∀ f ∈ fragments, IsMap f) :
    ((∀ k ≤ fragments.length, record? (byName base fragments k) = none) ∧
        mergeVariants base fragments = byName base fragments fragments.length ∨
      ∃ k v, SettlesAt base fragments k v ∧ byName base fragments k = [v] ∧
        mergeVariants base fragments = [{ v with
          fields := Keyed.lastWriteWins InputValue.name v.fields
            ((fragments.drop k).flatten.flatMap fields) }]) ∧
    (∀ v, record? base = some v →
      ∃ w, record? (mergeVariants base fragments) = some w ∧ w.name = v.name) ∧
    (2 ≤ base.length → 2 ≤ (mergeVariants base fragments).length ∧
      record? (mergeVariants base fragments) = none) ∧
    base.map name <+: (mergeVariants base fragments).map name := by
  have hnames := names_prefix_mergeVariants hb hf
  refine ⟨?_, fun v hv => ?_, fun htwo => ?_, hnames⟩
  · by_cases h : ∀ k ≤ fragments.length, record? (byName base fragments k) = none
    · exact Or.inl ⟨h, mergeVariants_eq_byName hb fun k hk => h k (by omega)⟩
    · simp only [not_forall] at h
      obtain ⟨k, hk, hr⟩ := h
      obtain ⟨v, hv⟩ := Option.ne_none_iff_exists'.mp hr
      obtain ⟨k, v, hs⟩ := exists_settlesAt hk hv
      exact Or.inr ⟨k, v, hs, (record?_eq_some_iff.mp hs.record).1, hs.mergeVariants hb hf⟩
  · obtain ⟨rfl, hfields⟩ := record?_eq_some_iff.mp hv
    rw [mergeVariants_of_fields hfields (hb.fields v (by simp))]
    exact ⟨_, record?_eq_some_iff.mpr ⟨rfl, lastWriteWins_fields_ne_nil hfields _⟩, rfl⟩
  · have hlength := hnames.length_le
    simp only [List.length_map] at hlength
    exact ⟨by omega, record?_eq_none_of_two (by omega)⟩

end Variant

namespace Toys

def toy (name : String) (fields : List InputDef) : Variant :=
  Variant.place Builtin.scope ⟨Builtin.ident name, none, [], fields, .nowhere⟩

def balls : List Variant := [toy "Ball" []]

-- Declared again with a field, the one tag is a record, to which a rope adds its length.
def declared : List (List Variant) := [
  [toy "Ball" [Builtin.input "size" "Int" none]],
  [toy "Rope" [Builtin.input "length" "Int" none], toy "Ball" [Builtin.input "size" "Float" none]]]

theorem balls_settle : Variant.IsMap balls ∧ (∀ f ∈ declared, Variant.IsMap f) ∧
    (∃ k v, Variant.SettlesAt balls declared k v ∧ mergeVariants balls declared = [{ v with
      fields := Keyed.lastWriteWins InputValue.name v.fields
        ((declared.drop k).flatten.flatMap Variant.fields) }]) ∧
    (mergeVariants balls declared).map (fun v => (v.name, v.fields.map InputValue.name)) =
      [("Ball", ["size", "length"])] := by
  have hb : Variant.IsMap balls := by decide
  have hf : ∀ f ∈ declared, Variant.IsMap f := by decide
  have hone : (record? (Variant.byName balls declared 1)).isSome := by decide
  obtain ⟨k, v, hs, -, hm⟩ := (Variant.mergeVariants_closed_form hb hf).1.resolve_left fun h => by
    simp [h.1 1 (by decide)] at hone
  exact ⟨hb, hf, ⟨k, v, hs, hm⟩, by decide⟩

end Toys

end SchemaGraph
