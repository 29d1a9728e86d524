import SchemaGraph.Proofs.Effect
import SchemaGraph.Proofs.Alike
import SchemaGraph.Proofs.Merging

namespace SchemaGraph

namespace Body

def fields : Body → List Field
  | .object fs _ => fs
  | .interface fs _ => fs
  | _ => []

def interfaces : Body → List Ref
  | .object _ is => is
  | .interface _ is => is
  | _ => []

def members : Body → List Ref
  | .union ms => ms
  | _ => []

end Body

/-- Old entries have the first places in a list, in their order, and those that are not declared
again are the same there but for the registries they point into. -/
structure Kept {α : Type} (key : α → String) (move : Scope → α → α) (declared : List String)
    (old new : List α) : Prop where
  keys : old.map key <+: new.map key
  entries : ∀ (i : Nat) a, old[i]? = some a → key a ∉ declared →
    ∃ b, new[i]? = some b ∧ move Builtin.scope b = move Builtin.scope a

namespace Kept

variable {α : Type} {key : α → String} {move : Scope → α → α} {declared : List String}

theorem nil (new : List α) : Kept key move declared [] new where
  keys := List.nil_prefix
  entries i a h := by simp at h

theorem lastWriteWins (hkey : ∀ sc a, key (move sc a) = key a)
    (hmove : ∀ sc a, move Builtin.scope (move sc a) = move Builtin.scope a) (sc : Scope)
    {old added : List α} (hn : (old.map key).Nodup) (hd : added.map key ⊆ declared) :
    Kept key move declared old (Keyed.lastWriteWins key (old.map (move sc)) added) := by
  have hkeys : (old.map (move sc)).map key = old.map key := by
    rw [List.map_map]
    exact List.map_congr_left fun a _ => hkey sc a
  have hn' : ((old.map (move sc)).map key).Nodup := by rwa [hkeys]
  constructor
  · rw [Keyed.keys_lastWriteWins key hn', hkeys]
    exact List.prefix_append _ _
  · intro i a ha hfree
    refine ⟨move sc a, Keyed.getElem?_lastWriteWins key hn' ?_ ?_, hmove sc a⟩
    · rw [List.getElem?_map, ha, Option.map_some]
    · rw [hkey]
      exact fun hm => hfree (hd hm)

end Kept

namespace Variant

theorem getElem?_mergeStep {acc added : List Variant} {i : Nat} {v : Variant}
    (hn : (acc.map name).Nodup) (hr : record? acc = none) (hv : acc[i]? = some v)
    (hfree : v.name ∉ added.map name) :
    (mergeStep acc added)[i]? = some v ∧ record? (mergeStep acc added) = none := by
  have hstep : mergeStep acc added = Keyed.lastWriteWins name acc added := by rw [mergeStep, hr]
  have hget := Keyed.getElem?_lastWriteWins name hn hv hfree
  rw [hstep]
  refine ⟨hget, ?_⟩
  cases hr' : record? (Keyed.lastWriteWins name acc added) with
  | none => rfl
  | some w =>
      -- a single variant is left, so there was no other one before
      obtain ⟨hone, -⟩ := record?_eq_some_iff.mp hr'
      have hlen := congrArg List.length (Keyed.keys_lastWriteWins name hn added)
      rw [hone, List.length_append, List.length_map, List.length_map, List.length_singleton] at hlen
      have hi : i < acc.length := (List.getElem?_eq_some_iff.mp hv).1
      obtain rfl : i = 0 := by omega
      obtain ⟨u, rfl⟩ := List.length_eq_one_iff.mp (by omega : acc.length = 1)
      rw [hone] at hget
      have hu : u = v := by simpa using hv
      have hw : w = v := by simpa using hget
      rw [hone, hw, ← hu, hr] at hr'
      cases hr'

theorem getElem?_mergeVariants {base : List Variant} {fragments : List (List Variant)} {i : Nat}
    {v : Variant} (hb : IsMap base) (hf : ∀ f ∈ fragments, IsMap f)
    (hr : record? base = none) (hv : base[i]? = some v)
    (hfree : v.name ∉ fragments.flatten.map name) :
    (mergeVariants base fragments)[i]? = some v := by
  induction fragments generalizing base with
  | nil => exact hv
  | cons f fs ih =>
      rw [List.flatten_cons, List.map_append, List.mem_append, not_or] at hfree
      obtain ⟨hfirst, hrest⟩ := List.forall_mem_cons.mp hf
      obtain ⟨hv', hr'⟩ := getElem?_mergeStep hb.names hr hv hfree.1
      exact ih (hb.mergeStep hfirst) hrest hr' hv' hfree.2

end Variant

namespace Body

structure Distinct (b : Body) : Prop where
  fields : (b.fields.map Field.name).Nodup
  variants : Variant.IsMap b.variants

theorem distinct_empty (k : Kind) : (empty k).Distinct := by
  cases k <;> exact ⟨List.nodup_nil, Variant.isMap_nil⟩

theorem isMap_fragments (s : Scope) (declared : List TypeDef) :
    ∀ f ∈ declared.map (fun d => Variant.placeAll s d.body.variants), Variant.IsMap f := by
  intro f hf
  obtain ⟨d, -, rfl⟩ := List.mem_map.mp hf
  exact Variant.isMap_placeAll s _

theorem distinct_grow (s : Scope) {b : Body} (h : b.Distinct) (declared : List TypeDef) :
    (b.grow s declared).Distinct := by
  cases b with
  | scalar url => exact ⟨List.nodup_nil, Variant.isMap_nil⟩
  | object fs is => exact ⟨Keyed.nodup_ofList Field.name _, Variant.isMap_nil⟩
  | interface fs is => exact ⟨Keyed.nodup_ofList Field.name _, Variant.isMap_nil⟩
  | union ms => exact ⟨List.nodup_nil, Variant.isMap_nil⟩
  | data vs =>
      exact ⟨List.nodup_nil, (h.variants.move s).mergeVariants (isMap_fragments s declared)⟩

theorem kept_growFields (s : Scope) {fs : List Field} (hn : (fs.map Field.name).Nodup)
    (declared : List TypeDef) :
    Kept Field.name Field.move ((declared.flatMap (·.body.fields)).map (·.name.text)) fs
      (growFields s fs declared) := by
  refine Kept.lastWriteWins Field.name_move (fun sc f => Field.move_move sc Builtin.scope f) s hn ?_
  rw [List.map_map]
  exact List.Subset.refl _

theorem prefix_growRefs (s : Scope) (refs : List Ref) (declared : List Ident) :
    refs.map Ref.name <+: (growRefs s refs declared).map Ref.name := by
  rw [growRefs, Keyed.append, List.map_append, List.map_map]
  exact List.prefix_append _ _

theorem prefix_growVariants (s : Scope) {vs : List Variant} (hvs : Variant.IsMap vs)
    (declared : List TypeDef) :
    vs.map Variant.name <+: (growVariants s vs declared).map Variant.name := by
  have h := Variant.names_prefix_mergeVariants (hvs.move s) (isMap_fragments s declared)
  rwa [List.map_map] at h

theorem names_fragments (s : Scope) (declared : List TypeDef) :
    (declared.map fun d => Variant.placeAll s d.body.variants).flatten.map Variant.name ⊆
      (declared.flatMap (·.body.variants)).map (·.name.text) := by
  intro n hn
  obtain ⟨v, hv, rfl⟩ := List.mem_map.mp hn
  obtain ⟨f, hf, hv⟩ := List.mem_flatten.mp hv
  obtain ⟨d, hd, rfl⟩ := List.mem_map.mp hf
  obtain ⟨x, hx, rfl⟩ := List.mem_map.mp (Keyed.mem_of_mem_ofList Variant.name hv)
  exact List.mem_map_of_mem (List.mem_flatMap.mpr ⟨d, hd, hx⟩)

theorem names_fragment_fields (s : Scope) (declared : List TypeDef) :
    ((declared.map fun d => Variant.placeAll s d.body.variants).flatten.flatMap
        Variant.fields).map InputValue.name ⊆
      ((declared.flatMap (·.body.variants)).flatMap VariantDef.fields).map (·.name.text) := by
  intro n hn
  obtain ⟨a, ha, rfl⟩ := List.mem_map.mp hn
  obtain ⟨v, hv, ha⟩ := List.mem_flatMap.mp ha
  obtain ⟨f, hf, hv⟩ := List.mem_flatten.mp hv
  obtain ⟨d, hd, rfl⟩ := List.mem_map.mp hf
  obtain ⟨x, hx, rfl⟩ := List.mem_map.mp (Keyed.mem_of_mem_ofList Variant.name hv)
  obtain ⟨y, hy, rfl⟩ := InputValue.mem_placeAll ha
  exact List.mem_map_of_mem
    (List.mem_flatMap.mpr ⟨x, List.mem_flatMap.mpr ⟨d, hd, hx⟩, hy⟩)

theorem kept_growVariants (s : Scope) {vs : List Variant} (hvs : Variant.IsMap vs)
    (hr : record? vs = none) (declared : List TypeDef) :
    Kept Variant.name Variant.move ((declared.flatMap (·.body.variants)).map (·.name.text)) vs
      (growVariants s vs declared) where
  keys := prefix_growVariants s hvs declared
  entries := by
    intro i v hv hfree
    have hr' : record? (vs.map (Variant.move s)) = none := by
      rw [Variant.record?_map_move, hr, Option.map_none]
    have hv' : (vs.map (Variant.move s))[i]? = some (v.move s) := by
      rw [List.getElem?_map, hv, Option.map_some]
    exact ⟨v.move s, Variant.getElem?_mergeVariants (hvs.move s)
      (isMap_fragments s declared) hr' hv' fun hm => hfree (names_fragments s declared hm),
      Variant.move_move s Builtin.scope v⟩

theorem kept_recordFields (s : Scope) {vs : List Variant} (hvs : Variant.IsMap vs)
    (declared : List TypeDef) :
    Kept InputValue.name InputValue.move
      (((declared.flatMap (·.body.variants)).flatMap VariantDef.fields).map (·.name.text))
      ((record? vs).elim [] Variant.fields)
      ((record? (growVariants s vs declared)).elim [] Variant.fields) := by
  cases hr : record? vs with
  | none => exact Kept.nil _
  | some v =>
      obtain ⟨rfl, hv⟩ := record?_eq_some_iff.mp hr
      have hmoved : (v.move s).fields ≠ [] := fun he => hv (List.map_eq_nil_iff.mp he)
      have hn := hvs.fields v (List.mem_singleton.mpr rfl)
      have hn' := (hvs.move s).fields (v.move s) (List.mem_singleton.mpr rfl)
      rw [growVariants, List.map_singleton, Variant.mergeVariants_of_fields hmoved hn',
        record?_eq_some_iff.mpr ⟨rfl, Variant.lastWriteWins_fields_ne_nil hmoved _⟩]
      exact Kept.lastWriteWins InputValue.name_move
        (fun sc a => InputValue.move_move sc Builtin.scope a) s hn (names_fragment_fields s declared)

variable (s : Scope) (b : Body) (declared : List TypeDef)

theorem interfaces_grow :
    b.interfaces.map Ref.name <+: (b.grow s declared).interfaces.map Ref.name := by
  cases b with
  | object fs is => exact prefix_growRefs s is _
  | interface fs is => exact prefix_growRefs s is _
  | _ => exact List.prefix_rfl

theorem members_grow : b.members.map Ref.name <+: (b.grow s declared).members.map Ref.name := by
  cases b with
  | union ms => exact prefix_growRefs s ms _
  | _ => exact List.prefix_rfl

variable {b}

theorem fields_grow (h : b.Distinct) :
    Kept Field.name Field.move ((declared.flatMap (·.body.fields)).map (·.name.text)) b.fields
      (b.grow s declared).fields := by
  cases b with
  | object fs is => exact kept_growFields s h.fields declared
  | interface fs is => exact kept_growFields s h.fields declared
  | _ => exact Kept.nil _

theorem variants_grow (h : b.Distinct) :
    b.variants.map Variant.name <+: (b.grow s declared).variants.map Variant.name := by
  cases b with
  | data vs => exact prefix_growVariants s h.variants declared
  | _ => exact List.prefix_rfl

theorem sum_grow (h : b.Distinct) (hr : record? b.variants = none) :
    Kept Variant.name Variant.move ((declared.flatMap (·.body.variants)).map (·.name.text))
      b.variants (b.grow s declared).variants := by
  cases b with
  | data vs => exact kept_growVariants s h.variants hr declared
  | _ => exact Kept.nil _

theorem record_grow (h : b.Distinct) :
    Kept InputValue.name InputValue.move
      (((declared.flatMap (·.body.variants)).flatMap VariantDef.fields).map (·.name.text))
      ((record? b.variants).elim [] Variant.fields)
      ((record? (b.grow s declared).variants).elim [] Variant.fields) := by
  cases b with
  | data vs => exact kept_recordFields s h.variants declared
  | _ => exact Kept.nil _

end Body

namespace NamedType

variable {t t' : NamedType} {s : Scope}

structure Continues (t t' : NamedType) (fragments : List TypeDef) : Prop where
  kind : t'.kind = t.kind
  node : t'.node = t.node
  extensions : t'.extensions = t.extensions ++ fragments
  interfaces : t.body.interfaces.map Ref.name <+: t'.body.interfaces.map Ref.name
  members : t.body.members.map Ref.name <+: t'.body.members.map Ref.name
  fields : Kept Field.name Field.move ((fragments.flatMap (·.body.fields)).map (·.name.text))
    t.body.fields t'.body.fields
  variants : t.body.variants.map Variant.name <+: t'.body.variants.map Variant.name
  sum : record? t.body.variants = none →
    Kept Variant.name Variant.move ((fragments.flatMap (·.body.variants)).map (·.name.text))
      t.body.variants t'.body.variants
  record : Kept InputValue.name InputValue.move
    (((fragments.flatMap (·.body.variants)).flatMap VariantDef.fields).map (·.name.text))
    t.recordFields t'.recordFields

theorem continues_grow (s : Scope) (h : t.body.Distinct) (extensions : List TypeDef) :
    t.Continues (t.grow s extensions) (ofKind t.kind extensions) where
  kind := kind_grow s t extensions
  node := rfl
  extensions := rfl
  interfaces := t.body.interfaces_grow s _
  members := t.body.members_grow s _
  fields := Body.fields_grow s _ h
  variants := Body.variants_grow s _ h
  sum := Body.sum_grow s _ h
  record := Body.record_grow s _ h

theorem Entry.eq_place (h : t.Entry s) (hb : Builtin.isBuiltin t.name = false) :
    t = place s t.node t.extensions := by
  cases h with
  | builtin h => exact absurd (Builtin.isBuiltin_of_type? h) (by simp [hb])
  | declared _ _ h =>
      rw [build_eq_guard, Scope.guard_eq_ok_iff] at h
      exact h.2.symm

theorem Entry.distinct (h : t.Entry s) (hb : Builtin.isBuiltin t.name = false) :
    t.body.Distinct := by
  rw [h.eq_place hb]
  exact Body.distinct_grow s (Body.distinct_empty _) _

theorem Entry.bare_grow_nil (h : t.Entry s) (hb : Builtin.isBuiltin t.name = false) (s' : Scope) :
    (t.grow s' []).bare = t.bare := by
  rw [h.eq_place hb, grow_place, List.append_nil, bare_place, bare_place]

theorem Entry.grow_nil (h : t.Entry s) (hb : Builtin.isBuiltin t.name = false) : t.grow s [] = t := by
  conv_lhs => rw [h.eq_place hb, grow_place, List.append_nil]
  exact (h.eq_place hb).symm

end NamedType

namespace Snapshot

variable {s s' : Snapshot} {d : Document} {options : Options}

structure Conserves (s : Snapshot) (d : Document) (s' : Snapshot) : Prop where
  names : s'.registry.names = s.registry.names ++
    ((d.types.map (·.name.text)).filter (· ∉ s.registry.names)).eraseDups
  extended : ∀ t ∈ s.registry.types, Builtin.isBuiltin t.name = false →
    t.name ∉ d.types.map (·.name.text) → ∃ t', s'.registry.get? t.name = some t' ∧
      t.Continues t' (NamedType.ofKind t.kind (d.extensionsOf t.name))
  untouched : ∀ t ∈ s.registry.types, t.name ∉ d.types.map (·.name.text) →
    d.extensionsOf t.name = [] → ∃ t', s'.registry.get? t.name = some t' ∧ t'.bare = t.bare

theorem names_registry_extended (hu : s.registry.names.Nodup) :
    (s.registry.extended s.nextHome d).names = s.registry.names ++
      ((d.types.map (·.name.text)).filter (· ∉ s.registry.names)).eraseDups := by
  have hold : (s.registry.types.map Seed.ofType).map Seed.name = s.registry.names := by
    rw [List.map_map, Seed.name_comp_ofType]
    rfl
  have hnew : (d.types.map Seed.ofDef).map Seed.name = d.types.map (·.name.text) := by
    rw [List.map_map, Seed.name_comp_ofDef]
  rw [Registry.names_extended, Registry.seeds, Keyed.keys_lastWriteWins Seed.name (by rwa [hold]),
    hold, hnew]

theorem Sound.exists_grow (hs : s.Sound) (h : s.extend d options = .ok s') {t : NamedType}
    (ht : t ∈ s.registry.types) (hb : Builtin.isBuiltin t.name = false)
    (hd : t.name ∉ d.types.map (·.name.text)) :
    ∃ sc, s'.registry.get? t.name = some (t.grow sc (d.extensionsOf t.name)) := by
  have hget : s.registry.get? t.name = some t := Keyed.get?_of_nodup NamedType.name hs.unique ht
  cases he : d.isEmpty with
  | true =>
      rw [extend_of_isEmpty he] at h
      obtain rfl := Except.ok.inj h
      have hnone : d.extensionsOf t.name = [] := by
        rw [Document.extensionsOf, Document.typeExtensions, List.isEmpty_iff.mp he]
        rfl
      rw [hnone]
      exact ⟨s.scope, hget.trans (congrArg some ((hs.entries t ht).grow_nil hb).symm)⟩
  | false =>
      obtain rfl := eq_extended he h
      refine ⟨s.nextScope d, ?_⟩
      rw [registry_extended, Registry.get?_extended_of_custom hs.unique _ hb,
        Document.definition?_eq_none_iff.mpr hd, hget]
      rfl

theorem Sound.get?_of_builtin (hs : s.Sound) (h : s.extend d options = .ok s') {t : NamedType}
    (ht : t ∈ s.registry.types) (hb : Builtin.isBuiltin t.name = true)
    (hd : t.name ∉ d.types.map (·.name.text)) : s'.registry.get? t.name = some t := by
  have hget : s.registry.get? t.name = some t := Keyed.get?_of_nodup NamedType.name hs.unique ht
  cases he : d.isEmpty with
  | true =>
      rw [extend_of_isEmpty he] at h
      obtain rfl := Except.ok.inj h
      exact hget
  | false =>
      obtain rfl := eq_extended he h
      rw [registry_extended, Registry.get?_extended, Registry.get?_seeds hs.unique,
        Document.definition?_eq_none_iff.mpr hd, hget, Option.map_none, Option.none_or,
        Option.map_some, Option.map_some, Seed.ofType, hs.builtin_entry ht hb]
      rfl

theorem extend_conserves (hs : s.Reachable) (h : s.extend d options = .ok s') : s.Conserves d s' := by
  have hsound := hs.sound
  constructor
  · cases he : d.isEmpty with
    | true =>
        rw [extend_of_isEmpty he] at h
        obtain rfl := Except.ok.inj h
        rw [Document.types, List.isEmpty_iff.mp he]
        exact (List.append_nil _).symm
    | false =>
        obtain rfl := eq_extended he h
        rw [registry_extended]
        exact names_registry_extended hsound.unique
  · intro t ht hb hd
    obtain ⟨sc, hget⟩ := hsound.exists_grow h ht hb hd
    exact ⟨_, hget, NamedType.continues_grow sc ((hsound.entries t ht).distinct hb) _⟩
  · intro t ht hd hnone
    cases hb : Builtin.isBuiltin t.name with
    | true => exact ⟨t, hsound.get?_of_builtin h ht hb hd, rfl⟩
    | false =>
        obtain ⟨sc, hget⟩ := hsound.exists_grow h ht hb hd
        rw [hnone] at hget
        exact ⟨_, hget, (hsound.entries t ht).bare_grow_nil hb sc⟩

end Snapshot

namespace Pets

def clinics : Document := ⟨[
  .type (object "Clinic" [Builtin.field "pets" "[Pet!]!"]),
  .type (object "Owner" [Builtin.field "clinic" "Clinic"]),
  .typeExtension (object "Pet" [Builtin.field "clinic" "Clinic", Builtin.field "owner" "Owner!"]),
  .type (object "Clinic" [Builtin.field "name" "String"])]⟩

theorem extend_clinics :
    snapshot.extend clinics .default = .ok (snapshot.extended clinics .default) :=
  Snapshot.extend_of_known rfl (by decide +kernel) .default

theorem clinics_conserve : snapshot.Reachable ∧
    snapshot.extend clinics .default = .ok (snapshot.extended clinics .default) ∧
    snapshot.Conserves clinics (snapshot.extended clinics .default) :=
  ⟨reachable_snapshot, extend_clinics, Snapshot.extend_conserves reachable_snapshot extend_clinics⟩

end Pets

end SchemaGraph
