import Mathlib.Data.List.TakeWhile
import SchemaGraph.Proofs.Discovery
import SchemaGraph.Proofs.Report
import SchemaGraph.Summary.Basic

namespace SchemaGraph

namespace Builtin

theorem isScalar_of_isBuiltin {n : String} (hb : isBuiltin n = true)
    (hi : isIntrospection n = false) : isScalar n = true := by
  rwa [isBuiltin, hi, Bool.or_false] at hb

theorem not_isIntrospection_of_isScalar {n : String} (h : isScalar n = true) :
    isIntrospection n = false := by
  have hall : ∀ m ∈ scalarNames, isIntrospection m = false := by decide
  exact hall n (List.contains_iff_mem.mp h)

theorem refs_of_isScalar {t : NamedType} (ht : type? t.name = some t) (hs : isScalar t.name = true) :
    t.refs = [] := by
  have hall : (types.all fun u => !isScalar u.name || u.refs.isEmpty) = true := by decide +kernel
  have h := List.all_eq_true.mp hall t (Keyed.mem_of_get? _ ht)
  rw [hs, Bool.not_true, Bool.false_or] at h
  exact List.isEmpty_iff.mp h

end Builtin

theorem filter_append_filter_of_pairwise {α : Type} {p : α → Bool} {xs : List α}
    (h : xs.Pairwise fun x y => p x = true → p y = true) :
    xs.filter (fun x => !p x) ++ xs.filter p = xs := by
  induction xs with
  | nil => rfl
  | cons x xs ih =>
      obtain ⟨hx, hxs⟩ := List.pairwise_cons.mp h
      cases hp : p x with
      | false => simp [hp, ih hxs]
      | true =>
          have hnone : xs.filter (fun y => !p y) = [] :=
            List.filter_eq_nil_iff.mpr fun y hy => by simp [hx y hy hp]
          have hall : xs.filter p = xs := List.filter_eq_self.mpr fun y hy => hx y hy hp
          simp [hp, hnone, hall]

namespace Snapshot

open Discovery

variable {s : Snapshot}

def declared (s : Snapshot) : List NamedType :=
  s.registry.types.filter fun t => !Builtin.isBuiltin t.name

theorem mem_declared {t : NamedType} :
    t ∈ s.declared ↔ t ∈ s.registry.types ∧ Builtin.isBuiltin t.name = false := by
  simp [declared]

theorem names_declared (s : Snapshot) :
    s.declared.map NamedType.name = s.registry.names.filter (!Builtin.isBuiltin ·) := by
  rw [declared, Registry.names, List.filter_map]
  rfl

theorem Sound.lookup_of_mem_declared (hs : s.Sound) :
    ∀ t ∈ s.declared, s.registry.lookup t.name = some t := by
  intro t ht
  have hm := (mem_declared.mp ht).1
  obtain ⟨u, hget, hl⟩ := hs.lookup_of_mem_names (List.mem_map_of_mem hm)
  obtain rfl : t = u := Option.some.inj ((Keyed.get?_of_nodup _ hs.unique hm).symm.trans hget)
  exact hl

theorem Sound.mem_declared_of_mem_typeMap (hs : s.Sound) {t : NamedType}
    (ht : t ∈ s.toSchema.typeMap) (hb : Builtin.isBuiltin t.name = false) : t ∈ s.declared := by
  have hl := hs.lookup_of_mem_typeMap t ht
  rw [Registry.lookup, Builtin.type?_eq_none_iff.mpr hb, Option.none_or] at hl
  exact mem_declared.mpr ⟨Keyed.mem_of_get? _ hl, hb⟩

theorem Sound.type?_of_mem_typeMap (hs : s.Sound) {t : NamedType} (ht : t ∈ s.toSchema.typeMap)
    (hb : Builtin.isBuiltin t.name = true) : Builtin.type? t.name = some t := by
  obtain ⟨b, h⟩ := Builtin.exists_type? hb
  have hl := hs.lookup_of_mem_typeMap t ht
  rw [Registry.lookup, h, Option.some_or] at hl
  exact h.trans hl

theorem name_notMem_of_typeMap_eq {types rest : List NamedType}
    (he : s.toSchema.typeMap = types ++ rest) {t : NamedType} (ht : t ∈ rest) :
    t.name ∉ types.map NamedType.name := by
  intro hn
  have hnodup := s.nodup_names_typeMap
  rw [he, List.map_append, List.nodup_append] at hnodup
  exact hnodup.2.2 _ hn _ (List.mem_map_of_mem ht) rfl

theorem Sound.isBuiltin_of_typeMap_eq (hs : s.Sound) {rest : List NamedType}
    (he : s.toSchema.typeMap = s.declared ++ rest) : ∀ t ∈ rest, Builtin.isBuiltin t.name = true := by
  intro t ht
  by_contra hb
  have hm : t ∈ s.declared := hs.mem_declared_of_mem_typeMap
    (he ▸ List.mem_append_right _ ht) (by simpa using hb)
  exact name_notMem_of_typeMap_eq he ht (List.mem_map_of_mem hm)

def declaredRefs (s : Snapshot) : List Ref := s.declared.reverse.flatMap NamedType.refs

def ScalarsLead (refs : List Ref) : Prop :=
  ∀ n ∈ refs.map Ref.name, Builtin.isScalar n = true →
    n ∈ (refs.takeWhile fun r => !Builtin.isIntrospection r.name).map Ref.name

instance (refs : List Ref) : Decidable (ScalarsLead refs) := inferInstanceAs (Decidable (∀ n ∈ _, _))

section FirstNew

variable {refs : List Ref} {names : List String} {r : Ref}

theorem mem_takeWhile_of_find? (hf : refs.find? (fun r => r.name ∉ names) = some r)
    (hnames : ∀ n ∈ names, Builtin.isIntrospection n = false)
    (hr : Builtin.isIntrospection r.name = false) :
    r ∈ refs.takeWhile fun r => !Builtin.isIntrospection r.name := by
  obtain ⟨-, before, after, rfl, hbefore⟩ := List.find?_eq_some_iff_append.mp hf
  have hlead : ∀ x ∈ before, (!Builtin.isIntrospection x.name) = true := by
    intro x hx
    rw [hnames x.name (by simpa using hbefore x hx)]
    rfl
  rw [List.takeWhile_append_of_pos hlead, List.takeWhile_cons, if_pos (by simp [hr])]
  exact List.mem_append_right _ List.mem_cons_self

theorem not_isIntrospection_of_find? {more : List Ref}
    (hf : (refs ++ more).find? (fun r => r.name ∉ names) = some r) {q : Ref}
    (hq : q ∈ refs.takeWhile fun r => !Builtin.isIntrospection r.name) (hnew : q.name ∉ names) :
    Builtin.isIntrospection r.name = false := by
  have hsome : ((refs.takeWhile fun r => !Builtin.isIntrospection r.name).find?
      fun r => r.name ∉ names).isSome = true :=
    List.find?_isSome.mpr ⟨q, hq, decide_eq_true hnew⟩
  obtain ⟨x, hx⟩ := Option.isSome_iff_exists.mp hsome
  rw [← List.takeWhile_append_dropWhile (p := fun r => !Builtin.isIntrospection r.name) (l := refs),
    List.append_assoc, List.find?_append, hx, Option.some_or] at hf
  obtain rfl := Option.some.inj hf
  simpa using List.mem_takeWhile_imp (List.mem_of_find?_eq_some hx)

end FirstNew

section Scalars

variable {scalars rest : List NamedType} {t : NamedType}

theorem not_isIntrospection_of_mem_declared {t : NamedType} (ht : t ∈ s.declared) :
    Builtin.isIntrospection t.name = false := by
  have hb := (mem_declared.mp ht).2
  rw [Builtin.isBuiltin, Bool.or_eq_false_iff] at hb
  exact hb.2

theorem not_isIntrospection_of_mem (hscalars : ∀ u ∈ scalars, Builtin.isScalar u.name = true) :
    ∀ u ∈ s.declared ++ scalars, Builtin.isIntrospection u.name = false := by
  intro u hu
  rcases List.mem_append.mp hu with hm | hm
  · exact not_isIntrospection_of_mem_declared hm
  · exact Builtin.not_isIntrospection_of_isScalar (hscalars u hm)

theorem Sound.find?_of_scalars (hs : s.Sound)
    (he : s.toSchema.typeMap = s.declared ++ (scalars ++ t :: rest))
    (hscalars : ∀ u ∈ scalars, Builtin.isScalar u.name = true) :
    ∃ r, (s.declaredRefs ++ s.seeds).find?
      (fun r => r.name ∉ (s.declared ++ scalars).map NamedType.name) = some r ∧ r.name = t.name := by
  have hrefs : scalars.reverse.flatMap NamedType.refs = [] := by
    refine List.flatMap_eq_nil_iff.mpr fun u hu => ?_
    have hm := List.mem_reverse.mp hu
    have hu' : u ∈ s.toSchema.typeMap :=
      he ▸ List.mem_append_right _ (List.mem_append_left _ hm)
    have hb := hs.isBuiltin_of_typeMap_eq he u (List.mem_append_left _ hm)
    exact Builtin.refs_of_isScalar (hs.type?_of_mem_typeMap hu' hb) (hscalars u hm)
  have hdisc := hs.discovers_typeMap.1
  rw [he, ← List.append_assoc, discovers_append, List.nil_append] at hdisc
  have hnext := hdisc.2.1
  rw [next?, leads_append, hrefs, List.nil_append] at hnext
  exact Option.map_eq_some_iff.mp hnext

theorem Sound.mem_typeMap_of_mem_declaredRefs (hs : s.Sound) (hp : s.declared <+: s.toSchema.typeMap)
    {n : String} (hn : n ∈ s.declaredRefs.map Ref.name) :
    n ∈ s.toSchema.typeMap.map NamedType.name := by
  obtain ⟨r, hr, rfl⟩ := List.mem_map.mp hn
  obtain ⟨t, ht, hr⟩ := List.mem_flatMap.mp hr
  exact hs.name_mem_typeMap_of_gives (hp.subset (List.mem_reverse.mp ht)) hr

theorem Sound.scalarsLead (hs : s.Sound) (hp : s.declared <+: s.toSchema.typeMap)
    (hpairs : s.toSchema.typeMap.Pairwise fun t u => Builtin.isIntrospection t.name = true →
      Builtin.isScalar u.name = true → u.name ∉ s.declaredRefs.map Ref.name) :
    ScalarsLead s.declaredRefs := by
  intro n hmem hn
  obtain ⟨u, hu, rfl⟩ := List.mem_map.mp (hs.mem_typeMap_of_mem_declaredRefs hp hmem)
  obtain ⟨rest, he⟩ := hp
  have hrest : u ∈ rest := by
    refine (List.mem_append.mp (he ▸ hu)).resolve_left fun hd => ?_
    have hb := (mem_declared.mp hd).2
    rw [Builtin.isBuiltin, hn, Bool.true_or] at hb
    cases hb
  obtain ⟨scalars, after, rfl⟩ := List.append_of_mem hrest
  have hscalars : ∀ v ∈ scalars, Builtin.isScalar v.name = true := by
    intro v hv
    have hb := hs.isBuiltin_of_typeMap_eq he.symm v (List.mem_append_left _ hv)
    refine Builtin.isScalar_of_isBuiltin hb (Bool.eq_false_iff.mpr fun hi => ?_)
    rw [← he, List.pairwise_append] at hpairs
    exact (List.pairwise_append.mp hpairs.2.1).2.2 v hv u List.mem_cons_self hi hn hmem
  have hfirst : ∀ n ∈ (s.declared ++ scalars).map NamedType.name, Builtin.isIntrospection n = false :=
    List.forall_mem_map.mpr (not_isIntrospection_of_mem hscalars)
  obtain ⟨r, hr, hname⟩ := hs.find?_of_scalars he.symm hscalars
  have hnew : u.name ∉ (s.declared ++ scalars).map NamedType.name :=
    name_notMem_of_typeMap_eq (by rw [← he, List.append_assoc]) List.mem_cons_self
  -- the reference that leads to the scalar is one of the declared types', as these have one
  rw [List.find?_append] at hr
  cases hf : s.declaredRefs.find? (fun r => r.name ∉ (s.declared ++ scalars).map NamedType.name) with
  | none =>
      obtain ⟨q, hq, hqn⟩ := List.mem_map.mp hmem
      have hold := List.find?_eq_none.mp hf q hq
      rw [hqn] at hold
      exact absurd hnew (by simpa using hold)
  | some q =>
      rw [hf, Option.some_or] at hr
      obtain rfl := Option.some.inj hr
      have hq : Builtin.isIntrospection q.name = false :=
        hname ▸ Builtin.not_isIntrospection_of_isScalar hn
      rw [← hname]
      exact List.mem_map_of_mem (mem_takeWhile_of_find? hf hfirst hq)

theorem Sound.pairwise_scalars (hs : s.Sound) (hp : s.declared <+: s.toSchema.typeMap)
    (hlead : ScalarsLead s.declaredRefs) :
    s.toSchema.typeMap.Pairwise fun t u => Builtin.isIntrospection t.name = true →
      Builtin.isScalar u.name = true → u.name ∉ s.declaredRefs.map Ref.name := by
  obtain ⟨rest, he⟩ := hp
  cases hf : rest.find? (fun t => Builtin.isIntrospection t.name) with
  | none =>
      refine List.pairwise_of_forall_mem_list fun t ht u _ hi => ?_
      rcases List.mem_append.mp (he ▸ ht) with hm | hm
      · exact nomatch (not_isIntrospection_of_mem_declared hm).symm.trans hi
      · exact absurd hi (List.find?_eq_none.mp hf t hm)
  | some t =>
      obtain ⟨hi, scalars, after, rfl, hbefore⟩ := List.find?_eq_some_iff_append.mp hf
      have hscalars : ∀ u ∈ scalars, Builtin.isScalar u.name = true := fun u hu =>
        Builtin.isScalar_of_isBuiltin (hs.isBuiltin_of_typeMap_eq he.symm u (List.mem_append_left _ hu))
          (by simpa using hbefore u hu)
      obtain ⟨r, hr, hname⟩ := hs.find?_of_scalars he.symm hscalars
      have hafter : ∀ u ∈ after, Builtin.isScalar u.name = true →
          u.name ∉ s.declaredRefs.map Ref.name := by
        intro u hu hscalar hmem
        obtain ⟨q, hq, hqn⟩ := List.mem_map.mp (hlead u.name hmem hscalar)
        have hnew : q.name ∉ (s.declared ++ scalars).map NamedType.name :=
          hqn ▸ name_notMem_of_typeMap_eq (by rw [← he, List.append_assoc]) (List.mem_cons_of_mem t hu)
        have hno := not_isIntrospection_of_find? hr hq hnew
        rw [hname, hi] at hno
        exact nomatch hno
      have hfirst := not_isIntrospection_of_mem (s := s) hscalars
      rw [← he, ← List.append_assoc]
      refine List.pairwise_append.mpr ⟨?_, List.pairwise_cons.mpr ⟨?_, ?_⟩, ?_⟩
      · exact List.pairwise_of_forall_mem_list fun v hv _ _ h => nomatch (hfirst v hv).symm.trans h
      · exact fun u hu _ hscalar => hafter u hu hscalar
      · exact List.pairwise_of_forall_mem_list fun _ _ u hu _ hscalar => hafter u hu hscalar
      · exact fun v hv _ _ h => nomatch (hfirst v hv).symm.trans h

end Scalars

theorem Sound.declared_prefix_iff (hs : s.Sound) : s.declared <+: s.toSchema.typeMap ↔
    (s.toSchema.typeMap.map NamedType.name).filter (!Builtin.isBuiltin ·) =
      s.registry.names.filter (!Builtin.isBuiltin ·) ∧
    s.toSchema.typeMap.Pairwise fun t u =>
      Builtin.isBuiltin t.name = true → Builtin.isBuiltin u.name = true := by
  have hdeclared : ∀ t ∈ s.declared, Builtin.isBuiltin t.name = false :=
    fun t ht => (mem_declared.mp ht).2
  rw [← s.names_declared, List.filter_map]
  constructor
  · rintro ⟨rest, he⟩
    have hrest := hs.isBuiltin_of_typeMap_eq he.symm
    rw [← he]
    constructor
    · rw [List.filter_append, List.filter_eq_self.mpr, List.filter_eq_nil_iff.mpr, List.append_nil]
      · exact fun t ht => by simp [hrest t ht]
      · exact fun t ht => by simp [hdeclared t ht]
    · refine List.pairwise_append.mpr ⟨?_, ?_, fun t ht u hu _ => hrest u hu⟩
      · exact List.pairwise_of_forall_mem_list fun t ht _ _ h => nomatch (hdeclared t ht).symm.trans h
      · exact List.pairwise_of_forall_mem_list fun _ _ u hu _ => hrest u hu
  · rintro ⟨hnames, hpairs⟩
    have hgiven : ∀ t ∈ s.toSchema.typeMap.filter (fun t => !Builtin.isBuiltin t.name),
        s.registry.lookup t.name = some t :=
      fun t ht => hs.lookup_of_mem_typeMap t (List.mem_of_mem_filter ht)
    have hsome : (s.toSchema.typeMap.filter fun t => !Builtin.isBuiltin t.name).map some =
        s.declared.map some := by
      rw [← List.map_congr_left hgiven, ← List.map_congr_left hs.lookup_of_mem_declared]
      have h := congrArg (List.map s.registry.lookup) hnames
      rw [List.map_map, List.map_map] at h
      exact h
    have heq := List.map_injective_iff.mpr (fun _ _ => Option.some.inj) hsome
    rw [← heq]
    exact ⟨_, filter_append_filter_of_pairwise hpairs⟩

end Snapshot

namespace Schema

open Discovery

structure InDeclarationOrder (S : Schema) : Prop where
  declared : (S.typeMap.map NamedType.name).filter (!Builtin.isBuiltin ·) =
    S.snapshot.registry.names.filter (!Builtin.isBuiltin ·)
  builtin : S.typeMap.Pairwise fun t u =>
    Builtin.isBuiltin t.name = true → Builtin.isBuiltin u.name = true
  scalars : S.typeMap.Pairwise fun t u => Builtin.isIntrospection t.name = true →
    Builtin.isScalar u.name = true → u.name ∉ S.snapshot.declaredRefs.map Ref.name

theorem names_summary (S : Schema) : (S.summary false).types.map TypeSummary.name =
    (S.typeMap.map NamedType.name).filter (!Builtin.isBuiltin ·) := by
  rw [summary, List.map_map, List.filter_map]
  simp only [Bool.false_or]
  rfl

theorem inDeclarationOrder_iff {S : Schema} (hS : S.Reachable) :
    (Discovers S.snapshot.seeds [] S.typeMap ∧ next? S.snapshot.seeds S.typeMap = none) ∧
    (S.summary false).types.map TypeSummary.name =
      (S.typeMap.map NamedType.name).filter (!Builtin.isBuiltin ·) ∧
    (S.InDeclarationOrder ↔ Discovers S.snapshot.seeds [] S.snapshot.declared ∧
      Snapshot.ScalarsLead S.snapshot.declaredRefs) := by
  have hs := hS.sound
  refine ⟨?_, S.names_summary, ?_⟩
  · rw [hS.eq_toSchema]
    exact hs.discovers_typeMap
  · rw [← hs.prefix_typeMap_iff hs.lookup_of_mem_declared, hS.eq_toSchema]
    constructor
    · rintro ⟨hdeclared, hbuiltin, hscalars⟩
      have hp := hs.declared_prefix_iff.mpr ⟨hdeclared, hbuiltin⟩
      exact ⟨hp, hs.scalarsLead hp hscalars⟩
    · rintro ⟨hp, hlead⟩
      obtain ⟨hdeclared, hbuiltin⟩ := hs.declared_prefix_iff.mp hp
      exact ⟨hdeclared, hbuiltin, hs.pairwise_scalars hp hlead⟩

end Schema

namespace Pets

open Discovery

theorem schema_in_declaration_order : schema.Reachable ∧ schema.InDeclarationOrder := by
  obtain ⟨-, -, hiff⟩ := Schema.inDeclarationOrder_iff reachable_schema
  exact ⟨reachable_schema, hiff.mpr ⟨by decide +kernel, by decide +kernel⟩⟩

def playroom : Document := ⟨[
  .type (object "Query" [Builtin.field "toy" "Toy", Builtin.field "pet" "Pet"]),
  .type (object "Pet" [Builtin.field "id" "ID"]),
  .type (object "Toy" [Builtin.field "name" "String"])]⟩

def playful : Schema :=
  (Snapshot.empty.extended playroom .default).withConventionalRoots.withSpecifiedDirectives.toSchema

theorem declare_playful : Schema.declare none playroom .default = .ok playful :=
  Schema.declare_of_validate (by simp) (by decide +kernel) rfl .default

theorem reachable_playful : playful.Reachable := Schema.Reachable.build declare_playful

theorem pets_behind_toys : playful.Reachable ∧ ¬playful.InDeclarationOrder ∧
    ["Query", "Toy", "String", "Pet", "ID"] <+: playful.typeMap.map NamedType.name := by
  have hs := reachable_playful.sound
  refine ⟨reachable_playful, fun h => ?_, ?_⟩
  · have hp := hs.declared_prefix_iff.mpr ⟨h.declared, h.builtin⟩
    exact absurd ((hs.prefix_typeMap_iff hs.lookup_of_mem_declared).mp hp) (by decide +kernel)
  · have hfound : (["Query", "Toy", "String", "Pet", "ID"].filterMap
        playful.snapshot.registry.lookup) <+: playful.typeMap := by
      refine (hs.prefix_typeMap_iff fun t ht => ?_).mpr (by decide +kernel)
      obtain ⟨n, -, hl⟩ := List.mem_filterMap.mp ht
      rw [Registry.name_of_lookup hl]
      exact hl
    have hnames : (["Query", "Toy", "String", "Pet", "ID"].filterMap
        playful.snapshot.registry.lookup).map NamedType.name =
          ["Query", "Toy", "String", "Pet", "ID"] := by decide +kernel
    rw [← hnames]
    exact hfound.map NamedType.name

end Pets

end SchemaGraph
