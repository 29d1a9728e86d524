import SchemaGraph.Proofs.Rules

namespace SchemaGraph

namespace Schema

def under (base : Option Schema) : Snapshot := base.elim .empty snapshot

def declare (base : Option Schema) (d : Document) (o : Options) : Except SchemaError Schema :=
  match base with
  | none => build d o
  | some S => S.extend d o

def completed (base : Option Schema) (d : Document) (s : Snapshot) : Schema :=
  match base with
  | none => s.withConventionalRoots.withSpecifiedDirectives.toSchema
  | some S => if d.isEmpty then S else s.toSchema

structure Grounded (base : Option Schema) : Prop where
  sound : (under base).Sound
  types : ∀ n, (base.bind (·.type? n)).or (Builtin.type? n) = (under base).registry.lookup n

variable {base : Option Schema} {d : Document}

theorem Reachable.eq_toSchema {S : Schema} (hS : S.Reachable) : S = S.snapshot.toSchema := by
  induction hS with
  | build h =>
      obtain ⟨-, s, -, rfl⟩ := exists_of_build h
      rfl
  | extend _ h ih =>
      obtain ⟨-, ⟨-, rfl⟩ | ⟨-, s, -, rfl⟩⟩ := exists_of_extend h
      · exact ih
      · rfl

theorem Reachable.forall_mem_some {S : Schema} (hS : S.Reachable) : ∀ B ∈ some S, B.Reachable :=
  fun _ h => Option.some.inj h ▸ hS

theorem grounded_of_reachable (hb : ∀ S ∈ base, S.Reachable) : Grounded base := by
  cases base with
  | none => exact ⟨Snapshot.sound_empty, fun n => (Option.or_none).symm⟩
  | some S =>
      have hS := hb S rfl
      refine ⟨hS.sound, fun n => ?_⟩
      have h := hS.sound.type?_or n
      rw [← hS.eq_toSchema] at h
      exact h

theorem reachable_of_declare (hb : ∀ S ∈ base, S.Reachable) {o : Options} {S : Schema}
    (h : declare base d o = .ok S) : S.Reachable := by
  cases base with
  | none => exact .build h
  | some B => exact (hb B rfl).extend h

open Validation

theorem Reachable.grounded {S : Schema} (hS : S.Reachable) : Grounded (some S) :=
  grounded_of_reachable hS.forall_mem_some

namespace Grounded

theorem hasType_iff (hg : Grounded base) {n : String} (hb : Builtin.isBuiltin n = false) :
    hasType base n = true ↔ n ∈ (under base).registry.names := by
  have h := hg.types n
  rw [Registry.lookup, Builtin.type?_eq_none_iff.mpr hb, Option.or_none, Option.none_or] at h
  have hany : hasType base n = (base.bind (·.type? n)).isSome := by
    cases base <;> rfl
  rw [hany, h, Registry.get?, Option.isSome_iff_ne_none, ne_eq, Keyed.get?_eq_none_iff, not_not]
  rfl

theorem isKnownType_eq (hg : Grounded base) (n : String) :
    isKnownType d base n = ((under base).nextScope d).knows n := by
  cases hb : Builtin.isBuiltin n with
  | true => rw [isKnownType, Scope.knows, hb, Bool.true_or, Bool.true_or, Bool.true_or]
  | false =>
      rw [Bool.eq_iff_iff, Scope.knows_eq_true_iff, isKnownType, hb, Bool.false_or, Bool.or_eq_true,
        hg.hasType_iff hb, List.any_eq_true]
      have hn := (under base).registry.mem_names_nextScope (under base).nextHome d (n := n)
      rw [Snapshot.nextScope, hn, List.mem_map]
      simp [or_comm]

theorem targetKind?_eq (hg : Grounded base) (n : String) :
    targetKind? d base n = (under base).targetKind? d n := by
  rw [targetKind?, Snapshot.targetKind?, ← Option.map_or, hg.types]

end Grounded

def ofRegistry (s : Snapshot) : Schema := ⟨s, s.registry.types⟩

theorem grounded_ofRegistry {s : Snapshot} (hs : s.Sound) : Grounded (some (ofRegistry s)) where
  sound := hs
  types := by
    intro n
    change (s.registry.get? n).or (Builtin.type? n) = s.registry.lookup n
    cases hg : s.registry.get? n with
    | none => rw [Registry.lookup, hg, Option.none_or, Option.or_none]
    | some t =>
        have hn : n ∈ s.registry.names :=
          Keyed.key_of_get? NamedType.name hg ▸ List.mem_map_of_mem (Keyed.mem_of_get? _ hg)
        obtain ⟨u, hu, hl⟩ := hs.lookup_of_mem_names hn
        rw [hl, Option.some_or, ← hu, hg]

theorem Reachable.validate_eq {S : Schema} (hS : S.Reachable)
    (hc : ∀ x ∈ d.types, Builtin.isBuiltin x.name.text = false) :
    validate d (some S) = validate d (some (ofRegistry S.snapshot)) := by
  have hg := hS.grounded
  have hg' := grounded_ofRegistry hS.sound
  have htypes : uniqueTypes d (some S) = uniqueTypes d (some (ofRegistry S.snapshot)) := by
    refine uniqueNames_congr fun n hn => ?_
    obtain ⟨x, hx, rfl⟩ := List.mem_map.mp hn
    rw [Bool.eq_iff_iff, hg.hasType_iff (hc x hx), hg'.hasType_iff (hc x hx)]
    rfl
  have hknown : isKnownType d (some S) = isKnownType d (some (ofRegistry S.snapshot)) := by
    funext n
    rw [hg.isKnownType_eq, hg'.isKnownType_eq]
    rfl
  have hkind : targetKind? d (some S) = targetKind? d (some (ofRegistry S.snapshot)) := by
    funext n
    rw [hg.targetKind?_eq, hg'.targetKind?_eq]
    rfl
  have hext : checkExtension d (some S) = checkExtension d (some (ofRegistry S.snapshot)) := by
    funext e
    rw [checkExtension, checkExtension, hkind]
  rw [validate, validate, htypes, knownTypes, knownTypes, hknown, typeExtensions, typeExtensions, hext]
  rfl

section Fits

variable (hall : ∀ p ∈ validate d base, ∃ n, p = .unknownType n)
include hall

theorem loneSchema_eq_nil : loneSchema d base = [] := by
  simp only [validate, List.forall_mem_append] at hall
  exact eq_nil_of_unknownType hall.1.1.1.1.1 fun _ => unknownType_not_mem_loneSchema

theorem uniqueTypes_eq_nil : uniqueTypes d base = [] := by
  simp only [validate, List.forall_mem_append] at hall
  exact eq_nil_of_unknownType hall.1.1.1.1.2 fun _ => unknownType_not_mem_uniqueTypes

theorem typeExtensions_eq_nil : typeExtensions d base = [] := by
  simp only [validate, List.forall_mem_append] at hall
  exact eq_nil_of_unknownType hall.2 fun _ => unknownType_not_mem_typeExtensions

theorem Grounded.fits (hg : Grounded base)
    (hc : ∀ x ∈ d.types, Builtin.isBuiltin x.name.text = false) : (under base).Fits d where
  custom := hc
  unique := by
    obtain ⟨hfresh, hnd⟩ := uniqueNames_eq_nil_iff.mp (uniqueTypes_eq_nil hall)
    refine List.nodup_append.mpr ⟨hg.sound.unique, hnd, ?_⟩
    rintro n hn m hm rfl
    obtain ⟨x, hx, rfl⟩ := List.mem_map.mp hm
    have hno := (hfresh _ hm).1
    rw [(hg.hasType_iff (hc x hx)).mpr hn] at hno
    exact nomatch hno
  schemas := (loneSchema_eq_nil_iff.mp (loneSchema_eq_nil hall)).2
  targets := by
    intro e he
    rw [← hg.targetKind?_eq]
    exact checkExtension_eq_none_iff.mp (List.filterMap_eq_nil_iff.mp (typeExtensions_eq_nil hall) e he)

end Fits

namespace Grounded

variable {o : Options}

theorem knows_nextScope (hg : Grounded base) (hk : knownTypes d base = []) {n : String}
    (hn : n ∈ (under base).mentions d) : ((under base).nextScope d).knows n = true := by
  rcases hg.sound.knows_of_mem_mentions hn with hs | hd
  · exact Scope.knows_mono Snapshot.names_subset_nextScope hs
  · rw [← hg.isKnownType_eq]
    exact knownTypes_eq_nil_iff.mp hk n hd

theorem extend_ok (hg : Grounded base) (hk : knownTypes d base = []) :
    ∃ s, (under base).extend d o = .ok s := by
  cases hd : d.isEmpty with
  | true => exact ⟨_, Snapshot.extend_of_isEmpty hd _ _⟩
  | false =>
      have hknows := fun n hn => hg.knows_nextScope (n := n) hk hn
      exact ⟨_, Snapshot.extend_of_known hd hknows o⟩

theorem extend_error (hg : Grounded base) (hf : (under base).Fits d)
    (he : ∀ e ∈ d.typeExtensions, Builtin.isBuiltin e.name.text = false)
    (hk : knownTypes d base ≠ []) : ∃ n, .unknownType n ∈ knownTypes d base ∧
      (under base).extend d o = .error (.unknownType n) := by
  obtain ⟨p, hp⟩ := List.exists_mem_of_ne_nil _ hk
  obtain ⟨n, hn, hno, -⟩ := mem_knownTypes.mp hp
  have hd : d.isEmpty = false := by
    obtain ⟨x, hx, -⟩ := Document.mem_typeNames.mp hn
    exact List.isEmpty_eq_false_iff.mpr (List.ne_nil_of_mem hx)
  rw [Snapshot.extend_eq_guard hd]
  cases hr : ((under base).nextScope d).guard ((under base).mentions d) ((under base).extended d o) with
  | ok s =>
      -- the unknown name of the report is mentioned, so it would be known
      have hyes := (Scope.guard_eq_ok_iff _).mp hr |>.1 n (hf.mem_mentions he hn)
      rw [← hg.isKnownType_eq, hno] at hyes
      exact nomatch hyes
  | error e =>
      obtain ⟨m, hm, hmno, rfl⟩ := Scope.exists_unknown_of_guard _ hr
      refine ⟨m, mem_knownTypes.mpr ⟨m, ?_, (hg.isKnownType_eq m).trans hmno, rfl⟩, rfl⟩
      refine (hg.sound.knows_of_mem_mentions hm).resolve_left fun hs => ?_
      rw [Scope.knows_mono Snapshot.names_subset_nextScope hs] at hmno
      exact nomatch hmno

end Grounded

theorem declare_eq_ok_iff {o : Options} {S : Schema} : declare base d o = .ok S ↔
    check d base o = .ok () ∧ ∃ s, (under base).extend d o = .ok s ∧ S = completed base d s := by
  cases base with
  | none =>
      constructor
      · intro h
        obtain ⟨hc, s, hs, rfl⟩ := exists_of_build h
        obtain ⟨t, ht, rfl⟩ := Snapshot.exists_of_build hs
        exact ⟨hc, t, ht, rfl⟩
      · rintro ⟨hc, s, hs, rfl⟩
        have hb : Snapshot.build d o = .ok s.withConventionalRoots.withSpecifiedDirectives := by
          rw [Snapshot.build_eq, show Snapshot.empty.extend d o = .ok s from hs]
          rfl
        rw [declare, build, hc, hb]
        rfl
  | some B =>
      constructor
      · intro h
        obtain ⟨hc, ⟨hd, rfl⟩ | ⟨hd, s, hs, rfl⟩⟩ := exists_of_extend h
        · exact ⟨hc, S.snapshot, Snapshot.extend_of_isEmpty hd _ _, (if_pos hd).symm⟩
        · exact ⟨hc, s, hs, (if_neg (by simp [hd])).symm⟩
      · rintro ⟨hc, s, hs, rfl⟩
        rw [declare, Schema.extend, hc, completed]
        cases hd : d.isEmpty with
        | true => rfl
        | false =>
            rw [show B.snapshot.extend d o = .ok s from hs]
            rfl

theorem lineage_completed {o : Options} {s : Snapshot} (h : (under base).extend d o = .ok s) :
    (completed base d s).snapshot.lineage = s.lineage ∧
      (completed base d s).snapshot.generation = s.generation := by
  cases base with
  | none =>
      obtain ⟨roots, he⟩ := s.exists_withConventionalRoots
      rw [completed, he]
      exact ⟨rfl, rfl⟩
  | some B =>
      rw [completed]
      cases hd : d.isEmpty with
      | true =>
          rw [Snapshot.extend_of_isEmpty hd] at h
          obtain rfl : B.snapshot = s := Except.ok.inj h
          exact ⟨rfl, rfl⟩
      | false => exact ⟨rfl, rfl⟩

theorem registry_completed {o : Options} {s : Snapshot} (h : (under base).extend d o = .ok s) :
    (completed base d s).snapshot.registry = s.registry := by
  obtain ⟨hl, hg⟩ := lineage_completed h
  rw [Snapshot.registry, Snapshot.registry, hl, hg]

theorem scope_completed {o : Options} {s : Snapshot} (h : (under base).extend d o = .ok s) :
    (completed base d s).snapshot.scope = s.scope := by
  rw [Snapshot.scope, Snapshot.scope, registry_completed h, (lineage_completed h).2]

theorem declare_ok {o : Options} {s : Snapshot} (hc : check d base o = .ok ())
    (h : (under base).extend d o = .ok s) : ∃ S, declare base d o = .ok S :=
  ⟨_, declare_eq_ok_iff.mpr ⟨hc, s, h, rfl⟩⟩

theorem declare_error {o : Options} {e : SchemaError} (hc : check d base o = .ok ())
    (h : (under base).extend d o = .error e) : declare base d o = .error e := by
  cases base with
  | none =>
      have hb : Snapshot.build d o = .error e := by
        rw [Snapshot.build_eq, show Snapshot.empty.extend d o = .error e from h]
        rfl
      rw [declare, build, hc, hb]
      rfl
  | some S =>
      rw [declare, Schema.extend, hc]
      cases hd : d.isEmpty with
      | true =>
          rw [Snapshot.extend_of_isEmpty hd] at h
          exact nomatch h
      | false =>
          rw [show S.snapshot.extend d o = .error e from h]
          rfl

theorem check_of_validate {o : Options} (h : validate d base = []) : check d base o = .ok () := by
  unfold check
  rw [h]
  split <;> rfl

theorem check_of_unchecked {o : Options} (h : o.checks = false) : check d base o = .ok () := by
  rw [check, if_neg (by simp [h])]

theorem declare_of_validate (hb : ∀ S ∈ base, S.Reachable) (h : validate d base = [])
    (hd : d.isEmpty = false) (o : Options) :
    declare base d o = .ok (completed base d ((under base).extended d o)) := by
  obtain ⟨s, hs⟩ := (grounded_of_reachable hb).extend_ok (o := o) (validate_eq_nil_iff.mp h).knownTypes
  obtain rfl := Snapshot.eq_extended hd hs
  exact declare_eq_ok_iff.mpr ⟨check_of_validate h, _, hs, rfl⟩

theorem declare_matches_report (hb : ∀ S ∈ base, S.Reachable) (d : Document) :
    (validate d base = [] → ∀ o, ∃ S, declare base d o = .ok S) ∧
    ((∀ x ∈ d.types ++ d.typeExtensions, Builtin.isBuiltin x.name.text = false) →
      validate d base ≠ [] → (∀ p ∈ validate d base, ∃ n, p = .unknownType n) →
      ∀ o, o.checks = false → ∃ n, .unknownType n ∈ validate d base ∧
        declare base d o = .error (.unknownType n)) := by
  have hg := grounded_of_reachable hb
  constructor
  · intro h o
    obtain ⟨s, hs⟩ := hg.extend_ok (validate_eq_nil_iff.mp h).knownTypes
    exact declare_ok (check_of_validate h) hs
  · intro hc hne hall o ho
    rw [List.forall_mem_append] at hc
    obtain ⟨p, hp⟩ := List.exists_mem_of_ne_nil _ hne
    obtain ⟨m, rfl⟩ := hall p hp
    have hk := List.ne_nil_of_mem (unknownType_mem_validate_iff.mp hp)
    obtain ⟨n, hn, he⟩ := hg.extend_error (hg.fits hall hc.1) hc.2 hk
    exact ⟨n, unknownType_mem_validate_iff.mpr hn, declare_error (check_of_unchecked ho) he⟩

end Schema

namespace Pets

def schema : Schema :=
  (Snapshot.empty.extended document .default).withConventionalRoots.withSpecifiedDirectives.toSchema

theorem declare_schema : Schema.declare none document .default = .ok schema :=
  Schema.declare_of_validate (by simp) (by decide +kernel) rfl .default

theorem reachable_schema : schema.Reachable := Schema.Reachable.build declare_schema

theorem validate_owners : validate owners (some schema) = [] := by
  rw [reachable_schema.validate_eq (by decide +kernel)]
  decide +kernel

def toys : Document := ⟨[
  .typeExtension (object "Pet" [Builtin.field "toys" "[Toy!]", Builtin.field "weight" "Weight"])]⟩

theorem schema_matches_reports : (∃ S, Schema.declare (some schema) owners .default = .ok S) ∧
    ∃ n, .unknownType n ∈ validate toys (some schema) ∧
      Schema.declare (some schema) toys ⟨false, true⟩ = .error (.unknownType n) := by
  have hbase : ∀ S ∈ some schema, S.Reachable := fun _ h => Option.some.inj h ▸ reachable_schema
  have hreport : validate toys (some schema) = [.unknownType "Toy", .unknownType "Weight"] := by
    rw [reachable_schema.validate_eq (by decide +kernel)]
    decide +kernel
  refine ⟨(Schema.declare_matches_report hbase owners).1 validate_owners .default,
    (Schema.declare_matches_report hbase toys).2 (by decide +kernel) ?_ ?_ ⟨false, true⟩ rfl⟩
  · rw [hreport]
    exact List.cons_ne_nil _ _
  · intro p hp
    rw [hreport] at hp
    rcases List.mem_pair.mp hp with rfl | rfl
    · exact ⟨"Toy", rfl⟩
    · exact ⟨"Weight", rfl⟩

end Pets

end SchemaGraph
