import SchemaGraph.Proofs.Batch
import SchemaGraph.Proofs.Report

namespace SchemaGraph

theorem Roots.isEmpty_iff {r : Roots} : r.isEmpty = true ↔ ∀ o, r.get o = none := by
  simp only [isEmpty, List.all_eq_true, Option.isNone_iff_eq_none]
  exact ⟨fun h o => h o (by cases o <;> decide), fun h o _ => h o⟩

theorem Snapshot.names_nextScope_concat_first (s : Snapshot) (a b : Document) :
    (s.nextScope a).names ⊆ (s.nextScope (Document.concat [a, b])).names := by
  intro n hn
  have h := (s.registry.mem_names_nextScope s.nextHome a).mp hn
  refine (s.registry.mem_names_nextScope s.nextHome _).mpr (h.imp id fun hm => ?_)
  rw [Document.types_concat, List.map_append]
  exact List.mem_append_left _ hm

theorem Snapshot.names_nextScope_concat_second (s : Snapshot) (a b : Document) (o : Options) :
    ((s.extended a o).nextScope b).names ⊆ (s.nextScope (Document.concat [a, b])).names := by
  intro n hn
  rcases ((s.extended a o).registry.mem_names_nextScope _ b).mp hn with hm | hm
  · have hscope : (s.extended a o).scope = s.nextScope a := scope_extended
    refine s.names_nextScope_concat_first a b ?_
    rw [← hscope]
    exact hm
  · refine (s.registry.mem_names_nextScope s.nextHome _).mpr (Or.inr ?_)
    rw [Document.types_concat, List.map_append]
    exact List.mem_append_right _ hm

namespace Snapshot

variable {s : Snapshot} {d : Document} {o : Options}

theorem snapshot_toSchema : s.toSchema.snapshot = s := rfl

theorem nodes_extended : (s.extended d o).directives.map Directive.node =
    s.directives.map Directive.node ++ d.directives := by
  have hc (x : Directive) : (x.carried (s.nextScope d)).node = x.node := by
    unfold Directive.carried
    split <;> rfl
  have hp (x : DirectiveDef) : (Directive.place (s.nextScope d) x).node = x := rfl
  simp [extended, Function.comp_def, hc, hp]

def HasSpecified (s : Snapshot) : Prop :=
  ∀ x ∈ Builtin.directives, x.name ∈ s.directives.map Directive.name

theorem HasSpecified.extended (h : s.HasSpecified) : (s.extended d o).HasSpecified := by
  intro x hx
  have hname (xs : List Directive) : xs.map Directive.name =
      (xs.map Directive.node).map fun n => n.name.text := by
    rw [List.map_map]
    rfl
  rw [hname, nodes_extended, List.map_append, ← hname]
  exact List.mem_append_left _ (h x hx)

theorem hasSpecified_withSpecifiedDirectives (s : Snapshot) :
    s.withSpecifiedDirectives.HasSpecified := by
  intro x hx
  rw [withSpecifiedDirectives, List.map_append, List.mem_append]
  by_cases hn : x.name ∈ s.directives.map Directive.name
  · exact Or.inl hn
  · refine Or.inr (List.mem_map_of_mem (List.mem_filter.mpr ⟨hx, ?_⟩))
    simpa using hn

end Snapshot

namespace Schema

theorem Reachable.hasSpecified {S : Schema} (hS : S.Reachable) : S.snapshot.HasSpecified := by
  induction hS with
  | build h =>
      obtain ⟨-, s, hs, rfl⟩ := exists_of_build h
      obtain ⟨t, -, rfl⟩ := Snapshot.exists_of_build hs
      exact Snapshot.hasSpecified_withSpecifiedDirectives _
  | extend _ h ih =>
      obtain ⟨-, ⟨-, rfl⟩ | ⟨hd, s, hs, rfl⟩⟩ := exists_of_extend h
      · exact ih
      · rw [Snapshot.extend_eq_guard hd, Scope.guard_eq_ok_iff] at hs
        exact hs.2 ▸ ih.extended

end Schema

namespace Validation

variable {S : Schema} {a b d : Document} {o : Options} {n : String}

theorem allowed?_concat : allowed? (Document.concat [a, b]) (some S) n =
    allowed? b (some (S.snapshot.extended a o).toSchema) n := by
  rw [allowed?_some, allowed?_some, Document.directives_concat, ← List.append_assoc]
  rw [← Snapshot.nodes_extended (o := o)]
  rfl

theorem hasSchema_of_extended
    (h : hasSchema (some (S.snapshot.extended a o).toSchema) = false) :
    hasSchema (some S) = false ∧ a.schemas = [] ∧ a.operations = [] := by
  rw [hasSchema, Option.any_some, Bool.or_eq_false_iff] at h
  obtain ⟨hnode, hroots⟩ := h
  have hnode : a.schema?.or S.snapshot.node = none :=
    Option.not_isSome_iff_eq_none.mp (Bool.eq_false_iff.mp hnode)
  obtain ⟨ha, hS⟩ := Option.or_eq_none_iff.mp hnode
  have hget := Roots.isEmpty_iff.mp (by simpa using hroots)
  have hlast : ∀ p, (a.operations.filter (·.operation = p)).getLast? = none ∧
      S.snapshot.roots.get p = none := by
    intro p
    have hp := hget p
    change (((S.snapshot.roots.move _).declared _ a.operations).get p) = none at hp
    rw [Roots.get_declared, Roots.get_move] at hp
    obtain ⟨hops, hold⟩ := Option.or_eq_none_iff.mp hp
    exact ⟨Option.map_eq_none_iff.mp hops, Option.map_eq_none_iff.mp hold⟩
  refine ⟨?_, List.getLast?_eq_none_iff.mp ha, ?_⟩
  · have hempty : S.snapshot.roots.isEmpty = true := Roots.isEmpty_iff.mpr fun p => (hlast p).2
    rw [hasSchema, Option.any_some, hS, hempty]
    rfl
  · refine List.eq_nil_iff_forall_not_mem.mpr fun op hop => ?_
    have hnil := List.getLast?_eq_none_iff.mp (hlast op.operation).1
    exact List.filter_eq_nil_iff.mp hnil op hop (by simp)

theorem oneSchema_of_loneSchema
    (h : loneSchema b (some (S.snapshot.extended a o).toSchema) = []) : Document.OneSchema a b := by
  unfold loneSchema at h
  split at h
  · exact Or.inl (List.map_eq_nil_iff.mp h)
  · rename_i hno
    obtain ⟨-, ha, hops⟩ := hasSchema_of_extended (Bool.eq_false_iff.mpr hno)
    exact Or.inr ⟨ha, hops⟩

theorem uniqueTypes_of_nodup {base : Option Schema} (hg : Schema.Grounded base)
    (hc : ∀ x ∈ d.types, Builtin.isBuiltin x.name.text = false)
    (hnd : ((Schema.under base).registry.names ++ d.types.map (·.name.text)).Nodup) :
    uniqueTypes d base = [] := by
  obtain ⟨-, hdoc, hdisj⟩ := List.nodup_append.mp hnd
  refine uniqueNames_eq_nil_iff.mpr ⟨fun n hn => ⟨?_, List.not_mem_nil⟩, hdoc⟩
  obtain ⟨x, hx, rfl⟩ := List.mem_map.mp hn
  refine Bool.eq_false_iff.mpr fun hyes => ?_
  exact hdisj _ ((hg.hasType_iff (hc x hx)).mp hyes) _ hn rfl

theorem mem_names_of_allowed? (hs : S.snapshot.HasSpecified) {ls : List DirectiveLocation}
    (hl : allowed? d (some S) n = some ls) :
    n ∈ ((S.snapshot.extended d o).directives.map Directive.node).map (·.name.text) := by
  rw [allowed?_some] at hl
  obtain ⟨x, hx, -⟩ := Option.map_eq_some_iff.mp hl
  rw [Snapshot.nodes_extended]
  rcases List.mem_append.mp (List.mem_of_getLast? hx) with hm | hm
  · obtain ⟨y, hy, -⟩ := List.mem_map.mp hm
    obtain ⟨hy, hn⟩ := List.mem_filter.mp hy
    have hname := hs y hy
    rw [beq_iff_eq.mp hn] at hname
    rw [List.map_append, List.map_map]
    exact List.mem_append_left _ hname
  · obtain ⟨hx, hn⟩ := List.mem_filter.mp hm
    exact beq_iff_eq.mp hn ▸ List.mem_map_of_mem hx

theorem allowed?_concat_first (hs : S.snapshot.HasSpecified)
    (hu : uniqueDirectives b (some (S.snapshot.extended a o).toSchema) = [])
    {ls : List DirectiveLocation} (hl : allowed? a (some S) n = some ls) :
    allowed? (Document.concat [a, b]) (some S) n = some ls := by
  -- the second document cannot declare a directive that was there for the first
  have hnot : n ∉ b.directives.map (·.name.text) := by
    intro hn
    have hno := ((uniqueNames_eq_nil_iff.mp hu).1 n hn).1
    rw [hasDirective_iff.mpr (mem_names_of_allowed? hs hl)] at hno
    exact nomatch hno
  have hfilter : b.directives.filter (·.name.text == n) = [] := by
    refine List.filter_eq_nil_iff.mpr fun x hx he => hnot ?_
    exact beq_iff_eq.mp he ▸ List.mem_map_of_mem hx
  rw [← hl, allowed?_some, allowed?_some, Document.directives_concat, ← List.append_assoc,
    List.filter_append _ b.directives, hfilter, List.append_nil]

end Validation

namespace Schema

open Validation

structure PassInTurn (S : Schema) (a b : Document) (o : Options) : Prop where
  reachable : S.Reachable
  reachable₁ : (S.snapshot.extended a o).toSchema.Reachable
  custom : ∀ x ∈ a.types, Builtin.isBuiltin x.name.text = false
  custom₁ : ∀ x ∈ b.types, Builtin.isBuiltin x.name.text = false
  clean : Clean a (some S)
  clean₁ : Clean b (some (S.snapshot.extended a o).toSchema)

namespace PassInTurn

variable {S : Schema} {a b : Document} {o : Options} (h : S.PassInTurn a b o)
include h

theorem fits : S.snapshot.FitsInTurn a b o where
  first := h.reachable.grounded.fits h.clean.unknownType_of_mem h.custom
  second := h.reachable₁.grounded.fits h.clean₁.unknownType_of_mem h.custom₁
  schema := oneSchema_of_loneSchema h.clean₁.loneSchema

theorem loneSchema : loneSchema (Document.concat [a, b]) (some S) = [] := by
  have ha := h.clean.loneSchema
  have hb := h.clean₁.loneSchema
  unfold Validation.loneSchema at ha hb ⊢
  rw [Document.schemas_concat]
  cases hno : hasSchema (some (S.snapshot.extended a o).toSchema) with
  | true =>
      rw [if_pos hno, List.map_eq_nil_iff] at hb
      rw [hb, List.append_nil]
      exact ha
  | false =>
      obtain ⟨hS, hnil, -⟩ := hasSchema_of_extended hno
      rw [if_neg (by simp [hno])] at hb
      rw [if_neg (by simp [hS]), hnil, List.nil_append]
      exact hb

theorem uniqueDirectives : uniqueDirectives (Document.concat [a, b]) (some S) = [] := by
  obtain ⟨hfa, hna⟩ := uniqueNames_eq_nil_iff.mp h.clean.uniqueDirectives
  obtain ⟨hfb, hnb⟩ := uniqueNames_eq_nil_iff.mp h.clean₁.uniqueDirectives
  have hfresh : ∀ n ∈ b.directives.map (·.name.text),
      hasDirective (some S) n = false ∧ n ∉ a.directives.map (·.name.text) := by
    intro n hn
    have hno := (hfb n hn).1
    rw [← Bool.not_eq_true, hasDirective_iff] at hno ⊢
    rw [Snapshot.snapshot_toSchema, Snapshot.nodes_extended, List.map_append, List.mem_append,
      not_or] at hno
    exact hno
  refine uniqueNames_eq_nil_iff.mpr ?_
  rw [Document.directives_concat, List.map_append]
  refine ⟨fun n hn => ⟨?_, List.not_mem_nil⟩, List.nodup_append.mpr ⟨hna, hnb, ?_⟩⟩
  · rcases List.mem_append.mp hn with hm | hm
    · exact (hfa n hm).1
    · exact (hfresh n hm).1
  · rintro n hn m hm rfl
    exact (hfresh n hm).2 hn

theorem knownTypes : knownTypes (Document.concat [a, b]) (some S) = [] := by
  have hg := h.reachable.grounded
  refine knownTypes_eq_nil_iff.mpr fun n hn => ?_
  rw [hg.isKnownType_eq]
  rw [Document.typeNames_concat] at hn
  rcases List.mem_append.mp hn with hm | hm
  · have hk := knownTypes_eq_nil_iff.mp h.clean.knownTypes n hm
    rw [hg.isKnownType_eq] at hk
    exact Scope.knows_mono (S.snapshot.names_nextScope_concat_first a b) hk
  · have hk := knownTypes_eq_nil_iff.mp h.clean₁.knownTypes n hm
    rw [h.reachable₁.grounded.isKnownType_eq] at hk
    exact Scope.knows_mono (S.snapshot.names_nextScope_concat_second a b o) hk

theorem knownDirectives : knownDirectives (Document.concat [a, b]) (some S) = [] := by
  refine knownDirectives_eq_nil_iff.mpr ?_
  rw [Document.definitions_concat, List.flatMap_append]
  intro site hsite x hx
  rw [checkApplied_eq_none_iff]
  rcases List.mem_append.mp hsite with hm | hm
  · have hnone := knownDirectives_eq_nil_iff.mp h.clean.knownDirectives site hm x hx
    obtain ⟨ls, hl, hc⟩ := checkApplied_eq_none_iff.mp hnone
    have hspecified := h.reachable.hasSpecified
    exact ⟨ls, allowed?_concat_first hspecified h.clean₁.uniqueDirectives hl, hc⟩
  · have hnone := knownDirectives_eq_nil_iff.mp h.clean₁.knownDirectives site hm x hx
    obtain ⟨ls, hl, hc⟩ := checkApplied_eq_none_iff.mp hnone
    exact ⟨ls, allowed?_concat.trans hl, hc⟩

theorem typeExtensions : typeExtensions (Document.concat [a, b]) (some S) = [] := by
  refine List.filterMap_eq_nil_iff.mpr fun e he => ?_
  rw [checkExtension_eq_none_iff, h.reachable.grounded.targetKind?_eq]
  exact h.fits.concat.targets e he

theorem clean_concat : Clean (Document.concat [a, b]) (some S) where
  loneSchema := h.loneSchema
  uniqueTypes := uniqueTypes_of_nodup h.reachable.grounded h.fits.concat.custom h.fits.concat.unique
  uniqueDirectives := h.uniqueDirectives
  knownTypes := h.knownTypes
  knownDirectives := h.knownDirectives
  typeExtensions := h.typeExtensions

end PassInTurn

structure Agrees (S S' : Schema) : Prop where
  snapshot : S.snapshot.Alike S'.snapshot
  typeMap : S.typeMap.map NamedType.bare = S'.typeMap.map NamedType.bare

theorem Agrees.refl (S : Schema) : S.Agrees S := ⟨Snapshot.Alike.refl _, rfl⟩

theorem clean_of_check {base : Option Schema} {d : Document}
    (h : check d base .default = .ok ()) : Clean d base := by
  unfold check at h
  cases hv : validate d base with
  | nil => exact validate_eq_nil_iff.mp hv
  | cons p ps =>
      rw [hv] at h
      exact nomatch h

theorem extend_eq_toSchema {S : Schema} {d : Document} {o : Options} {s : Snapshot}
    (hc : check d (some S) o = .ok ()) (hd : d.isEmpty = false)
    (hs : S.snapshot.extend d o = .ok s) : S.extend d o = .ok s.toSchema := by
  rw [Schema.extend, hc, hd, hs]
  rfl

theorem extend_concat_agrees {S S₁ S₂ : Schema} {a b : Document} (hS : S.Reachable)
    (hca : ∀ x ∈ a.types, Builtin.isBuiltin x.name.text = false)
    (hcb : ∀ x ∈ b.types, Builtin.isBuiltin x.name.text = false)
    (ha : S.extend a .default = .ok S₁) (hb : S₁.extend b .default = .ok S₂) :
    ∃ S', S.extend (Document.concat [a, b]) .default = .ok S' ∧ S'.Agrees S₂ := by
  have hS₁ : S₁.Reachable := hS.extend ha
  have hS₂ : S₂.Reachable := hS₁.extend hb
  obtain ⟨hchecka, ⟨hda, rfl⟩ | ⟨hda, s₁, hs₁, rfl⟩⟩ := exists_of_extend ha
  · rw [Document.concat_of_isEmpty_first hda b]
    exact ⟨S₂, hb, Agrees.refl S₂⟩
  obtain ⟨hcheckb, ⟨hdb, rfl⟩ | ⟨hdb, s₂, hs₂, rfl⟩⟩ := exists_of_extend hb
  · rw [Document.concat_of_isEmpty_second a hdb]
    exact ⟨s₁.toSchema, ha, Agrees.refl _⟩
  obtain rfl := Snapshot.eq_extended hda hs₁
  obtain rfl := Snapshot.eq_extended hdb hs₂
  have h : S.PassInTurn a b .default :=
    ⟨hS, hS₁, hca, hcb, clean_of_check hchecka, clean_of_check hcheckb⟩
  obtain ⟨s', hs'⟩ := hS.grounded.extend_ok h.clean_concat.knownTypes (o := .default)
  have hd : (Document.concat [a, b]).isEmpty = false := Document.isEmpty_concat hda b
  have hc := check_of_validate (o := .default) (validate_eq_nil_iff.mpr h.clean_concat)
  refine ⟨s'.toSchema, extend_eq_toSchema hc hd hs', ?_⟩
  have hsound := hS.sound.extend hs'
  obtain rfl := Snapshot.eq_extended hd hs'
  exact ⟨h.fits.alike, h.fits.alike.typeMap hsound hS₂.sound⟩

end Schema

namespace Pets

def shops : Document := ⟨[
  .type (object "Shop" [Builtin.field "sells" "[Pet!]!"]),
  .typeExtension (object "Owner" [Builtin.field "favourite" "Shop"]),
  .typeExtension (object "Query" [Builtin.field "shops" "[Shop!]!"])]⟩

theorem owners_and_shops_agree : ∃ S₁ S₂ S', schema.extend owners .default = .ok S₁ ∧
    S₁.extend shops .default = .ok S₂ ∧
    schema.extend (Document.concat [owners, shops]) .default = .ok S' ∧ S'.Agrees S₂ := by
  have ha : schema.extend owners .default = .ok (schema.snapshot.extended owners .default).toSchema :=
    Schema.declare_of_validate reachable_schema.forall_mem_some validate_owners rfl .default
  have hvalid : validate shops (some (schema.snapshot.extended owners .default).toSchema) = [] := by
    rw [(reachable_schema.extend ha).validate_eq (by decide +kernel)]
    decide +kernel
  have hb := Schema.declare_of_validate (reachable_schema.extend ha).forall_mem_some hvalid rfl .default
  obtain ⟨S', hc, hagree⟩ := Schema.extend_concat_agrees reachable_schema (by decide +kernel)
    (by decide +kernel) ha hb
  exact ⟨_, _, S', ha, hb, hc, hagree⟩

end Pets

end SchemaGraph
