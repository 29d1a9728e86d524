import SchemaGraph.Proofs.Fit

namespace SchemaGraph

namespace Validation

theorem uniqueNames_eq_nil_iff {exists? : String → Bool} {existing duplicate : String → Problem}
    {seen names : List String} : uniqueNames exists? existing duplicate seen names = [] ↔
      (∀ n ∈ names, exists? n = false ∧ n ∉ seen) ∧ names.Nodup := by
  induction names generalizing seen with
  | nil => exact ⟨fun _ => ⟨nofun, List.nodup_nil⟩, fun _ => rfl⟩
  | cons n ns ih =>
      rw [uniqueNames]
      by_cases he : exists? n = true
      · simp [he]
      · by_cases hs : n ∈ seen
        · simp [he, hs]
        · rw [if_neg he, if_neg (by simpa using hs), ih, List.nodup_cons]
          constructor
          · rintro ⟨h, hnd⟩
            refine ⟨?_, fun hm => (h n hm).2 List.mem_cons_self, hnd⟩
            intro m hm
            rcases List.mem_cons.mp hm with rfl | hm
            · exact ⟨Bool.eq_false_iff.mpr he, hs⟩
            · exact ⟨(h m hm).1, fun hms => (h m hm).2 (List.mem_cons_of_mem _ hms)⟩
          · rintro ⟨h, hn, hnd⟩
            refine ⟨fun m hm => ⟨(h m (List.mem_cons_of_mem _ hm)).1, ?_⟩, hnd⟩
            intro hms
            rcases List.mem_cons.mp hms with rfl | hms
            · exact hn hm
            · exact (h m (List.mem_cons_of_mem _ hm)).2 hms

theorem uniqueNames_congr {exists? exists?' : String → Bool} {existing duplicate : String → Problem}
    {seen names : List String} (h : ∀ n ∈ names, exists? n = exists?' n) :
    uniqueNames exists? existing duplicate seen names =
      uniqueNames exists?' existing duplicate seen names := by
  induction names generalizing seen with
  | nil => rfl
  | cons n ns ih =>
      rw [List.forall_mem_cons] at h
      rw [uniqueNames, uniqueNames, h.1, ih h.2, ih h.2]

variable {d : Document} {base : Option Schema}

theorem loneSchema_eq_nil_iff : loneSchema d base = [] ↔
    (hasSchema base = true → d.schemas = []) ∧ d.schemas.length ≤ 1 := by
  unfold loneSchema
  cases hasSchema base with
  | true =>
      rw [if_pos rfl, List.map_eq_nil_iff]
      exact ⟨fun h => ⟨fun _ => h, by simp [h]⟩, fun h => h.1 rfl⟩
  | false =>
      rw [if_neg Bool.false_ne_true, List.map_eq_nil_iff, List.drop_eq_nil_iff]
      exact ⟨fun h => ⟨nofun, h⟩, fun h => h.2⟩

theorem checkExtension_eq_none_iff {e : TypeDef} :
    checkExtension d base e = none ↔ targetKind? d base e.name.text = some e.kind := by
  unfold checkExtension
  cases targetKind? d base e.name.text with
  | none => simp
  | some kind => simp

theorem mem_knownTypes {p : Problem} :
    p ∈ knownTypes d base ↔ ∃ n ∈ d.typeNames, isKnownType d base n = false ∧ p = .unknownType n := by
  simp only [knownTypes, Document.typeNames, List.mem_map, List.mem_filter, Bool.not_eq_true']
  constructor
  · rintro ⟨i, ⟨hi, hk⟩, rfl⟩
    exact ⟨i.text, ⟨i, hi, rfl⟩, hk, rfl⟩
  · rintro ⟨n, ⟨i, hi, rfl⟩, hk, rfl⟩
    exact ⟨i, ⟨hi, hk⟩, rfl⟩

theorem knownTypes_eq_nil_iff :
    knownTypes d base = [] ↔ ∀ n ∈ d.typeNames, isKnownType d base n = true := by
  rw [List.eq_nil_iff_forall_not_mem]
  constructor
  · intro h n hn
    by_contra hno
    exact h _ (mem_knownTypes.mpr ⟨n, hn, Bool.eq_false_iff.mpr hno, rfl⟩)
  · intro h p hp
    obtain ⟨n, hn, hno, -⟩ := mem_knownTypes.mp hp
    exact nomatch hno.symm.trans (h n hn)

theorem checkApplied_eq_none_iff {location : DirectiveLocation} {x : Applied} :
    checkApplied d base location x = none ↔
      ∃ ls, allowed? d base x.name.text = some ls ∧ ls.contains location = true := by
  unfold checkApplied
  cases allowed? d base x.name.text with
  | none => simp
  | some ls => simp

theorem knownDirectives_eq_nil_iff : knownDirectives d base = [] ↔
    ∀ site ∈ d.definitions.flatMap Definition.sites, ∀ x ∈ site.applied,
      checkApplied d base site.location x = none := by
  simp only [knownDirectives, List.flatMap_eq_nil_iff, List.filterMap_eq_nil_iff]

theorem hasDirective_iff {S : Schema} {n : String} :
    hasDirective (some S) n = true ↔ n ∈ (S.snapshot.directives.map Directive.node).map (·.name.text) := by
  rw [hasDirective, Option.any_some, Schema.directive?, Option.isSome_iff_ne_none, ne_eq,
    Keyed.get?_eq_none_iff, not_not, List.map_map]
  rfl

theorem allowed?_some {S : Schema} {n : String} : allowed? d (some S) n =
    ((Builtin.directives.filter (·.name == n)).map Directive.node ++
      (S.snapshot.directives.map Directive.node ++ d.directives).filter (·.name.text == n)).getLast?.map
        DirectiveDef.locations := by
  rw [allowed?, List.filter_append, List.filter_map, List.append_assoc]
  rfl

variable {n : String}

theorem unknownType_not_mem_loneSchema : .unknownType n ∉ loneSchema d base := by
  intro h
  unfold loneSchema at h
  split at h
  · exact nomatch List.eq_of_mem_map_const h
  · exact nomatch List.eq_of_mem_map_const h

theorem not_mem_uniqueNames {exists? : String → Bool} {existing duplicate : String → Problem}
    {p : Problem} (he : ∀ m, p ≠ existing m) (hd : ∀ m, p ≠ duplicate m) (seen names : List String) :
    p ∉ uniqueNames exists? existing duplicate seen names := by
  induction names generalizing seen with
  | nil => exact List.not_mem_nil
  | cons m ms ih =>
      rw [uniqueNames]
      split
      · exact List.not_mem_cons_of_ne_of_not_mem (he m) (ih seen)
      · split
        · exact List.not_mem_cons_of_ne_of_not_mem (hd m) (ih seen)
        · exact ih (m :: seen)

theorem unknownType_not_mem_uniqueTypes : .unknownType n ∉ uniqueTypes d base := by
  refine not_mem_uniqueNames ?_ ?_ _ _ <;> exact fun _ => nofun

theorem unknownType_not_mem_uniqueDirectives : .unknownType n ∉ uniqueDirectives d base := by
  refine not_mem_uniqueNames ?_ ?_ _ _ <;> exact fun _ => nofun

theorem unknownType_not_mem_knownDirectives : .unknownType n ∉ knownDirectives d base := by
  intro h
  obtain ⟨site, -, hm⟩ := List.mem_flatMap.mp h
  obtain ⟨a, -, ha⟩ := List.mem_filterMap.mp hm
  unfold checkApplied at ha
  split at ha
  · exact nomatch Option.some.inj ha
  · split at ha
    · exact nomatch ha
    · exact nomatch Option.some.inj ha

theorem unknownType_not_mem_typeExtensions : .unknownType n ∉ typeExtensions d base := by
  intro h
  obtain ⟨e, -, he⟩ := List.mem_filterMap.mp h
  unfold checkExtension at he
  split at he
  · exact nomatch Option.some.inj he
  · split at he
    · exact nomatch he
    · exact nomatch Option.some.inj he

theorem unknownType_mem_validate_iff :
    .unknownType n ∈ validate d base ↔ .unknownType n ∈ knownTypes d base := by
  simp only [validate, List.mem_append, unknownType_not_mem_loneSchema, unknownType_not_mem_uniqueTypes,
    unknownType_not_mem_uniqueDirectives, unknownType_not_mem_knownDirectives,
    unknownType_not_mem_typeExtensions, false_or, or_false]

structure Clean (d : Document) (base : Option Schema) : Prop where
  loneSchema : loneSchema d base = []
  uniqueTypes : uniqueTypes d base = []
  uniqueDirectives : uniqueDirectives d base = []
  knownTypes : knownTypes d base = []
  knownDirectives : knownDirectives d base = []
  typeExtensions : typeExtensions d base = []

theorem validate_eq_nil_iff : validate d base = [] ↔ Clean d base := by
  simp only [validate, List.append_eq_nil_iff]
  constructor
  · rintro ⟨⟨⟨⟨⟨h₁, h₂⟩, h₃⟩, h₄⟩, h₅⟩, h₆⟩
    exact ⟨h₁, h₂, h₃, h₄, h₅, h₆⟩
  · rintro ⟨h₁, h₂, h₃, h₄, h₅, h₆⟩
    exact ⟨⟨⟨⟨⟨h₁, h₂⟩, h₃⟩, h₄⟩, h₅⟩, h₆⟩

theorem Clean.nodup_types (h : Clean d base) : (d.types.map (·.name.text)).Nodup :=
  (uniqueNames_eq_nil_iff.mp h.uniqueTypes).2

theorem Clean.nodup_directives (h : Clean d base) : (d.directives.map (·.name.text)).Nodup :=
  (uniqueNames_eq_nil_iff.mp h.uniqueDirectives).2

theorem Clean.schemas_length_le (h : Clean d base) : d.schemas.length ≤ 1 :=
  (loneSchema_eq_nil_iff.mp h.loneSchema).2

theorem Clean.unknownType_of_mem (h : Clean d base) : ∀ p ∈ validate d base, ∃ n, p = .unknownType n := by
  rw [validate_eq_nil_iff.mpr h]
  exact nofun

theorem eq_nil_of_unknownType {problems : List Problem}
    (hall : ∀ p ∈ problems, ∃ n, p = .unknownType n) (hnot : ∀ n, .unknownType n ∉ problems) :
    problems = [] := by
  refine List.eq_nil_iff_forall_not_mem.mpr fun p hp => ?_
  obtain ⟨n, rfl⟩ := hall p hp
  exact hnot n hp

end Validation

end SchemaGraph
