import SchemaGraph.Proofs.History

namespace SchemaGraph

namespace Document

variable {d : Document}

def typeNames (d : Document) : List String :=
  (d.definitions.flatMap Definition.typeNames).map Ident.text

theorem mem_pick {α : Type} {f : Definition → Option α} {g : α → Definition}
    (h : ∀ y x, f y = some x ↔ y = g x) {x : α} :
    x ∈ d.definitions.filterMap f ↔ g x ∈ d.definitions := by
  simp only [List.mem_filterMap, h, exists_eq_right]

theorem mem_types {x : TypeDef} : x ∈ d.types ↔ .type x ∈ d.definitions := by
  refine mem_pick fun y x => ?_
  cases y <;> simp

theorem mem_typeExtensions {x : TypeDef} : x ∈ d.typeExtensions ↔ .typeExtension x ∈ d.definitions := by
  refine mem_pick fun y x => ?_
  cases y <;> simp

theorem mem_directives {x : DirectiveDef} : x ∈ d.directives ↔ .directive x ∈ d.definitions := by
  refine mem_pick fun y x => ?_
  cases y <;> simp

theorem mem_schemas {x : SchemaDef} : x ∈ d.schemas ↔ .schema x ∈ d.definitions := by
  refine mem_pick fun y x => ?_
  cases y <;> simp

theorem mem_schemaExtensions {x : SchemaDef} :
    x ∈ d.schemaExtensions ↔ .schemaExtension x ∈ d.definitions := by
  refine mem_pick fun y x => ?_
  cases y <;> simp

theorem mem_typeNames {n : String} :
    n ∈ d.typeNames ↔ ∃ x ∈ d.definitions, n ∈ x.typeNames.map Ident.text := by
  rw [typeNames, List.map_flatMap, List.mem_flatMap]

theorem mem_extensionsOf {e : TypeDef} {n : String} :
    e ∈ d.extensionsOf n ↔ e ∈ d.typeExtensions ∧ e.name.text = n := by
  rw [extensionsOf, List.mem_filter, beq_iff_eq]

theorem mem_operations {op : OperationDef} : op ∈ d.operations ↔
    (∃ x, d.schema? = some x ∧ op ∈ x.operations) ∨ ∃ x ∈ d.schemaExtensions, op ∈ x.operations := by
  rw [operations, List.flatMap_append, List.mem_append, List.mem_flatMap, List.mem_flatMap]
  simp only [Option.mem_toList]

variable {n : String} {x : TypeDef}

def definition? (d : Document) (n : String) : Option TypeDef :=
  (d.types.filter (·.name.text == n)).getLast?

theorem definition?_eq_none_iff : d.definition? n = none ↔ n ∉ d.types.map (·.name.text) := by
  rw [definition?, List.getLast?_eq_none_iff, List.filter_eq_nil_iff]
  simp

theorem definition?_of_mem (hn : (d.types.map (·.name.text)).Nodup) (hx : x ∈ d.types) :
    d.definition? x.name.text = some x := by
  rw [definition?, Keyed.filter_of_nodup (fun x : TypeDef => x.name.text) hn hx, List.getLast?_singleton]

theorem mem_types_of_definition? (h : d.definition? n = some x) : x ∈ d.types ∧ x.name.text = n := by
  obtain ⟨hx, hn⟩ := List.mem_filter.mp (List.mem_of_getLast? h)
  exact ⟨hx, beq_iff_eq.mp hn⟩

end Document

namespace Seed

theorem ofType_of_custom {t : NamedType} (h : Builtin.isBuiltin t.name = false) :
    ofType t = .carried t := by
  rw [ofType, Builtin.type?_eq_none_iff.mpr h]

theorem ofDef_of_custom {x : TypeDef} (h : Builtin.isBuiltin x.name.text = false) :
    ofDef x = .fresh x := by
  rw [ofDef, Builtin.type?_eq_none_iff.mpr h]

end Seed

namespace Registry

variable {r : Registry} {d : Document} {n : String}

theorem get?_seeds (hu : r.names.Nodup) (n : String) : Keyed.get? Seed.name n (r.seeds d) =
    ((d.definition? n).map Seed.ofDef).or ((r.get? n).map Seed.ofType) := by
  have hd : (fun x : TypeDef => (Seed.ofDef x).name == n) = fun x => x.name.text == n := by
    funext x
    rw [Seed.name_ofDef]
  have ht : (fun t : NamedType => (Seed.ofType t).name == n) = fun t => t.name == n := by
    funext t
    rw [Seed.name_ofType]
  rw [seeds, Keyed.lastWriteWins, Keyed.get?_ofList, List.filter_append, List.getLast?_append,
    List.filter_map, List.filter_map, List.getLast?_map, List.getLast?_map, Document.definition?,
    get?, Keyed.get?_eq_getLast? NamedType.name hu]
  simp only [Function.comp_def, hd, ht]

theorem get?_seeds_of_custom (hu : r.names.Nodup) (hb : Builtin.isBuiltin n = false) :
    Keyed.get? Seed.name n (r.seeds d) =
      ((d.definition? n).map Seed.fresh).or ((r.get? n).map Seed.carried) := by
  rw [get?_seeds hu]
  congr 1
  · refine Option.map_congr fun x hx => Seed.ofDef_of_custom ?_
    rw [(Document.mem_types_of_definition? hx).2]
    exact hb
  · refine Option.map_congr fun t ht => Seed.ofType_of_custom ?_
    rw [Keyed.key_of_get? NamedType.name ht]
    exact hb

theorem get?_extended (home : Home) (n : String) : (r.extended home d).get? n =
    (Keyed.get? Seed.name n (r.seeds d)).map (Seed.entry (r.nextScope home d) (d.extensionsOf n)) := by
  rw [get?, extended, Keyed.get?_map Seed.name (fun seed => Seed.name_entry _ _ seed)]
  refine Option.map_congr fun seed hseed => ?_
  rw [Keyed.key_of_get? Seed.name hseed]

theorem get?_extended_of_custom (hu : r.names.Nodup) (home : Home) (hb : Builtin.isBuiltin n = false) :
    (r.extended home d).get? n =
      ((d.definition? n).map fun x => NamedType.place (r.nextScope home d) x (d.extensionsOf n)).or
        ((r.get? n).map fun t => t.grow (r.nextScope home d) (d.extensionsOf n)) := by
  rw [get?_extended, get?_seeds_of_custom hu hb, Option.map_or, Option.map_map, Option.map_map]
  rfl

theorem mem_seeds_iff {seed : Seed} :
    seed ∈ r.seeds d ↔ Keyed.get? Seed.name seed.name (r.seeds d) = some seed :=
  ⟨Keyed.get?_of_nodup Seed.name (Keyed.nodup_ofList _ _), Keyed.mem_of_get? Seed.name⟩

theorem fresh_mem_seeds (hu : r.names.Nodup) {x : TypeDef} : .fresh x ∈ r.seeds d ↔
    Builtin.isBuiltin x.name.text = false ∧ d.definition? x.name.text = some x := by
  constructor
  · intro h
    rcases seed_cases h with ⟨b, he, -⟩ | ⟨t, -, he, -⟩ | ⟨y, -, he, hb⟩
    · exact nomatch he
    · exact nomatch he
    · obtain rfl := Seed.fresh.inj he
      have hx := mem_seeds_iff.mp h
      rw [Seed.name, get?_seeds_of_custom hu hb] at hx
      refine ⟨hb, ?_⟩
      cases hd : d.definition? x.name.text with
      | some y =>
          rw [hd] at hx
          exact congrArg some (Seed.fresh.inj (Option.some.inj hx))
      | none =>
          rw [hd] at hx
          obtain ⟨t, -, ht⟩ := Option.map_eq_some_iff.mp hx
          exact nomatch ht
  · rintro ⟨hb, hd⟩
    refine mem_seeds_iff.mpr ?_
    rw [Seed.name, get?_seeds_of_custom hu hb, hd]
    rfl

theorem carried_mem_seeds (hu : r.names.Nodup) {t : NamedType} : .carried t ∈ r.seeds d ↔
    Builtin.isBuiltin t.name = false ∧ d.definition? t.name = none ∧ t ∈ r.types := by
  constructor
  · intro h
    rcases seed_cases h with ⟨b, he, -⟩ | ⟨u, hu', he, hb⟩ | ⟨y, -, he, -⟩
    · exact nomatch he
    · obtain rfl := Seed.carried.inj he
      have ht := mem_seeds_iff.mp h
      rw [Seed.name, get?_seeds_of_custom hu hb] at ht
      refine ⟨hb, ?_, hu'⟩
      cases hd : d.definition? t.name with
      | some y =>
          rw [hd] at ht
          exact nomatch Option.some.inj ht
      | none => rfl
    · exact nomatch he
  · rintro ⟨hb, hd, ht⟩
    refine mem_seeds_iff.mpr ?_
    rw [Seed.name, get?_seeds_of_custom hu hb, hd, get?, Keyed.get?_of_nodup NamedType.name hu ht]
    rfl

end Registry

namespace Snapshot

variable {s : Snapshot} {d : Document} {n : String}

def targetKind? (s : Snapshot) (d : Document) (n : String) : Option Kind :=
  ((d.types.filter (·.name.text == n)).getLast?.map TypeDef.kind).or
    ((s.registry.lookup n).map NamedType.kind)

/-- The definitions of a document that extending the snapshot with it makes use of. -/
def Effective (s : Snapshot) (d : Document) : Definition → Prop
  | .type x => Builtin.isBuiltin x.name.text = false ∧ d.definition? x.name.text = some x
  | .typeExtension e => Builtin.isBuiltin e.name.text = false ∧ e ∈ d.typeExtensions ∧
      s.targetKind? d e.name.text = some e.kind
  | .directive x => x ∈ d.directives
  | .schema x => d.schema? = some x
  | .schemaExtension x => x ∈ d.schemaExtensions

theorem Effective.mem {x : Definition} (h : s.Effective d x) : x ∈ d.definitions := by
  cases x with
  | type x => exact Document.mem_types.mp (Document.mem_types_of_definition? h.2).1
  | typeExtension e => exact Document.mem_typeExtensions.mp h.2.1
  | directive x => exact Document.mem_directives.mp h
  | schema x => exact Document.mem_schemas.mp (List.mem_of_getLast? h)
  | schemaExtension x => exact Document.mem_schemaExtensions.mp h

theorem targetKind?_of_custom (hb : Builtin.isBuiltin n = false) : s.targetKind? d n =
    ((d.definition? n).map TypeDef.kind).or ((s.registry.get? n).map NamedType.kind) := by
  rw [targetKind?, Registry.lookup, Builtin.type?_eq_none_iff.mpr hb, Option.none_or,
    Document.definition?]

theorem effective_of_extensionsOf {e : TypeDef} (hb : Builtin.isBuiltin n = false)
    (he : e ∈ d.extensionsOf n) (hk : s.targetKind? d n = some e.kind) :
    s.Effective d (.typeExtension e) := by
  obtain ⟨hm, rfl⟩ := Document.mem_extensionsOf.mp he
  exact ⟨hb, hm, hk⟩

theorem Sound.knows_of_mem_refs (hs : s.Sound) {t : NamedType} (ht : t ∈ s.registry.types)
    (hn : n ∈ t.refs.map Ref.name) : s.scope.knows n = true := by
  obtain ⟨r, hr, rfl⟩ := List.mem_map.mp hn
  exact ((hs.entries t ht).refs r hr).1

theorem Sound.effective_of_seed (hs : s.Sound) {seed : Seed} (hseed : seed ∈ s.registry.seeds d)
    (hn : n ∈ seed.mentions (d.extensionsOf seed.name)) :
    s.scope.knows n = true ∨ ∃ x, s.Effective d x ∧ n ∈ x.typeNames.map Ident.text := by
  cases seed with
  | builtin b => exact absurd hn List.not_mem_nil
  | carried t =>
      -- a definition would have taken the place of the type
      obtain ⟨hb, hd, ht⟩ := (Registry.carried_mem_seeds hs.unique).mp hseed
      rcases NamedType.mem_growMentions.mp hn with hr | ⟨e, he, hk, hr⟩
      · exact Or.inl (hs.knows_of_mem_refs ht hr)
      · refine Or.inr ⟨.typeExtension e, effective_of_extensionsOf hb he ?_, hr⟩
        have hget : s.registry.get? t.name = some t := Keyed.get?_of_nodup NamedType.name hs.unique ht
        rw [targetKind?_of_custom hb, hd, hget, Option.map_none, Option.none_or, Option.map_some, hk]
  | fresh x =>
      obtain ⟨hb, hd⟩ := (Registry.fresh_mem_seeds hs.unique).mp hseed
      rcases NamedType.mem_placeMentions.mp hn with hr | ⟨e, he, hk, hr⟩
      · exact Or.inr ⟨.type x, ⟨hb, hd⟩, hr⟩
      · refine Or.inr ⟨.typeExtension e, effective_of_extensionsOf hb he ?_, hr⟩
        rw [targetKind?_of_custom hb, hd, Option.map_some, Option.some_or, hk]

theorem Sound.effective_of_mem_mentions (hs : s.Sound) (hn : n ∈ s.mentions d) :
    s.scope.knows n = true ∨ ∃ x, s.Effective d x ∧ n ∈ x.typeNames.map Ident.text := by
  -- types and declarations are the document's; directives that are carried and roots are old
  simp only [mentions, List.mem_append] at hn
  rcases hn with h | h | h | h | h
  · obtain ⟨seed, hseed, hm⟩ := List.mem_flatMap.mp h
    exact hs.effective_of_seed hseed hm
  · obtain ⟨x, hx, hm⟩ := List.mem_flatMap.mp h
    unfold Directive.carryMentions at hm
    split at hm
    · exact absurd hm List.not_mem_nil
    · obtain ⟨a, ha, rfl⟩ := List.mem_map.mp hm
      exact Or.inl (hs.directives x hx a ha).knows
  · obtain ⟨x, hx, hm⟩ := List.mem_flatMap.mp h
    exact Or.inr ⟨.directive x, hx, hm⟩
  · obtain ⟨o, r, hr, rfl⟩ := Roots.mem_names.mp h
    exact Or.inl (hs.roots o r hr).1
  · obtain ⟨op, hop, rfl⟩ := List.mem_map.mp h
    have hm {x : SchemaDef} (ho : op ∈ x.operations) :
        op.type.text ∈ (x.operations.map OperationDef.type).map Ident.text :=
      List.mem_map_of_mem (List.mem_map_of_mem ho)
    rcases Document.mem_operations.mp hop with ⟨x, hx, ho⟩ | ⟨x, hx, ho⟩
    · exact Or.inr ⟨.schema x, hx, hm ho⟩
    · exact Or.inr ⟨.schemaExtension x, hx, hm ho⟩

theorem mem_mentions_of_extension (hu : s.registry.names.Nodup) {e : TypeDef}
    (h : s.Effective d (.typeExtension e)) (hn : n ∈ e.body.typeNames.map Ident.text) :
    n ∈ s.registry.mentions d := by
  obtain ⟨hb, he, hk⟩ := h
  have hm : e ∈ d.extensionsOf e.name.text := Document.mem_extensionsOf.mpr ⟨he, rfl⟩
  rw [targetKind?_of_custom hb] at hk
  cases hd : d.definition? e.name.text with
  | some x =>
      rw [hd, Option.map_some, Option.some_or, Option.some.injEq] at hk
      have hname := (Document.mem_types_of_definition? hd).2
      rw [← hname] at hb hd hm
      have hseed := (Registry.fresh_mem_seeds hu).mpr ⟨hb, hd⟩
      have hx := NamedType.mem_placeMentions.mpr (Or.inr ⟨e, hm, hk.symm, hn⟩)
      exact List.mem_flatMap.mpr ⟨.fresh x, hseed, hx⟩
  | none =>
      rw [hd, Option.map_none, Option.none_or] at hk
      obtain ⟨t, ht, hk⟩ := Option.map_eq_some_iff.mp hk
      have hname := Keyed.key_of_get? NamedType.name ht
      rw [← hname] at hb hd hm
      have hseed := (Registry.carried_mem_seeds hu).mpr ⟨hb, hd, Keyed.mem_of_get? _ ht⟩
      have hx := NamedType.mem_growMentions.mpr (Or.inr ⟨e, hm, hk.symm, hn⟩)
      exact List.mem_flatMap.mpr ⟨.carried t, hseed, hx⟩

theorem mem_mentions_of_effective (hu : s.registry.names.Nodup) {x : Definition}
    (hx : s.Effective d x) (hn : n ∈ x.typeNames.map Ident.text) : n ∈ s.mentions d := by
  simp only [mentions, List.mem_append]
  have hop {ops : List OperationDef} (ho : ops ⊆ d.operations)
      (hn : n ∈ (ops.map OperationDef.type).map Ident.text) :
      n ∈ d.operations.map fun op => op.type.text := by
    obtain ⟨i, hi, rfl⟩ := List.mem_map.mp hn
    obtain ⟨op, hop, rfl⟩ := List.mem_map.mp hi
    exact List.mem_map_of_mem (ho hop)
  cases x with
  | type x =>
      have hseed := (Registry.fresh_mem_seeds hu).mpr hx
      have hm : n ∈ NamedType.placeMentions x (d.extensionsOf x.name.text) :=
        NamedType.mem_placeMentions.mpr (Or.inl hn)
      exact Or.inl (List.mem_flatMap.mpr ⟨.fresh x, hseed, hm⟩)
  | typeExtension e => exact Or.inl (mem_mentions_of_extension hu hx hn)
  | directive x => exact Or.inr (Or.inr (Or.inl (List.mem_flatMap.mpr ⟨x, hx, hn⟩)))
  | schema x =>
      have ho : x.operations ⊆ d.operations := fun op ho =>
        Document.mem_operations.mpr (Or.inl ⟨x, hx, ho⟩)
      exact Or.inr (Or.inr (Or.inr (Or.inr (hop ho hn))))
  | schemaExtension x =>
      have ho : x.operations ⊆ d.operations := fun op ho =>
        Document.mem_operations.mpr (Or.inr ⟨x, hx, ho⟩)
      exact Or.inr (Or.inr (Or.inr (Or.inr (hop ho hn))))

structure Lacks (s : Snapshot) (d : Document) (n : String) : Prop where
  custom : Builtin.isBuiltin n = false
  absent : n ∉ s.registry.names
  undefined : n ∉ d.types.map (·.name.text)
  mentioned : ∃ x, s.Effective d x ∧ n ∈ x.typeNames.map Ident.text

theorem knows_nextScope_iff : (s.nextScope d).knows n = true ↔
    Builtin.isBuiltin n = true ∨ n ∈ s.registry.names ∨ n ∈ d.types.map (·.name.text) := by
  rw [Scope.knows_eq_true_iff, nextScope, Registry.mem_names_nextScope]

theorem Lacks.not_knows (h : s.Lacks d n) : (s.nextScope d).knows n = false := by
  rw [← Bool.not_eq_true, knows_nextScope_iff]
  rintro (hb | hn | hn)
  · exact nomatch hb.symm.trans h.custom
  · exact h.absent hn
  · exact h.undefined hn

theorem Sound.lacks_of_not_knows (hs : s.Sound) (hn : n ∈ s.mentions d)
    (hk : (s.nextScope d).knows n = false) : s.Lacks d n := by
  have hno := knows_nextScope_iff.not.mp (Bool.eq_false_iff.mp hk)
  simp only [not_or] at hno
  refine ⟨Bool.eq_false_iff.mpr hno.1, hno.2.1, hno.2.2, ?_⟩
  refine (hs.effective_of_mem_mentions hn).resolve_left fun hyes => ?_
  rw [Scope.knows_mono names_subset_nextScope hyes] at hk
  exact nomatch hk

theorem Sound.lacks_of_extend (hs : s.Sound) {o : Options} {e : SchemaError}
    (h : s.extend d o = .error e) : ∃ n, s.Lacks d n ∧ e = .unknownType n := by
  cases hd : d.isEmpty with
  | true =>
      rw [extend_of_isEmpty hd] at h
      exact nomatch h
  | false =>
      rw [extend_eq_guard hd] at h
      obtain ⟨n, hn, hk, rfl⟩ := Scope.exists_unknown_of_guard _ h
      exact ⟨n, hs.lacks_of_not_knows hn hk, rfl⟩

theorem Sound.not_lacks_of_extend (hs : s.Sound) {o : Options} {s' : Snapshot}
    (h : s.extend d o = .ok s') : ¬s.Lacks d n := by
  intro hl
  obtain ⟨x, hx, hn⟩ := hl.mentioned
  have hd : d.isEmpty = false := List.isEmpty_eq_false_iff.mpr (List.ne_nil_of_mem hx.mem)
  rw [extend_eq_guard hd, Scope.guard_eq_ok_iff] at h
  exact nomatch hl.not_knows.symm.trans (h.1 n (mem_mentions_of_effective hs.unique hx hn))

theorem extend_error_iff_lacks (hs : s.Reachable) (d : Document) (o : Options) :
    ((∃ e, s.extend d o = .error e) ↔ ∃ n, s.Lacks d n) ∧
      ∀ e, s.extend d o = .error e → ∃ n, s.Lacks d n ∧ e = .unknownType n := by
  have hsound := hs.sound
  refine ⟨⟨?_, ?_⟩, fun e he => hsound.lacks_of_extend he⟩
  · rintro ⟨e, he⟩
    obtain ⟨n, hn, -⟩ := hsound.lacks_of_extend he
    exact ⟨n, hn⟩
  · rintro ⟨n, hn⟩
    cases h : s.extend d o with
    | ok s' => exact absurd hn (hsound.not_lacks_of_extend h)
    | error e => exact ⟨e, rfl⟩

end Snapshot

namespace Pets

def ghostly (name : String) : TypeDef := object name [Builtin.field "ghost" "Ghost"]

def strays : Document := ⟨[
  .type (ghostly "Toy"),
  .type (object "Toy" [Builtin.field "of" "Pet"]),
  .type (ghostly "Float"),
  .typeExtension (ghostly "Float"),
  .typeExtension (ghostly "Nobody"),
  .typeExtension ⟨Builtin.ident "Pet", none, [], .union [Builtin.ident "Ghost"], .nowhere⟩,
  .schema ⟨none, [], [⟨.query, Builtin.ident "Ghost", .nowhere⟩], .nowhere⟩,
  .schema ⟨none, [], [⟨.query, Builtin.ident "Query", .nowhere⟩], .nowhere⟩]⟩

def haunted : Document := ⟨[.typeExtension (ghostly "Pet"), .typeExtension (ghostly "Float")]⟩

theorem lacks_ghost : snapshot.Lacks haunted "Ghost" where
  custom := by decide
  absent := by decide +kernel
  undefined := by decide
  mentioned := by
    refine ⟨.typeExtension (ghostly "Pet"), ⟨by decide, List.mem_cons_self, ?_⟩, by decide +kernel⟩
    decide +kernel

theorem fails_on_ghosts : snapshot.Reachable ∧ (¬∃ n, snapshot.Lacks strays n) ∧
    snapshot.Lacks haunted "Ghost" ∧ ∃ e, snapshot.extend haunted .default = .error e := by
  have hstrays := (Snapshot.extend_error_iff_lacks reachable_snapshot strays .default).1
  have hhaunted := (Snapshot.extend_error_iff_lacks reachable_snapshot haunted .default).1
  refine ⟨reachable_snapshot, ?_, lacks_ghost, hhaunted.mpr ⟨"Ghost", lacks_ghost⟩⟩
  rw [← hstrays, Snapshot.extend_of_known rfl (by decide +kernel)]
  exact fun ⟨e, he⟩ => nomatch he

end Pets

end SchemaGraph
