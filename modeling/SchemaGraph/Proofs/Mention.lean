import SchemaGraph.Proofs.Growth

namespace SchemaGraph

namespace TypeBody

variable {t : TypeBody}

theorem typeNames_of_scalar (h : t.kind = .scalar) : t.typeNames = [] := by
  cases t with
  | scalar => rfl
  | _ => exact nomatch h

theorem mem_typeNames_of_fields (h : t.kind = .object ∨ t.kind = .interface) {n : String} :
    (n ∈ (t.fields.flatMap FieldDef.typeNames).map Ident.text ∨ n ∈ t.interfaces.map Ident.text) ↔
      n ∈ t.typeNames.map Ident.text := by
  cases t with
  | object is fs => rw [typeNames, List.map_append, List.mem_append, or_comm, interfaces, fields]
  | interface is fs => rw [typeNames, List.map_append, List.mem_append, or_comm, interfaces, fields]
  | _ => exact h.elim nofun nofun

theorem typeNames_of_union (h : t.kind = .union) : t.typeNames = t.members := by
  cases t with
  | union ms => rfl
  | _ => exact nomatch h

theorem typeNames_of_data (h : t.kind = .data) :
    t.typeNames = t.variants.flatMap fun v => v.fields.map InputDef.typeName := by
  cases t with
  | data vs => rfl
  | _ => exact nomatch h

end TypeBody

theorem exists_mem_or {α : Type} {xs : List α} {P Q R : α → Prop}
    (h : ∀ x ∈ xs, (P x ∨ Q x ↔ R x)) :
    ((∃ x ∈ xs, P x) ∨ ∃ x ∈ xs, Q x) ↔ ∃ x ∈ xs, R x := by
  rw [← exists_or]
  refine exists_congr fun x => ?_
  rw [← and_or_left]
  exact and_congr_right (h x)

namespace Body

variable (s : Scope)

def mentionsOfFields (fields : List Field) (declared : List TypeDef) : List String :=
  (fields.flatMap Field.refs).map Ref.name ++
    ((declared.flatMap (·.body.fields)).flatMap FieldDef.typeNames).map Ident.text

def mentionsOfRefs (refs : List Ref) (declared : List Ident) : List String :=
  refs.map Ref.name ++ declared.map Ident.text

def mentionsOfVariants (variants : List Variant) (declared : List TypeDef) : List String :=
  (variants.flatMap Variant.refs).map Ref.name ++
    declared.flatMap fun d =>
      (d.body.variants.flatMap fun v => v.fields.map InputDef.typeName).map Ident.text

def mentions (declared : List TypeDef) : Body → List String
  | .scalar _ => []
  | .object fields interfaces => mentionsOfFields fields declared ++
      mentionsOfRefs interfaces (declared.flatMap (·.body.interfaces))
  | .interface fields interfaces => mentionsOfFields fields declared ++
      mentionsOfRefs interfaces (declared.flatMap (·.body.interfaces))
  | .union members => mentionsOfRefs members (declared.flatMap (·.body.members))
  | .data variants => mentionsOfVariants variants declared

theorem extendFields_eq_guard (fields : List Field) (declared : List TypeDef) :
    extendFields s fields declared =
      s.guard (mentionsOfFields fields declared) (growFields s fields declared) := by
  simp only [extendFields, Field.mapM_rebind, Field.mapM_build, Scope.guard_bind_pure,
    Scope.guard_bind_guard, mentionsOfFields, growFields]

theorem extendRefs_eq_guard (refs : List Ref) (declared : List Ident) :
    extendRefs s refs declared = s.guard (mentionsOfRefs refs declared) (growRefs s refs declared) := by
  have hr : s.rebind = fun r => s.guard [r.name] (s.move r) := by
    funext r
    exact s.rebind_eq_guard r
  have hi : s.resolveIdent = fun n => s.guard [n.text] (s.place n) := by
    funext n
    exact s.resolveIdent_eq_guard n
  rw [extendRefs, hr, hi]
  simp only [Scope.mapM_guard, Scope.guard_bind_pure, Scope.guard_bind_guard, ← List.map_eq_flatMap,
    mentionsOfRefs, growRefs]

theorem extendVariants_eq_guard (variants : List Variant) (declared : List TypeDef) :
    extendVariants s variants declared =
      s.guard (mentionsOfVariants variants declared) (growVariants s variants declared) := by
  simp only [extendVariants, Variant.mapM_rebind, Variant.buildAll_eq_guard, Scope.mapM_guard,
    Scope.guard_bind_pure, Scope.guard_bind_guard, mentionsOfVariants, growVariants]

theorem extend_eq_guard (declared : List TypeDef) (b : Body) :
    b.extend s declared = s.guard (b.mentions declared) (b.grow s declared) := by
  cases b with
  | scalar url => rfl
  | object fields interfaces =>
      simp only [extend, extendFields_eq_guard, extendRefs_eq_guard, Scope.guard_bind_pure,
        Scope.guard_bind_guard, mentions, grow]
  | interface fields interfaces =>
      simp only [extend, extendFields_eq_guard, extendRefs_eq_guard, Scope.guard_bind_pure,
        Scope.guard_bind_guard, mentions, grow]
  | union members =>
      simp only [extend, extendRefs_eq_guard, Scope.guard_bind_pure, mentions, grow]
  | data variants =>
      simp only [extend, extendVariants_eq_guard, Scope.guard_bind_pure, mentions, grow]

theorem mem_mentionsOfFields {fields : List Field} {declared : List TypeDef} {n : String} :
    n ∈ mentionsOfFields fields declared ↔ n ∈ (fields.flatMap Field.refs).map Ref.name ∨
      ∃ d ∈ declared, n ∈ (d.body.fields.flatMap FieldDef.typeNames).map Ident.text := by
  rw [mentionsOfFields, List.mem_append, List.flatMap_assoc, List.map_flatMap (l := declared),
    List.mem_flatMap (l := declared)]

theorem mem_mentionsOfRefs {refs : List Ref} {declared : List TypeDef} {f : TypeBody → List Ident}
    {n : String} : n ∈ mentionsOfRefs refs (declared.flatMap fun d => f d.body) ↔
      n ∈ refs.map Ref.name ∨ ∃ d ∈ declared, n ∈ (f d.body).map Ident.text := by
  rw [mentionsOfRefs, List.mem_append, List.map_flatMap, List.mem_flatMap]

theorem mem_mentionsOfVariants {variants : List Variant} {declared : List TypeDef} {n : String} :
    n ∈ mentionsOfVariants variants declared ↔ n ∈ (variants.flatMap Variant.refs).map Ref.name ∨
      ∃ d ∈ declared,
        n ∈ (d.body.variants.flatMap fun v => v.fields.map InputDef.typeName).map Ident.text := by
  rw [mentionsOfVariants, List.mem_append, List.mem_flatMap]

theorem mem_mentions {b : Body} {declared : List TypeDef} (hk : ∀ d ∈ declared, d.kind = b.kind)
    {n : String} : n ∈ b.mentions declared ↔ n ∈ b.refs.map Ref.name ∨
      ∃ d ∈ declared, n ∈ d.body.typeNames.map Ident.text := by
  cases b with
  | scalar url =>
      have hn : ∀ d ∈ declared, d.body.typeNames = [] := fun d hd =>
        TypeBody.typeNames_of_scalar (hk d hd)
      simp +contextual [mentions, refs, hn]
  | object fields interfaces =>
      have hn : ∀ d ∈ declared, _ := fun d hd =>
        TypeBody.mem_typeNames_of_fields (n := n) (Or.inl (hk d hd))
      rw [mentions, List.mem_append, mem_mentionsOfFields, mem_mentionsOfRefs, refs, List.map_append,
        List.mem_append, or_or_or_comm, exists_mem_or hn]
  | interface fields interfaces =>
      have hn : ∀ d ∈ declared, _ := fun d hd =>
        TypeBody.mem_typeNames_of_fields (n := n) (Or.inr (hk d hd))
      rw [mentions, List.mem_append, mem_mentionsOfFields, mem_mentionsOfRefs, refs, List.map_append,
        List.mem_append, or_or_or_comm, exists_mem_or hn]
  | union members =>
      rw [mentions, mem_mentionsOfRefs, refs]
      refine or_congr_right (exists_congr fun d => and_congr_right fun hd => ?_)
      rw [TypeBody.typeNames_of_union (hk d hd)]
  | data variants =>
      rw [mentions, mem_mentionsOfVariants, refs]
      refine or_congr_right (exists_congr fun d => and_congr_right fun hd => ?_)
      rw [TypeBody.typeNames_of_data (hk d hd)]

variable {s}

theorem exists_of_mem_refs_growFields {fields : List Field} {declared : List TypeDef} {r : Ref}
    (h : r ∈ (growFields s fields declared).flatMap Field.refs) :
    ∃ n ∈ mentionsOfFields fields declared, r = s.ref n := by
  obtain ⟨f, hf, hr⟩ := List.mem_flatMap.mp h
  rcases Keyed.mem_of_mem_lastWriteWins Field.name hf with hm | hm
  · obtain ⟨g, hg, rfl⟩ := List.mem_map.mp hm
    rw [Field.refs_move] at hr
    obtain ⟨q, hq, rfl⟩ := List.mem_map.mp hr
    have hn : q.name ∈ (fields.flatMap Field.refs).map Ref.name :=
      List.mem_map_of_mem (List.mem_flatMap.mpr ⟨g, hg, hq⟩)
    exact ⟨q.name, List.mem_append_left _ hn, rfl⟩
  · obtain ⟨d, hd, rfl⟩ := List.mem_map.mp hm
    obtain ⟨n, hn, rfl⟩ := Field.exists_of_mem_refs_place hr
    obtain ⟨i, hi, rfl⟩ := List.mem_map.mp hn
    have hm : i.text ∈ ((declared.flatMap (·.body.fields)).flatMap FieldDef.typeNames).map Ident.text :=
      List.mem_map_of_mem (List.mem_flatMap.mpr ⟨d, hd, hi⟩)
    exact ⟨i.text, List.mem_append_right _ hm, rfl⟩

theorem exists_of_mem_growRefs {refs : List Ref} {declared : List Ident} {r : Ref}
    (h : r ∈ growRefs s refs declared) : ∃ n ∈ mentionsOfRefs refs declared, r = s.ref n := by
  rcases List.mem_append.mp h with hm | hm
  · obtain ⟨q, hq, rfl⟩ := List.mem_map.mp hm
    exact ⟨q.name, List.mem_append_left _ (List.mem_map_of_mem hq), rfl⟩
  · obtain ⟨i, hi, rfl⟩ := List.mem_map.mp hm
    exact ⟨i.text, List.mem_append_right _ (List.mem_map_of_mem hi), rfl⟩

theorem exists_of_mem_refs_growVariants {variants : List Variant} {declared : List TypeDef} {r : Ref}
    (h : r ∈ (growVariants s variants declared).flatMap Variant.refs) :
    ∃ n ∈ mentionsOfVariants variants declared, r = s.ref n := by
  obtain ⟨v, hv, hr⟩ := List.mem_flatMap.mp h
  obtain ⟨a, ha, rfl⟩ := List.mem_map.mp hr
  rcases Variant.mem_fields_mergeVariants (List.mem_flatMap.mpr ⟨v, hv, ha⟩) with hm | ⟨f, hf, hm⟩
  · obtain ⟨w, hw, hx⟩ := List.mem_flatMap.mp hm
    obtain ⟨w, hw', rfl⟩ := List.mem_map.mp hw
    obtain ⟨b, hb, rfl⟩ := List.mem_map.mp hx
    have hn : b.type.leaf.name ∈ (variants.flatMap Variant.refs).map Ref.name :=
      List.mem_map_of_mem (List.mem_flatMap.mpr ⟨w, hw', List.mem_map_of_mem hb⟩)
    exact ⟨b.type.leaf.name, List.mem_append_left _ hn, TypeExpr.leaf_map _ _⟩
  · obtain ⟨d, hd, rfl⟩ := List.mem_map.mp hf
    obtain ⟨w, hw, hx⟩ := List.mem_flatMap.mp hm
    obtain ⟨vd, hvd, rfl⟩ := List.mem_map.mp (Keyed.mem_of_mem_ofList Variant.name hw)
    obtain ⟨n, hn, he⟩ := InputValue.leaf_of_mem_placeAll hx
    obtain ⟨i, hi, rfl⟩ := List.mem_map.mp hn
    have hm : i.typeName.text ∈
        (d.body.variants.flatMap fun v => v.fields.map InputDef.typeName).map Ident.text :=
      List.mem_map_of_mem (List.mem_flatMap.mpr ⟨vd, hvd, List.mem_map_of_mem hi⟩)
    exact ⟨i.typeName.text, List.mem_append_right _ (List.mem_flatMap.mpr ⟨d, hd, hm⟩), he⟩

theorem exists_of_mem_refs_grow {b : Body} {declared : List TypeDef} {r : Ref}
    (h : r ∈ (b.grow s declared).refs) : ∃ n ∈ b.mentions declared, r = s.ref n := by
  have either {ns ms : List String} :
      (∃ n ∈ ns, r = s.ref n) ∨ (∃ n ∈ ms, r = s.ref n) → ∃ n ∈ ns ++ ms, r = s.ref n := by
    rintro (⟨n, hn, he⟩ | ⟨n, hn, he⟩)
    · exact ⟨n, List.mem_append_left _ hn, he⟩
    · exact ⟨n, List.mem_append_right _ hn, he⟩
  cases b with
  | scalar url => exact absurd h List.not_mem_nil
  | object fields interfaces =>
      exact either ((List.mem_append.mp h).imp exists_of_mem_refs_growFields exists_of_mem_growRefs)
  | interface fields interfaces =>
      exact either ((List.mem_append.mp h).imp exists_of_mem_refs_growFields exists_of_mem_growRefs)
  | union members => exact exists_of_mem_growRefs h
  | data variants => exact exists_of_mem_refs_growVariants h

end Body

namespace NamedType

def place (s : Scope) (d : TypeDef) (extensions : List TypeDef) : NamedType :=
  ⟨d, ofKind d.kind extensions, (Body.empty d.kind).grow s (d :: ofKind d.kind extensions)⟩

def grow (s : Scope) (t : NamedType) (extensions : List TypeDef) : NamedType :=
  ⟨t.node, t.extensions ++ ofKind t.kind extensions, t.body.grow s (ofKind t.kind extensions)⟩

def move (s : Scope) (t : NamedType) : NamedType := { t with body := t.body.move s }

def placeMentions (d : TypeDef) (extensions : List TypeDef) : List String :=
  (Body.empty d.kind).mentions (d :: ofKind d.kind extensions)

def growMentions (t : NamedType) (extensions : List TypeDef) : List String :=
  t.body.mentions (ofKind t.kind extensions)

theorem mem_ofKind {kind : Kind} {extensions : List TypeDef} {e : TypeDef} :
    e ∈ ofKind kind extensions ↔ e ∈ extensions ∧ e.kind = kind := by
  simp [ofKind, List.mem_filter]

theorem build_eq_guard (s : Scope) (d : TypeDef) (extensions : List TypeDef) :
    build s d extensions = s.guard (placeMentions d extensions) (place s d extensions) := by
  simp only [build, Body.extend_eq_guard, Scope.guard_bind_pure, placeMentions, place]

theorem extend_eq_guard (s : Scope) (t : NamedType) (extensions : List TypeDef) :
    t.extend s extensions = s.guard (t.growMentions extensions) (t.grow s extensions) := by
  simp only [extend, Body.extend_eq_guard, Scope.guard_bind_pure, growMentions, grow]

@[simp] theorem kind_place (s : Scope) (d : TypeDef) (extensions : List TypeDef) :
    (place s d extensions).kind = d.kind := by
  rw [kind, place, Body.kind_grow, Body.kind_empty]

@[simp] theorem kind_grow (s : Scope) (t : NamedType) (extensions : List TypeDef) :
    (t.grow s extensions).kind = t.kind :=
  Body.kind_grow s _ _

theorem ofKind_append (kind : Kind) (xs ys : List TypeDef) :
    ofKind kind (xs ++ ys) = ofKind kind xs ++ ofKind kind ys :=
  List.filter_append ..

theorem ofKind_ofKind (kind : Kind) (xs : List TypeDef) :
    ofKind kind (ofKind kind xs) = ofKind kind xs := by
  simp [ofKind]

theorem place_ofKind (s : Scope) (d : TypeDef) (extensions : List TypeDef) :
    place s d (ofKind d.kind extensions) = place s d extensions := by
  rw [place, ofKind_ofKind, place]

theorem grow_place (s s' : Scope) (d : TypeDef) (old new : List TypeDef) :
    (place s d old).grow s' new = place s' d (old ++ new) := by
  rw [grow, kind_place, place, place, ofKind_append, Body.grow_grow, List.cons_append]

theorem grow_grow (s s' : Scope) (t : NamedType) (old new : List TypeDef) :
    (t.grow s old).grow s' new = t.grow s' (old ++ new) := by
  rw [grow, kind_grow, grow, grow, ofKind_append, Body.grow_grow, List.append_assoc]

theorem move_place (s s' : Scope) (d : TypeDef) (extensions : List TypeDef) :
    (place s d extensions).move s' = place s' d extensions := by
  rw [place, move, Body.move_grow, place]

theorem mem_placeMentions {d : TypeDef} {extensions : List TypeDef} {n : String} :
    n ∈ placeMentions d extensions ↔ n ∈ d.body.typeNames.map Ident.text ∨
      ∃ e ∈ extensions, e.kind = d.kind ∧ n ∈ e.body.typeNames.map Ident.text := by
  have hk : ∀ e ∈ d :: ofKind d.kind extensions, e.kind = (Body.empty d.kind).kind := by
    intro e he
    rw [Body.kind_empty]
    rcases List.mem_cons.mp he with rfl | hm
    · rfl
    · exact (mem_ofKind.mp hm).2
  have hr : (Body.empty d.kind).refs = [] := by cases d.kind <;> rfl
  rw [placeMentions, Body.mem_mentions hk, hr]
  simp [mem_ofKind, and_assoc]

theorem mem_growMentions {t : NamedType} {extensions : List TypeDef} {n : String} :
    n ∈ t.growMentions extensions ↔ n ∈ t.refs.map Ref.name ∨
      ∃ e ∈ extensions, e.kind = t.kind ∧ n ∈ e.body.typeNames.map Ident.text := by
  have hk : ∀ e ∈ ofKind t.kind extensions, e.kind = t.body.kind := fun e he => (mem_ofKind.mp he).2
  rw [growMentions, Body.mem_mentions hk, refs]
  simp [mem_ofKind, and_assoc]

end NamedType

end SchemaGraph
