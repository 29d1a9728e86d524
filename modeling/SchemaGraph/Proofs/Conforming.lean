import SchemaGraph.Proofs.JsonForm
import SchemaGraph.Proofs.Unguarded

namespace SchemaGraph

inductive Lineage.Conforms (l : Lineage) : TypeExpr Ref → JsonValue → Prop
  | null {t : TypeExpr Ref} (ht : t.isNonNull = false) : Conforms l t .null
  | nonNull {t : TypeExpr Ref} {v : JsonValue} (hv : v ≠ .null) (h : Conforms l t v) :
      Conforms l (.nonNull t) v
  | list {t : TypeExpr Ref} {vs : List JsonValue} (h : ∀ v ∈ vs, Conforms l t v) :
      Conforms l (.list t) (.array vs)
  | scalar {r : Ref} {target : NamedType} {url : Option String} {v : JsonValue}
      (ht : l.resolve? r = some target) (hb : target.body = .scalar url)
      (hv : FitsScalar target.name v) : Conforms l (.named r) v
  | sum {r : Ref} {target : NamedType} {variants : List Variant} {tag : String}
      (ht : l.resolve? r = some target) (hb : target.body = .data variants)
      (hr : record? variants = none) (htag : tag ∈ variants.map Variant.name) :
      Conforms l (.named r) (.string tag)
  | record {r : Ref} {target : NamedType} {variants : List Variant} {record : Variant}
      {members : List (String × JsonValue)} (ht : l.resolve? r = some target)
      (hb : target.body = .data variants) (hr : record? variants = some record)
      (hkeys : (members.map Prod.fst).Nodup)
      (hknown : ∀ m ∈ members, m.1 ∈ record.fields.map InputValue.name)
      (hvalues : ∀ m ∈ members, ∀ f ∈ record.fields, f.name = m.1 → Conforms l f.type m.2)
      (hrequired : ∀ f ∈ record.fields, f.type.isNonNull = true → f.name ∈ members.map Prod.fst) :
      Conforms l (.named r) (.object members)

namespace Conversion

variable {l : Lineage}

structure Apt (l : Lineage) (literal : Literal) (t : TypeExpr Ref) (v : JsonValue) : Prop where
  conforms : l.Conforms t v
  null : v = .null → literal = .null

theorem apt_of_leafValue? {r : Ref} {target : NamedType} {literal : Literal} {v : JsonValue}
    (ht : l.resolve? r = some target) (h : target.leafValue? literal = some v) :
    Apt l literal (.named r) v := by
  unfold NamedType.leafValue? at h
  split at h
  · rename_i url hb
    refine ⟨.scalar ht hb (fits_of_scalarToJson? h), ?_⟩
    rintro rfl
    exact eq_null_of_scalarToJson? h
  · rename_i variants hb
    split at h
    · rename_i tag hr
      split at h
      · rename_i htag
        obtain rfl := Option.some.inj h
        obtain ⟨x, hx, hname⟩ := List.any_eq_true.mp htag
        exact ⟨.sum ht hb hr (List.mem_map.mpr ⟨x, hx, by simpa using hname⟩), by simp⟩
      · cases h
    · cases h
  · cases h

section Step

variable {c : Literal → TypeExpr Ref → Outcome JsonValue} {a : String → InputValue → Outcome JsonValue}

theorem exists_of_map_map {α β : Type} {x : Outcome α} {g : α → β} {b : β}
    (h : x.map (·.map g) = .ok (some b)) : ∃ v, x = .ok (some v) ∧ g v = b := by
  obtain ⟨o, rfl, ho⟩ := exists_of_map_eq_ok h
  obtain ⟨v, rfl, hv⟩ := Option.map_eq_some_iff.mp ho
  exact ⟨v, rfl, hv⟩

theorem conforms_of_items {t : TypeExpr Ref} (hc : ∀ x v, c x t = .ok (some v) → Apt l x t v)
    {xs : List Literal} {vs : List JsonValue} (h : items c t xs = .ok (some vs)) :
    ∀ v ∈ vs, l.Conforms t v := by
  induction xs generalizing vs with
  | nil =>
      obtain rfl := Option.some.inj (Except.ok.inj h)
      exact List.forall_mem_nil _
  | cons x xs ih =>
      rw [items] at h
      split at h
      · cases h
      · cases h
      · rename_i v hv
        obtain ⟨ws, hws, rfl⟩ := exists_of_map_map h
        exact List.forall_mem_cons.mpr ⟨(hc x v hv).conforms, ih hws⟩

structure Filled (l : Lineage) (fields : List InputValue) (members : List (String × JsonValue)) :
    Prop where
  values : ∀ m ∈ members, ∃ f ∈ fields, f.name = m.1 ∧ l.Conforms f.type m.2
  required : ∀ f ∈ fields, f.type.isNonNull = true → f.name ∈ members.map Prod.fst

theorem Filled.cons {f : InputValue} {fs : List InputValue} {ms rest : List (String × JsonValue)}
    (hf : Filled l [f] ms) (hfs : Filled l fs rest) : Filled l (f :: fs) (ms ++ rest) where
  values m hm := by
    rcases List.mem_append.mp hm with hm | hm
    · obtain ⟨f', hf', h⟩ := hf.values m hm
      exact ⟨f', List.mem_cons.mpr (Or.inl (List.mem_singleton.mp hf')), h⟩
    · obtain ⟨f', hf', h⟩ := hfs.values m hm
      exact ⟨f', List.mem_cons_of_mem _ hf', h⟩
  required g hg hnn := by
    rw [List.map_append, List.mem_append]
    rcases List.mem_cons.mp hg with rfl | hg
    · exact Or.inl (hf.required g List.mem_cons_self hnn)
    · exact Or.inr (hfs.required g hg hnn)

theorem filled_singleton {f : InputValue} {v : JsonValue} (hv : l.Conforms f.type v) :
    Filled l [f] [(f.name, v)] where
  values m hm := ⟨f, List.mem_cons_self, by rw [List.mem_singleton.mp hm]; exact ⟨rfl, hv⟩⟩
  required g hg _ := by
    rw [List.mem_singleton.mp hg]
    exact List.mem_cons_self

theorem filled_of_member {record : String} {entries : List (Ident × Literal)} {f : InputValue}
    (hc : ∀ x v, c x f.type = .ok (some v) → Apt l x f.type v)
    (ha : ∀ v, a record f = .ok (some v) → l.Conforms f.type v) {ms : List (String × JsonValue)}
    (h : member c a record entries f = .ok (some ms)) : Filled l [f] ms := by
  unfold member at h
  split at h
  · rename_i e he
    obtain ⟨v, hv, rfl⟩ := exists_of_map_map h
    exact filled_singleton (hc e.2 v hv).conforms
  · obtain ⟨o, ho, h⟩ := exists_of_map_eq_ok h
    split at h
    · obtain rfl := Option.some.inj h
      exact filled_singleton (ha _ ho)
    · -- nothing for a field that may be null
      split at h
      · cases h
      · rename_i hnull
        obtain rfl := Option.some.inj h
        refine ⟨List.forall_mem_nil _, fun g hg hnn => ?_⟩
        rw [List.mem_singleton.mp hg] at hnn
        exact absurd hnn hnull

theorem filled_of_members {record : String} {entries : List (Ident × Literal)} {fields : List InputValue}
    (hc : ∀ x t v, c x t = .ok (some v) → Apt l x t v)
    (ha : ∀ f v, a record f = .ok (some v) → l.Conforms f.type v) {ms : List (String × JsonValue)}
    (h : members c a record entries fields = .ok (some ms)) : Filled l fields ms := by
  induction fields generalizing ms with
  | nil =>
      obtain rfl := Option.some.inj (Except.ok.inj h)
      exact ⟨List.forall_mem_nil _, List.forall_mem_nil _⟩
  | cons f fs ih =>
      rw [members] at h
      split at h
      · cases h
      · cases h
      · rename_i m hm
        obtain ⟨rest, hrest, rfl⟩ := exists_of_map_map h
        exact (filled_of_member (fun x => hc x f.type) (ha f) hm).cons (ih hrest)

theorem Filled.conforms {r : Ref} {target : NamedType} {record : Variant}
    {ms : List (String × JsonValue)} (hl : l.Regular) (ht : l.resolve? r = some target)
    (hr : record? target.body.variants = some record) (h : Filled l record.fields ms) :
    l.Conforms (.named r) (.ofMembers ms) := by
  obtain ⟨out, hout, hcollected⟩ := JsonValue.exists_collected ms
  have hnames : (record.fields.map InputValue.name).Nodup := by
    rw [← recordFields_of_record? hr]
    exact NamedType.nodup_recordFields (hl.distinct ht)
  rw [hout]
  cases hb : target.body with
  | data variants =>
      rw [hb] at hr
      refine .record ht hb hr hcollected.nodup (fun m hm => ?_) (fun m hm f hf hname => ?_)
        (fun f hf hnn => hcollected.keys (h.required f hf hnn))
      · obtain ⟨f, hf, hname, -⟩ := h.values m (hcollected.members hm)
        exact List.mem_map.mpr ⟨f, hf, hname⟩
      · obtain ⟨f', hf', hname', hv⟩ := h.values m (hcollected.members hm)
        exact List.inj_on_of_nodup_map hnames hf' hf (hname'.trans hname.symm) ▸ hv
  | _ =>
      rw [hb] at hr
      cases hr

theorem apt_of_step (hl : l.Regular) (hc : ∀ x t v, c x t = .ok (some v) → Apt l x t v)
    (ha : ∀ r f v, a r f = .ok (some v) → l.Conforms f.type v) {literal : Literal} {t : TypeExpr Ref}
    {v : JsonValue} (h : step l c a literal t = .ok (some v)) : Apt l literal t v := by
  have hnull {t' : TypeExpr Ref} (ht' : t'.isNonNull = false)
      (h' : (.ok (some .null) : Outcome JsonValue) = .ok (some v)) : Apt l .null t' v := by
    obtain rfl := Option.some.inj (Except.ok.inj h')
    exact ⟨.null ht', fun _ => rfl⟩
  cases t with
  | nonNull t =>
      unfold step at h
      dsimp only at h
      split at h
      · cases h
      · rename_i hne
        -- only null is converted to null, and the literal is something else
        have hv := hc _ _ v h
        exact ⟨.nonNull (fun hv' => hne (hv.null hv')) hv.conforms, hv.null⟩
  | list t =>
      unfold step at h
      dsimp only at h
      split at h
      · exact hnull rfl h
      · obtain ⟨vs, hvs, rfl⟩ := exists_of_map_map h
        exact ⟨.list (conforms_of_items (fun x => hc x t) hvs), by simp⟩
      · obtain ⟨w, hw, rfl⟩ := exists_of_map_map h
        have hw' := (hc _ _ w hw).conforms
        exact ⟨.list (List.forall_mem_singleton.mpr hw'), by simp⟩
  | named r =>
      unfold step at h
      dsimp only at h
      split at h
      · exact hnull rfl h
      · rename_i entries
        split at h
        · cases h
        · rename_i target ht
          split at h
          · rename_i record hr
            split at h
            · obtain ⟨ms, hms, rfl⟩ := exists_of_map_map h
              exact ⟨(filled_of_members hc (ha target.name) hms).conforms hl ht hr, by simp [JsonValue.ofMembers]⟩
            · cases h
          · exact apt_of_leafValue? ht (Except.ok.inj h)
      · obtain ⟨target, ht, hv⟩ := Option.bind_eq_some_iff.mp (Except.ok.inj h)
        exact apt_of_leafValue? ht hv

end Step

theorem apt_of_attempt (hl : l.Regular) {mode : Mode} {n : Nat} {busy : List FieldKey}
    {literal : Literal} {t : TypeExpr Ref} {v : JsonValue}
    (h : attempt l mode n busy literal t = .ok (some v)) : Apt l literal t v := by
  induction n generalizing busy literal t v with
  | zero => cases h
  | succ n ih =>
      rw [attempt] at h
      split at h
      · cases h
      · refine apt_of_step hl (fun x t' w hw => ih hw) (fun r f w hw => ?_) h
        unfold expand at hw
        split at hw
        · cases hw
        · split at hw
          · exact (ih hw).conforms
          · cases hw

theorem apt_of_value? (hl : l.Regular) {literal : Literal} {t : TypeExpr Ref} {v : JsonValue}
    (h : l.value? literal t = some v) : Apt l literal t v := by
  obtain ⟨N, hN⟩ := Filter.eventually_atTop.mp (eventually_attempt l [] List.nodup_nil literal t)
  exact apt_of_attempt hl ((hN N le_rfl).trans (congrArg Except.ok h))

end Conversion

theorem Lineage.Conforms.eq_null {l : Lineage} {r : Ref} {target : NamedType} {v : JsonValue}
    (h : l.Conforms (.named r) v) (ht : l.resolve? r = some target)
    (hk : target.kind ∈ [Kind.object, .interface, .union]) : v = .null := by
  have hkind {target' : NamedType} (ht' : l.resolve? r = some target') :
      target'.kind ≠ .scalar ∧ target'.kind ≠ .data := by
    obtain rfl := Option.some.inj (ht'.symm.trans ht)
    constructor <;> intro h <;> rw [h] at hk <;> exact absurd hk (by decide)
  cases h with
  | null _ => rfl
  | scalar ht' hb _ => exact absurd (congrArg Body.kind hb) (hkind ht').1
  | sum ht' hb _ _ => exact absurd (congrArg Body.kind hb) (hkind ht').2
  | record ht' hb _ _ _ _ _ => exact absurd (congrArg Body.kind hb) (hkind ht').2

namespace Schema

open Conversion

theorem values_conform {S : Schema} (hS : S.Reachable) :
    (∀ literal t v, S.snapshot.lineage.value? literal t = some v → S.snapshot.lineage.Conforms t v) ∧
    (∀ literal r target, S.snapshot.lineage.resolve? r = some target →
      target.kind ∈ [Kind.object, .interface, .union] → literal ≠ .null →
      S.snapshot.lineage.value? literal (.named r) = none) ∧
    (∀ (a : InputValue) v, a.defaultValue? S.snapshot.lineage = some v →
      S.snapshot.lineage.Conforms a.type v) ∧
    ∀ (d : Directive) applied entries, d.values? S.snapshot.lineage applied = some entries →
      ∀ e ∈ entries, ∃ a ∈ d.arguments, a.name = e.1 ∧ S.snapshot.lineage.Conforms a.type e.2 := by
  have hdefault (a : InputValue) (v : JsonValue) (h : a.defaultValue? S.snapshot.lineage = some v) :
      S.snapshot.lineage.Conforms a.type v := by
    obtain ⟨literal, -, hv⟩ := Option.bind_eq_some_iff.mp h
    exact (apt_of_value? hS.regular hv).conforms
  refine ⟨fun literal t v h => (apt_of_value? hS.regular h).conforms,
    fun literal r target ht hk hne => ?_, hdefault, fun d applied entries h e he => ?_⟩
  · refine Option.eq_none_iff_forall_ne_some.mpr fun v hv => hne ?_
    have hapt := apt_of_value? hS.regular hv
    exact hapt.null (hapt.conforms.eq_null ht hk)
  · obtain ⟨node, -, rfl⟩ := Option.map_eq_some_iff.mp h
    obtain ⟨a, ha, hvalue⟩ := List.mem_filterMap.mp he
    obtain ⟨v, hv, rfl⟩ := Option.map_eq_some_iff.mp hvalue
    refine ⟨a, ha, rfl, ?_⟩
    split at hv
    · exact (apt_of_value? hS.regular hv).conforms
    · exact hdefault a v hv

end Schema

namespace Crates

open Conversion

def reason : InputValue :=
  ⟨Builtin.input "reason" "String" (some (.string Applied.defaultReason)), .named ⟨"String", .builtin⟩⟩

def note : Directive := ⟨⟨Builtin.ident "deprecated", none, [], false, [], .nowhere⟩, [reason]⟩

def rotten : Applied :=
  ⟨Builtin.ident "deprecated", [⟨Builtin.ident "reason", .string "rot", .nowhere⟩], .nowhere⟩

theorem values_conform_crates : schema.Reachable ∧
    lineage.Conforms type boxed ∧
    lineage.value? (.int 1) (.named ⟨"__Type", .builtin⟩) = none ∧
    lineage.Conforms inside.type boxed ∧
    ∃ a ∈ note.arguments, a.name = "reason" ∧ lineage.Conforms a.type (.string "rot") := by
  obtain ⟨hvalue, hnothing, hdefault, hentries⟩ := Schema.values_conform reachable_schema
  have hboxed : lineage.value? (.object []) type = some boxed := value?_of_attempt (n := 4) rfl
  have hrot : lineage.value? (.string "rot") reason.type = some (.string "rot") :=
    value?_of_attempt (n := 1) rfl
  refine ⟨reachable_schema, hvalue _ _ _ hboxed, hnothing _ _ _ rfl (by decide) nofun,
    hdefault inside boxed hboxed, ?_⟩
  have hrotten : note.values? lineage [rotten] = some [("reason", .string "rot")] := by
    have hnode : Applied.find? note.name [rotten] = some rotten := rfl
    have hreason : Applied.argument? reason.name rotten = some (.string "rot") := rfl
    rw [Directive.values?, hnode, Option.map_some, note, List.filterMap_cons, hreason]
    dsimp only
    rw [hrot]
    rfl
  exact hentries note [rotten] _ hrotten _ List.mem_cons_self

end Crates

end SchemaGraph
