import Mathlib.Data.List.Sort
import SchemaGraph.Proofs.Expansion
import SchemaGraph.Proofs.JsonForm
import SchemaGraph.Proofs.Report

namespace SchemaGraph

namespace JsonValue

variable {k : String} {v : JsonValue} {ms ns out : List (String × JsonValue)}

theorem get?_insertMember (x : String) : Keyed.get? Prod.fst x (insertMember k v ms) =
    if k = x then some (k, v) else Keyed.get? Prod.fst x ms := by
  induction ms with
  | nil => rw [insertMember, Keyed.get?_cons]
  | cons m ms ih =>
      rw [insertMember, Keyed.get?_cons]
      split
      · rw [Keyed.get?_cons, Keyed.get?_cons]
      · split
        · rename_i hk
          rw [Keyed.get?_cons, hk]
          by_cases hx : m.1 = x
          · rw [if_pos hx, if_pos hx]
          · rw [if_neg hx, if_neg hx, if_neg hx]
        · rename_i hk
          rw [Keyed.get?_cons, ih]
          by_cases hx : m.1 = x
          · rw [if_pos hx, if_pos hx, if_neg fun h => hk (h.trans hx.symm)]
          · rw [if_neg hx, if_neg hx]

theorem get?_of_ofMembers (h : ofMembers ms = .object out) (x : String) :
    Keyed.get? Prod.fst x out = Keyed.get? Prod.fst x ms.reverse := by
  obtain rfl := JsonValue.object.inj h
  clear h
  induction ms using List.reverseRecOn with
  | nil => rfl
  | append_singleton ms m ih =>
      rw [List.foldl_append, List.reverse_append, List.reverse_singleton, List.singleton_append,
        Keyed.get?_cons, ← ih]
      exact get?_insertMember x

theorem ofMembers_eq_iff : ofMembers ms = ofMembers ns ↔
    ∀ x, Keyed.get? Prod.fst x ms.reverse = Keyed.get? Prod.fst x ns.reverse := by
  obtain ⟨out, hout, hc⟩ := exists_collected ms
  obtain ⟨out', hout', hc'⟩ := exists_collected ns
  have hget (x : String) := get?_of_ofMembers hout x
  have hget' (x : String) := get?_of_ofMembers hout' x
  rw [hout, hout']
  constructor
  · intro h x
    rw [← hget, ← hget', JsonValue.object.inj h]
  · intro h
    have hsame (x : String) : Keyed.get? Prod.fst x out = Keyed.get? Prod.fst x out' := by
      rw [hget, hget', h]
    have hirrefl : Std.Irrefl fun m n : String × JsonValue => m.1 < n.1 := ⟨fun m => lt_irrefl m.1⟩
    have hantisymm : Std.Antisymm fun m n : String × JsonValue => m.1 < n.1 :=
      ⟨fun _ _ h h' => absurd h' (lt_asymm h)⟩
    refine congrArg _ (hc.ascending.eq_of_mem_iff hc'.ascending fun m => ⟨fun hm => ?_, fun hm => ?_⟩)
    · exact Keyed.mem_of_get? _ ((hsame m.1).symm.trans (Keyed.get?_of_nodup _ hc.nodup hm))
    · exact Keyed.mem_of_get? _ ((hsame m.1).trans (Keyed.get?_of_nodup _ hc'.nodup hm))

end JsonValue

abbrev Entry := Ident × Literal

def Entry.member? (e : Entry) : Option (String × JsonValue) := e.2.toJson?.map (e.1.text, ·)

def firstMember? (entries : List Entry) (k : String) : Option (String × JsonValue) := do
  let e ← entry? entries k
  Entry.member? e

section Entries

variable {entries es es' : List Entry} {ms : List (String × JsonValue)}

theorem entriesToJson?_cons (e : Entry) (es : List Entry) : entriesToJson? (e :: es) =
    e.member?.bind fun m => (entriesToJson? es).map (m :: ·) := by
  rw [entriesToJson?, Entry.member?]
  cases e.2.toJson? with
  | none => rfl
  | some v => cases entriesToJson? es <;> rfl

theorem entriesToJson?_eq_some_iff : entriesToJson? es = some ms ↔ es.map Entry.member? = ms.map some := by
  induction es generalizing ms with
  | nil => cases ms <;> simp [entriesToJson?]
  | cons e es ih =>
      rw [entriesToJson?_cons, List.map_cons]
      cases e.member? with
      | none => cases ms <;> simp
      | some m => cases ms <;> simp [Option.map_eq_some_iff, ih, and_comm]

theorem entriesToJson?_eq_none_iff : entriesToJson? es = none ↔ ∃ e ∈ es, e.member? = none := by
  induction es with
  | nil => simp [entriesToJson?]
  | cons e es ih =>
      rw [entriesToJson?_cons]
      cases hm : e.member? with
      | none => simp [hm]
      | some m => simp [hm, ih]

theorem get?_of_map_member? (h : es.map Entry.member? = ms.map some) (k : String) :
    Keyed.get? Prod.fst k ms = firstMember? es k := by
  induction es generalizing ms with
  | nil =>
      obtain rfl := List.map_eq_nil_iff.mp h.symm
      rfl
  | cons e es ih =>
      obtain ⟨m, ms, rfl, hm, hms⟩ := List.map_eq_cons_iff.mp h.symm
      have hkey : m.1 = e.1.text := by
        obtain ⟨v, -, rfl⟩ := Option.map_eq_some_iff.mp hm.symm
        rfl
      have hentry : entry? (e :: es) k = if e.1.text = k then some e else entry? es k :=
        Keyed.get?_cons (fun e : Entry => e.1.text) e es k
      rw [Keyed.get?_cons, ih hms.symm, firstMember?, firstMember?, hentry, hkey]
      split
      · exact hm
      · rfl

theorem toJson?_object_eq_iff : (Literal.object es).toJson? = (Literal.object es').toJson? ↔
    ((∃ e ∈ es, e.member? = none) ∧ ∃ e ∈ es', e.member? = none) ∨
      (∀ e ∈ es, e.member? ≠ none) ∧ (∀ e ∈ es', e.member? ≠ none) ∧
        ∀ k, firstMember? es.reverse k = firstMember? es'.reverse k := by
  have hget {es : List Entry} {ms : List (String × JsonValue)} (h : entriesToJson? es = some ms)
      (k : String) : firstMember? es.reverse k = Keyed.get? Prod.fst k ms.reverse := by
    refine (get?_of_map_member? ?_ k).symm
    rw [List.map_reverse, List.map_reverse, entriesToJson?_eq_some_iff.mp h]
  have hall {es : List Entry} : (∀ e ∈ es, e.member? ≠ none) ↔ entriesToJson? es ≠ none := by
    rw [Ne, entriesToJson?_eq_none_iff]
    simp
  -- what is lost in one entry is lost in all; what is not is decided by the last entry of each key
  rw [Literal.toJson?, Literal.toJson?, hall, hall, ← entriesToJson?_eq_none_iff,
    ← entriesToJson?_eq_none_iff]
  cases h : entriesToJson? es with
  | none => cases entriesToJson? es' <;> simp
  | some ms =>
      cases h' : entriesToJson? es' with
      | none => simp
      | some ns => simp [JsonValue.ofMembers_eq_iff, hget h, hget h']

theorem text_of_found {k : String} {e : Entry} (h : entry? entries k = some e) : e.1.text = k :=
  Keyed.key_of_get? (fun e : Entry => e.1.text) h

def Firsts (entries es : List Entry) : Prop := ∀ e, e ∈ es ↔ ∃ k, entry? entries k = some e

theorem Firsts.found_eq (h : Firsts entries es) (k : String) : entry? es k = entry? entries k := by
  cases he : entry? es k with
  | some e =>
      obtain ⟨k', hk'⟩ := (h e).mp (List.mem_of_find?_eq_some he)
      rw [← text_of_found he, ← hk', text_of_found hk']
  | none =>
      cases he' : entry? entries k with
      | none => rfl
      | some e =>
          have hmem := (h e).mpr ⟨k, he'⟩
          have hne := List.find?_eq_none.mp he e hmem
          exact absurd (text_of_found he') (by simpa using hne)

theorem Firsts.reverse (h : Firsts entries es) : Firsts entries es.reverse := fun e => by
  rw [List.mem_reverse, h]

theorem Firsts.subset (h : Firsts entries es) : es ⊆ entries := fun e he => by
  obtain ⟨k, hk⟩ := (h e).mp he
  exact List.mem_of_find?_eq_some hk

theorem firsts_of_nodup (h : (entries.map (·.1.text)).Nodup) : Firsts entries entries := fun _ =>
  ⟨fun he => ⟨_, Keyed.get?_of_nodup (fun e : Entry => e.1.text) h he⟩, fun ⟨_, hk⟩ =>
    List.mem_of_find?_eq_some hk⟩

structure Consistent (entries : List Entry) : Prop where
  members : ∀ e ∈ entries, e.member? ≠ none
  same : ∀ k, firstMember? entries k = firstMember? entries.reverse k

theorem Firsts.toJson?_eq_iff (h : Firsts entries es) :
    (Literal.object es).toJson? = (Literal.object entries).toJson? ↔
      (∃ k, ∃ e : Entry, entry? entries k = some e ∧ e.member? = none) ∨ Consistent entries := by
  have hlost : (∃ e ∈ es, e.member? = none) ↔
      ∃ k, ∃ e : Entry, entry? entries k = some e ∧ e.member? = none := by
    constructor
    · rintro ⟨e, he, hm⟩
      obtain ⟨k, hk⟩ := (h e).mp he
      exact ⟨k, e, hk, hm⟩
    · rintro ⟨k, e, hk, hm⟩
      exact ⟨e, (h e).mpr ⟨k, hk⟩, hm⟩
  rw [toJson?_object_eq_iff]
  refine or_congr ?_ ?_
  · rw [hlost]
    refine and_iff_left_of_imp fun hk => ?_
    obtain ⟨e, he, hm⟩ := hlost.mpr hk
    exact ⟨e, h.subset he, hm⟩
  · simp only [firstMember?, h.reverse.found_eq]
    exact ⟨fun ⟨_, hall, hsame⟩ => ⟨hall, hsame⟩,
      fun hc => ⟨fun e he => hc.members e (h.subset he), hc.members, hc.same⟩⟩

end Entries

theorem scalarToJson?_of_custom {scalar : String} (h : Builtin.isScalar scalar = false) (x : Literal) :
    scalarToJson? scalar x = x.toJson? := by
  have hne : ∀ n ∈ Builtin.scalarNames, scalar ≠ n := by
    rintro n hn rfl
    exact absurd (List.contains_iff_mem.mpr hn) (by rw [← Builtin.isScalar, h]; simp)
  simp only [Builtin.scalarNames, List.forall_mem_cons] at hne
  obtain ⟨hint, hfloat, hstring, hbool, hid, -⟩ := hne
  unfold scalarToJson?
  rw [if_neg hint, if_neg hfloat, if_neg hstring, if_neg hbool, if_neg hid]

theorem Conversion.coerce_of_step {l : Lineage} {busy : List FieldKey} {x : Literal} {t : TypeExpr Ref}
    {v : Option JsonValue}
    (h : step l (settled l busy) (expand .guarded (settled l) busy) x t = .ok v) :
    coerce l busy x t = v :=
  Except.ok.inj ((step_settled x t).symm.trans h)

namespace Lineage

def TakesAll (l : Lineage) (t : TypeExpr Ref) : Prop :=
  ∃ r scalar url, t = .named r ∧ l.resolve? r = some scalar ∧ scalar.body = .scalar url ∧
    Builtin.isScalar scalar.name = false

variable {l : Lineage} {busy : List FieldKey} {t : TypeExpr Ref}

theorem TakesAll.coerce (h : l.TakesAll t) (x : Literal) : coerce l busy x t = x.toJson? := by
  obtain ⟨r, scalar, url, rfl, hr, hbody, hcustom⟩ := h
  have hleaf (x : Literal) : scalar.leafValue? x = x.toJson? := by
    rw [NamedType.leafValue?, hbody]
    exact scalarToJson?_of_custom hcustom x
  have hrecord : record? scalar.body.variants = none := by rw [hbody]; rfl
  refine Conversion.coerce_of_step ?_
  cases x with
  | null => rfl
  | object entries => simp only [Conversion.step, hr, hrecord, hleaf]
  | _ => simp only [Conversion.step, hr, Option.bind_some, hleaf]

end Lineage

namespace Conversion

variable {l : Lineage} {busy : List FieldKey} {entries : List Entry}

theorem members_of_given {absent : String → InputValue → Outcome JsonValue} {record : String}
    {fields : List InputValue} (hf : ∀ f ∈ fields, l.TakesAll f.type)
    (hk : ∀ f ∈ fields, f.name ∈ entries.map (·.1.text)) :
    members (settled l busy) absent record entries fields =
      .ok (entriesToJson? (fields.filterMap fun f => entry? entries f.name)) := by
  induction fields with
  | nil => rfl
  | cons f fs ih =>
      rw [List.forall_mem_cons] at hf hk
      obtain ⟨e, he⟩ := Keyed.exists_get?_of_mem_keys (fun e : Entry => e.1.text) hk.1
      have hentry : entry? entries f.name = some e := he
      rw [members, ih hf.2 hk.2, member, List.filterMap_cons, hentry]
      dsimp only
      rw [entriesToJson?_cons, settled, hf.1.coerce, Entry.member?, text_of_found hentry]
      cases e.2.toJson? with
      | none => rfl
      | some v => rfl

end Conversion

namespace Lineage

structure Fills (l : Lineage) (r : Ref) (record : Variant) (entries : List Entry) : Prop where
  resolves : ∃ target, l.resolve? r = some target ∧ record? target.body.variants = some record
  fields : ∀ f ∈ record.fields, l.TakesAll f.type
  keys : ∀ k, k ∈ entries.map (·.1.text) ↔ k ∈ record.fields.map InputValue.name

variable {l : Lineage} {r : Ref} {record : Variant} {entries : List Entry}

theorem Fills.value?_eq (h : l.Fills r record entries) : l.value? (.object entries) (.named r) =
    (Literal.object (record.fields.filterMap fun f => entry? entries f.name)).toJson? := by
  obtain ⟨target, ht, hr⟩ := h.resolves
  have hknown : (entries.all fun e => record.fields.any (·.name == e.1.text)) = true := by
    refine List.all_eq_true.mpr fun e he => ?_
    obtain ⟨f, hf, hname⟩ := List.mem_map.mp ((h.keys _).mp (List.mem_map_of_mem he))
    exact List.any_eq_true.mpr ⟨f, hf, beq_iff_eq.mpr hname⟩
  have hgiven : ∀ f ∈ record.fields, f.name ∈ entries.map (·.1.text) := fun f hf =>
    (h.keys _).mpr (List.mem_map_of_mem hf)
  refine Conversion.coerce_of_step ?_
  simp only [Conversion.step, ht, hr, hknown, if_true]
  rw [Conversion.members_of_given h.fields hgiven, Literal.toJson?]
  rfl

theorem Fills.firsts (h : l.Fills r record entries) :
    Firsts entries (record.fields.filterMap fun f => entry? entries f.name) := by
  intro e
  rw [List.mem_filterMap]
  constructor
  · rintro ⟨f, -, he⟩
    exact ⟨f.name, he⟩
  · rintro ⟨k, he⟩
    have hmem := List.mem_map_of_mem (f := fun e : Entry => e.1.text) (List.mem_of_find?_eq_some he)
    obtain ⟨f, hf, hname⟩ := List.mem_map.mp ((h.keys _).mp hmem)
    exact ⟨f, hf, by rw [hname, text_of_found he, he]⟩

theorem value?_eq_toJson?_iff (h : l.Fills r record entries) :
    l.value? (.object entries) (.named r) =
        (Literal.object (record.fields.filterMap fun f => entry? entries f.name)).toJson? ∧
      (l.value? (.object entries) (.named r) = (Literal.object entries).toJson? ↔
        (∃ k, ∃ e : Entry, entry? entries k = some e ∧ e.member? = none) ∨ Consistent entries) ∧
      ((entries.map (·.1.text)).Nodup →
        l.value? (.object entries) (.named r) = (Literal.object entries).toJson?) := by
  refine ⟨h.value?_eq, by rw [h.value?_eq, h.firsts.toJson?_eq_iff], fun hn => ?_⟩
  exact h.value?_eq.trans (h.firsts.toJson?_eq_iff.mpr ((firsts_of_nodup hn).toJson?_eq_iff.mp rfl))

end Lineage

namespace Stays

def document : Document := ⟨[
  .type ⟨Builtin.ident "Day", none, [], .scalar, .nowhere⟩,
  .type ⟨Builtin.ident "Stay", none, [], .data [⟨Builtin.ident "Stay", none, [],
    [Builtin.input "from" "Day" none], .nowhere⟩], .nowhere⟩]⟩

def schema : Schema :=
  (Snapshot.empty.extended document .default).withConventionalRoots.withSpecifiedDirectives.toSchema

theorem declare_document : Schema.declare none document .default = .ok schema :=
  Schema.declare_of_validate (by simp) (by decide +kernel) rfl .default

def stay : Ref := ⟨"Stay", .generation 1⟩

def days (first last : Int) : List Entry :=
  [(Builtin.ident "from", .int first), (Builtin.ident "from", .int last)]

theorem fills_days (first last : Int) : ∃ record, record.fields.map InputValue.name = ["from"] ∧
    schema.snapshot.lineage.Fills stay record (days first last) := by
  refine ⟨_, rfl, ⟨_, rfl, rfl⟩, List.forall_mem_singleton.mpr ?_, fun k => ?_⟩
  · exact ⟨⟨"Day", .generation 1⟩, _, none, rfl, rfl, rfl, by decide +kernel⟩
  · change k ∈ ["from", "from"] ↔ k ∈ ["from"]
    simp

theorem same_day_twice : ∃ record, schema.snapshot.lineage.Fills stay record (days 1 1) ∧
    schema.snapshot.lineage.value? (.object (days 1 1)) (.named stay) =
      (Literal.object (days 1 1)).toJson? := by
  obtain ⟨record, -, h⟩ := fills_days 1 1
  have hc : Consistent (days 1 1) :=
    ⟨List.forall_mem_cons.mpr ⟨nofun, List.forall_mem_singleton.mpr nofun⟩, fun _ => rfl⟩
  exact ⟨record, h, (Lineage.value?_eq_toJson?_iff h).2.1.mpr (Or.inr hc)⟩

theorem first_day_typed_last_untyped : Schema.build document .default = .ok schema ∧
    (∃ record, schema.snapshot.lineage.Fills stay record (days 1 2)) ∧
    schema.snapshot.lineage.value? (.object (days 1 2)) (.named stay) =
      some (.object [("from", .int 1)]) ∧
    (Literal.object (days 1 2)).toJson? = some (.object [("from", .int 2)]) := by
  obtain ⟨record, hnames, h⟩ := fills_days 1 2
  have hfirst : (record.fields.filterMap fun f => entry? (days 1 2) f.name) =
      (record.fields.map InputValue.name).filterMap fun k => entry? (days 1 2) k := by
    rw [List.filterMap_map]
    rfl
  refine ⟨declare_document, ⟨record, h⟩, ?_, rfl⟩
  rw [h.value?_eq, hfirst, hnames]
  rfl

end Stays

end SchemaGraph
