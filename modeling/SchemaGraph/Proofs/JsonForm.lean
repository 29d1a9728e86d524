import Mathlib.Data.List.Induction
import Mathlib.Data.String.Basic
import SchemaGraph.Schema.Coercion

namespace SchemaGraph

namespace JsonValue

inductive Proper : JsonValue → Prop
  | null : Proper .null
  | bool (b : Bool) : Proper (.bool b)
  | int (n : Int) : Proper (.int n)
  | float {x : Decimal.Binary64} (hx : x.isFinite = true) : Proper (.float x)
  | string (s : String) : Proper (.string s)
  | array {vs : List JsonValue} (hvs : ∀ v ∈ vs, Proper v) : Proper (.array vs)
  | object {ms : List (String × JsonValue)} (hkeys : (ms.map Prod.fst).Nodup)
      (hms : ∀ m ∈ ms, Proper m.2) : Proper (.object ms)

theorem eq_float_of_ofBinary64? {x : Decimal.Binary64} {v : JsonValue} (h : ofBinary64? x = some v) :
    v = .float x ∧ x.isFinite = true := by
  unfold ofBinary64? at h
  split at h
  · exact ⟨(Option.some.inj h).symm, ‹_›⟩
  · exact nomatch h

variable {k : String} {v : JsonValue} {m : String × JsonValue} {ms out : List (String × JsonValue)}

theorem eq_or_mem_of_mem_insertMember (h : m ∈ insertMember k v ms) : m = (k, v) ∨ m ∈ ms := by
  induction ms with
  | nil => exact Or.inl (List.mem_singleton.mp h)
  | cons n ms ih =>
      unfold insertMember at h
      split at h
      · exact List.mem_cons.mp h
      · split at h
        · exact (List.mem_cons.mp h).imp_right (List.mem_cons_of_mem _)
        · rcases List.mem_cons.mp h with rfl | h
          · exact Or.inr List.mem_cons_self
          · exact (ih h).imp_right (List.mem_cons_of_mem _)

theorem mem_keys_insertMember {x : String} :
    x ∈ (insertMember k v ms).map Prod.fst ↔ x = k ∨ x ∈ ms.map Prod.fst := by
  induction ms with
  | nil => simp [insertMember]
  | cons n ms ih =>
      unfold insertMember
      split
      · simp
      · split
        · rename_i hk
          simp [hk]
        · simp only [List.map_cons, List.mem_cons, ih]
          exact or_left_comm

theorem pairwise_insertMember (h : ms.Pairwise (·.1 < ·.1)) :
    (insertMember k v ms).Pairwise (·.1 < ·.1) := by
  induction ms with
  | nil => exact List.pairwise_singleton _ _
  | cons n ms ih =>
      obtain ⟨hn, hms⟩ := List.pairwise_cons.mp h
      unfold insertMember
      split
      · rename_i hk
        refine List.pairwise_cons.mpr ⟨fun m hm => ?_, h⟩
        rcases List.mem_cons.mp hm with rfl | hm
        · exact hk
        · exact lt_trans hk (hn m hm)
      · rename_i hk
        split
        · rename_i heq
          exact List.pairwise_cons.mpr ⟨fun m hm => heq ▸ hn m hm, hms⟩
        · rename_i hne
          refine List.pairwise_cons.mpr ⟨fun m hm => ?_, ih hms⟩
          rcases eq_or_mem_of_mem_insertMember hm with rfl | hm
          · exact lt_of_le_of_ne (not_lt.mp hk) (Ne.symm hne)
          · exact hn m hm

structure Collected (ms out : List (String × JsonValue)) : Prop where
  ascending : out.Pairwise (·.1 < ·.1)
  members : out ⊆ ms
  keys : ms.map Prod.fst ⊆ out.map Prod.fst

theorem Collected.insert (h : Collected ms out) : Collected (ms ++ [(k, v)]) (insertMember k v out) where
  ascending := pairwise_insertMember h.ascending
  members m hm := by
    rcases eq_or_mem_of_mem_insertMember hm with rfl | hm
    · exact List.mem_concat_self
    · exact List.mem_append_left _ (h.members hm)
  keys x hx := by
    rw [List.map_append, List.mem_append] at hx
    rw [mem_keys_insertMember]
    exact hx.symm.imp List.mem_singleton.mp (h.keys ·)

theorem Collected.nodup (h : Collected ms out) : (out.map Prod.fst).Nodup :=
  (List.pairwise_map.mpr h.ascending).imp ne_of_lt

theorem exists_collected (ms : List (String × JsonValue)) :
    ∃ out, ofMembers ms = .object out ∧ Collected ms out := by
  refine ⟨_, rfl, ?_⟩
  induction ms using List.reverseRecOn with
  | nil => exact ⟨.nil, List.nil_subset _, List.nil_subset _⟩
  | append_singleton ms m ih =>
      rw [List.foldl_append]
      exact ih.insert

theorem proper_ofMembers (h : ∀ m ∈ ms, Proper m.2) : Proper (ofMembers ms) := by
  obtain ⟨out, hout, hc⟩ := exists_collected ms
  rw [hout]
  exact .object hc.nodup fun m hm => h m (hc.members hm)

end JsonValue

mutual

theorem Literal.proper_of_toJson? {x : Literal} {v : JsonValue} (h : x.toJson? = some v) : v.Proper := by
  cases x with
  | null => exact Option.some.inj h ▸ .null
  | int n => exact Option.some.inj h ▸ .int n
  | float x =>
      obtain ⟨rfl, hx⟩ := JsonValue.eq_float_of_ofBinary64? h
      exact .float hx
  | string s => exact Option.some.inj h ▸ .string s
  | bool b => exact Option.some.inj h ▸ .bool b
  | enum tag => exact Option.some.inj h ▸ .string tag
  | list items =>
      obtain ⟨vs, hvs, rfl⟩ := Option.map_eq_some_iff.mp h
      exact .array (proper_of_itemsToJson? hvs)
  | object entries =>
      obtain ⟨ms, hms, rfl⟩ := Option.map_eq_some_iff.mp h
      exact JsonValue.proper_ofMembers (proper_of_entriesToJson? hms)

theorem proper_of_itemsToJson? {items : List Literal} {vs : List JsonValue}
    (h : itemsToJson? items = some vs) : ∀ v ∈ vs, v.Proper := by
  cases items with
  | nil => exact Option.some.inj h ▸ nofun
  | cons x xs =>
      obtain ⟨v, hv, h⟩ := Option.bind_eq_some_iff.mp h
      obtain ⟨vs', hvs', h⟩ := Option.bind_eq_some_iff.mp h
      obtain rfl := Option.some.inj h
      exact List.forall_mem_cons.mpr ⟨x.proper_of_toJson? hv, proper_of_itemsToJson? hvs'⟩

theorem proper_of_entriesToJson? {entries : List (Ident × Literal)} {ms : List (String × JsonValue)}
    (h : entriesToJson? entries = some ms) : ∀ m ∈ ms, m.2.Proper := by
  cases entries with
  | nil => exact Option.some.inj h ▸ nofun
  | cons e es =>
      obtain ⟨k, x⟩ := e
      obtain ⟨v, hv, h⟩ := Option.bind_eq_some_iff.mp h
      obtain ⟨ms', hms', h⟩ := Option.bind_eq_some_iff.mp h
      obtain rfl := Option.some.inj h
      exact List.forall_mem_cons.mpr ⟨x.proper_of_toJson? hv, proper_of_entriesToJson? hms'⟩

end

theorem Literal.eq_null_of_toJson? {x : Literal} (h : x.toJson? = some .null) : x = .null := by
  cases x with
  | null => rfl
  | float x => exact nomatch (JsonValue.eq_float_of_ofBinary64? h).1
  | list items =>
      obtain ⟨vs, -, hvs⟩ := Option.map_eq_some_iff.mp h
      exact nomatch hvs
  | object entries =>
      obtain ⟨ms, -, hms⟩ := Option.map_eq_some_iff.mp h
      exact nomatch hms
  | _ => exact nomatch h

structure FitsScalar (scalar : String) (v : JsonValue) : Prop where
  int : scalar = "Int" → ∃ n, v = .int n ∧ -Int.pow 2 31 ≤ n ∧ n < Int.pow 2 31
  float : scalar = "Float" → ∃ x, v = .float x ∧ x.isFinite = true
  text : scalar = "String" ∨ scalar = "ID" → ∃ s, v = .string s
  bool : scalar = "Boolean" → ∃ b, v = .bool b
  proper : v.Proper

theorem fits_of_scalarToJson? {scalar : String} {x : Literal} {v : JsonValue}
    (h : scalarToJson? scalar x = some v) : FitsScalar scalar v := by
  unfold scalarToJson? at h
  split at h
  · subst scalar
    split at h
    · split at h
      · rename_i n hn
        obtain rfl := Option.some.inj h
        exact ⟨fun _ => ⟨n, rfl, hn⟩, by simp, by simp, by simp, .int n⟩
      · exact nomatch h
    · exact nomatch h
  split at h
  · subst scalar
    have hfloat {b : Decimal.Binary64} (hb : JsonValue.ofBinary64? b = some v) : FitsScalar "Float" v := by
      obtain ⟨rfl, hfinite⟩ := JsonValue.eq_float_of_ofBinary64? hb
      exact ⟨by simp, fun _ => ⟨b, rfl, hfinite⟩, by simp, by simp, .float hfinite⟩
    split at h
    · exact hfloat h
    · exact hfloat h
    · exact nomatch h
  have hstring {s t : String} (hs : s = "String" ∨ s = "ID") (ht : some (.string t) = some v) :
      FitsScalar s v := by
    obtain rfl := Option.some.inj ht
    refine ⟨?_, ?_, fun _ => ⟨t, rfl⟩, ?_, .string t⟩ <;> rcases hs with rfl | rfl <;> simp
  split at h
  · subst scalar
    split at h
    · exact hstring (Or.inl rfl) h
    · exact nomatch h
  split at h
  · subst scalar
    split at h
    · rename_i b
      obtain rfl := Option.some.inj h
      exact ⟨by simp, by simp, by simp, fun _ => ⟨b, rfl⟩, .bool b⟩
    · exact nomatch h
  split at h
  · subst scalar
    split at h
    · exact hstring (Or.inr rfl) h
    · exact hstring (Or.inr rfl) h
    · exact nomatch h
  · rename_i hint hfloat hstring' hbool hid
    exact ⟨(absurd · hint), (absurd · hfloat), fun h => absurd h (by simp [hstring', hid]),
      (absurd · hbool), x.proper_of_toJson? h⟩

theorem eq_null_of_scalarToJson? {scalar : String} {x : Literal}
    (h : scalarToJson? scalar x = some .null) : x = .null := by
  have hfits := fits_of_scalarToJson? h
  have hint : scalar ≠ "Int" := fun hs => nomatch hfits.int hs
  have hfloat : scalar ≠ "Float" := fun hs => nomatch hfits.float hs
  have hstring : scalar ≠ "String" := fun hs => nomatch hfits.text (Or.inl hs)
  have hbool : scalar ≠ "Boolean" := fun hs => nomatch hfits.bool hs
  have hid : scalar ≠ "ID" := fun hs => nomatch hfits.text (Or.inr hs)
  unfold scalarToJson? at h
  rw [if_neg hint, if_neg hfloat, if_neg hstring, if_neg hbool, if_neg hid] at h
  exact x.eq_null_of_toJson? h

end SchemaGraph
