import Mathlib.Data.List.Nodup
import Mathlib.Data.List.Induction
import SchemaGraph.Schema.Keyed

namespace SchemaGraph.Keyed

variable {α β κ : Type} [DecidableEq κ] (key : α → κ)

theorem ofList_append (xs ys : List α) :
    ofList key (xs ++ ys) = ys.foldl (fun acc a => put key a acc) (ofList key xs) :=
  List.foldl_append

theorem ofList_concat (xs : List α) (a : α) :
    ofList key (xs ++ [a]) = put key a (ofList key xs) := by
  rw [ofList_append]
  rfl

theorem mem_of_mem_put {a x : α} {xs : List α} (h : x ∈ put key a xs) : x = a ∨ x ∈ xs := by
  induction xs with
  | nil => exact Or.inl (List.mem_singleton.mp h)
  | cons b bs ih =>
      simp only [put] at h
      split at h
      · rcases List.mem_cons.mp h with rfl | hx
        · exact Or.inl rfl
        · exact Or.inr (List.mem_cons_of_mem _ hx)
      · rcases List.mem_cons.mp h with rfl | hx
        · exact Or.inr List.mem_cons_self
        · exact (ih hx).imp id (List.mem_cons_of_mem _)

theorem mem_of_mem_ofList {x : α} {xs : List α} (h : x ∈ ofList key xs) : x ∈ xs := by
  induction xs using List.reverseRecOn with
  | nil => exact h
  | append_singleton xs a ih =>
      rw [ofList_concat] at h
      rcases mem_of_mem_put key h with rfl | hx
      · exact List.mem_append_right _ List.mem_cons_self
      · exact List.mem_append_left _ (ih hx)

theorem keys_put (a : α) (xs : List α) :
    (put key a xs).map key = if key a ∈ xs.map key then xs.map key else xs.map key ++ [key a] := by
  induction xs with
  | nil => simp [put]
  | cons b bs ih =>
      by_cases hb : key b = key a
      · simp [put, hb]
      · have ha : ¬key a = key b := fun h => hb h.symm
        rw [put, if_neg hb, List.map_cons, ih]
        by_cases hm : key a ∈ bs.map key
        · simp [hm]
        · rw [if_neg hm, if_neg (by simpa [ha] using hm), List.map_cons, List.cons_append]

theorem mem_keys_put {a : α} {xs : List α} {k : κ} :
    k ∈ (put key a xs).map key ↔ k ∈ xs.map key ∨ k = key a := by
  rw [keys_put]
  split
  · rename_i ha
    exact ⟨Or.inl, fun h => h.elim id fun hk => hk ▸ ha⟩
  · rw [List.mem_append, List.mem_singleton]

theorem mem_keys_ofList {xs : List α} {k : κ} : k ∈ (ofList key xs).map key ↔ k ∈ xs.map key := by
  induction xs using List.reverseRecOn with
  | nil => rfl
  | append_singleton xs a ih =>
      rw [ofList_concat, mem_keys_put, ih, List.map_append, List.mem_append, List.map_singleton,
        List.mem_singleton]

theorem nodup_put {a : α} {xs : List α} (h : (xs.map key).Nodup) :
    ((put key a xs).map key).Nodup := by
  rw [keys_put]
  split
  · exact h
  · rename_i ha
    refine List.nodup_append.mpr ⟨h, List.nodup_singleton _, ?_⟩
    intro k hk k' hk' he
    rw [List.mem_singleton] at hk'
    exact ha (hk' ▸ he ▸ hk)

theorem nodup_ofList (xs : List α) : ((ofList key xs).map key).Nodup := by
  induction xs using List.reverseRecOn with
  | nil => exact List.nodup_nil
  | append_singleton xs a ih =>
      rw [ofList_concat]
      exact nodup_put key ih

theorem put_of_fresh {a : α} {xs : List α} (h : key a ∉ xs.map key) : put key a xs = xs ++ [a] := by
  induction xs with
  | nil => rfl
  | cons b bs ih =>
      rw [List.map_cons, List.mem_cons, not_or] at h
      rw [put, if_neg (fun he => h.1 he.symm), ih h.2, List.cons_append]

theorem ofList_of_nodup {xs : List α} (h : (xs.map key).Nodup) : ofList key xs = xs := by
  induction xs using List.reverseRecOn with
  | nil => rfl
  | append_singleton xs a ih =>
      rw [List.map_append] at h
      obtain ⟨hxs, -, hd⟩ := List.nodup_append.mp h
      have ha : key a ∉ xs.map key := fun hm => hd _ hm _ (by simp) rfl
      rw [ofList_concat, ih hxs, put_of_fresh key ha]

theorem map_put {key' : β → κ} {f : α → β} (hf : ∀ x, key' (f x) = key x) (a : α) (xs : List α) :
    (put key a xs).map f = put key' (f a) (xs.map f) := by
  induction xs with
  | nil => rfl
  | cons b bs ih =>
      simp only [put, List.map_cons, hf]
      split
      · rw [List.map_cons]
      · rw [List.map_cons, ih]

theorem map_ofList {key' : β → κ} {f : α → β} (hf : ∀ x, key' (f x) = key x) (xs : List α) :
    (ofList key xs).map f = ofList key' (xs.map f) := by
  induction xs using List.reverseRecOn with
  | nil => rfl
  | append_singleton xs a ih =>
      rw [ofList_concat, map_put key hf, ih, List.map_append, List.map_singleton, ofList_concat]

theorem map_lastWriteWins {key' : β → κ} {f : α → β} (hf : ∀ x, key' (f x) = key x)
    (base added : List α) :
    (lastWriteWins key base added).map f = lastWriteWins key' (base.map f) (added.map f) := by
  rw [lastWriteWins, map_ofList key hf, List.map_append, lastWriteWins]

theorem lastWriteWins_lastWriteWins (a b c : List α) :
    lastWriteWins key (lastWriteWins key a b) c = lastWriteWins key a (b ++ c) := by
  unfold lastWriteWins
  rw [ofList_append, ofList_of_nodup key (nodup_ofList key _), ← ofList_append, List.append_assoc]

theorem mem_of_mem_lastWriteWins {base added : List α} {x : α}
    (h : x ∈ lastWriteWins key base added) : x ∈ base ∨ x ∈ added :=
  List.mem_append.mp (mem_of_mem_ofList key h)

theorem mem_keys_lastWriteWins {base added : List α} {k : κ} :
    k ∈ (lastWriteWins key base added).map key ↔ k ∈ base.map key ∨ k ∈ added.map key := by
  rw [lastWriteWins, mem_keys_ofList, List.map_append, List.mem_append]

theorem lastWriteWins_of_nodup {base added : List α} (h : ((base ++ added).map key).Nodup) :
    lastWriteWins key base added = base ++ added :=
  ofList_of_nodup key h

theorem get?_map {key' : β → κ} {f : α → β} (hf : ∀ x, key' (f x) = key x) (k : κ) (xs : List α) :
    get? key' k (xs.map f) = (get? key k xs).map f := by
  rw [get?, get?, List.find?_map]
  congr 2
  funext x
  simp [hf]

theorem get?_eq_none_iff {k : κ} {xs : List α} : get? key k xs = none ↔ k ∉ xs.map key := by
  simp [get?, List.find?_eq_none]

theorem exists_get?_of_mem_keys {k : κ} {xs : List α} (h : k ∈ xs.map key) :
    ∃ a, get? key k xs = some a := by
  cases hg : get? key k xs with
  | none => exact absurd h ((get?_eq_none_iff key).mp hg)
  | some a => exact ⟨a, rfl⟩

theorem get?_of_nodup {a : α} {xs : List α} (h : (xs.map key).Nodup) (ha : a ∈ xs) :
    get? key (key a) xs = some a := by
  induction xs with
  | nil => exact absurd ha List.not_mem_nil
  | cons b bs ih =>
      rw [List.map_cons, List.nodup_cons] at h
      rcases List.mem_cons.mp ha with rfl | hm
      · simp [get?]
      · have hne : key b ≠ key a := fun he => h.1 (he ▸ List.mem_map_of_mem hm)
        have hrest := ih h.2 hm
        rw [get?] at hrest ⊢
        rw [List.find?_cons_of_neg (by simpa using hne), hrest]

theorem filter_of_nodup {a : α} {xs : List α} (h : (xs.map key).Nodup) (ha : a ∈ xs) :
    xs.filter (key · == key a) = [a] := by
  induction xs with
  | nil => exact absurd ha List.not_mem_nil
  | cons b bs ih =>
      rw [List.map_cons, List.nodup_cons] at h
      rcases List.mem_cons.mp ha with rfl | hm
      · rw [List.filter_cons_of_pos (by simp), List.filter_eq_nil_iff.mpr]
        intro x hx he
        exact h.1 (beq_iff_eq.mp he ▸ List.mem_map_of_mem hx)
      · have hne : key b ≠ key a := fun he => h.1 (he ▸ List.mem_map_of_mem hm)
        rw [List.filter_cons_of_neg (by simpa using hne), ih h.2 hm]

theorem get?_cons (b : α) (bs : List α) (k : κ) :
    get? key k (b :: bs) = if key b = k then some b else get? key k bs := by
  by_cases hb : key b = k <;> simp [get?, hb]

theorem get?_put (a : α) (xs : List α) (k : κ) :
    get? key k (put key a xs) = if key a = k then some a else get? key k xs := by
  induction xs with
  | nil => rw [put, get?_cons]
  | cons b bs ih =>
      rw [put]
      split
      · rename_i hb
        rw [get?_cons, get?_cons, hb]
        split <;> rfl
      · rename_i hb
        rw [get?_cons, get?_cons, ih]
        by_cases hbk : key b = k
        · rw [if_pos hbk, if_pos hbk, if_neg fun ha => hb (hbk.trans ha.symm)]
        · rw [if_neg hbk, if_neg hbk]

theorem get?_ofList (k : κ) (xs : List α) :
    get? key k (ofList key xs) = (xs.filter (key · == k)).getLast? := by
  induction xs using List.reverseRecOn with
  | nil => rfl
  | append_singleton xs a ih =>
      rw [ofList_concat, get?_put, List.filter_append]
      by_cases ha : key a = k
      · simp [ha]
      · simp [ha, ih]

theorem get?_eq_getLast? {xs : List α} (h : (xs.map key).Nodup) (k : κ) :
    get? key k xs = (xs.filter (key · == k)).getLast? := by
  rw [← get?_ofList, ofList_of_nodup key h]

theorem filter_eq_of_perm {xs ys : List α} (h : xs.Perm ys) (hn : (xs.map key).Nodup) (k : κ) :
    xs.filter (key · == k) = ys.filter (key · == k) := by
  have hf : (xs.filter (key · == k)).Perm (ys.filter (key · == k)) := h.filter _
  cases hx : xs.filter (key · == k) with
  | nil =>
      rw [hx] at hf
      exact (List.nil_perm.mp hf).symm
  | cons a as =>
      obtain ⟨ha, hk⟩ := List.mem_filter.mp (hx ▸ List.mem_cons_self : a ∈ xs.filter (key · == k))
      obtain rfl := beq_iff_eq.mp hk
      have hs := filter_of_nodup key hn ha
      rw [hs] at hf
      rw [← hx, hs, List.singleton_perm.mp hf]

theorem lastWriteWins_concat (base added : List α) (a : α) :
    lastWriteWins key base (added ++ [a]) = put key a (lastWriteWins key base added) := by
  rw [lastWriteWins, ← List.append_assoc, ofList_concat, lastWriteWins]

theorem removeAll_eq_filter (ks ks' : List κ) : ks.removeAll ks' = ks.filter (· ∉ ks') := by
  rw [List.removeAll]
  exact List.filter_congr fun k _ => by simp

theorem keys_ofList (xs : List α) : (ofList key xs).map key = (xs.map key).eraseDups := by
  induction xs using List.reverseRecOn with
  | nil => rfl
  | append_singleton xs a ih =>
      rw [ofList_concat, keys_put, ih, List.map_append, List.eraseDups_append, List.map_singleton,
        removeAll_eq_filter]
      generalize xs.map key = ks
      by_cases ha : key a ∈ ks
      · rw [if_pos (List.mem_eraseDups.mpr ha), List.filter_cons_of_neg (by simpa using ha)]
        simp
      · rw [if_neg fun h => ha (List.mem_eraseDups.mp h), List.filter_cons_of_pos (by simpa using ha)]
        rfl

theorem eraseDups_of_nodup {ks : List κ} (h : ks.Nodup) : ks.eraseDups = ks := by
  have hk := keys_ofList (id : κ → κ) ks
  rw [ofList_of_nodup id (by rwa [List.map_id]), List.map_id] at hk
  exact hk.symm

theorem keys_lastWriteWins {base : List α} (h : (base.map key).Nodup) (added : List α) :
    (lastWriteWins key base added).map key =
      base.map key ++ ((added.map key).filter (· ∉ base.map key)).eraseDups := by
  rw [lastWriteWins, keys_ofList, List.map_append, List.eraseDups_append, eraseDups_of_nodup h,
    removeAll_eq_filter]

theorem getElem?_put {a x : α} {xs : List α} {i : Nat} (h : xs[i]? = some x) (hk : key x ≠ key a) :
    (put key a xs)[i]? = some x := by
  induction xs generalizing i with
  | nil => simp at h
  | cons b bs ih =>
      cases i with
      | zero =>
          obtain rfl : b = x := by simpa using h
          rw [put, if_neg hk]
          rfl
      | succ i =>
          rw [List.getElem?_cons_succ] at h
          rw [put]
          split
          · exact h
          · exact ih h

theorem getElem?_lastWriteWins {base added : List α} {i : Nat} {x : α} (hn : (base.map key).Nodup)
    (h : base[i]? = some x) (hk : key x ∉ added.map key) :
    (lastWriteWins key base added)[i]? = some x := by
  induction added using List.reverseRecOn with
  | nil => rwa [lastWriteWins, List.append_nil, ofList_of_nodup key hn]
  | append_singleton added a ih =>
      rw [List.map_append, List.mem_append, not_or] at hk
      rw [lastWriteWins_concat]
      exact getElem?_put key (ih hk.1) (by simpa using hk.2)

end SchemaGraph.Keyed
