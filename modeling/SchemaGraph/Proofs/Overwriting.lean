import Mathlib.Data.List.Perm.Basic
import SchemaGraph.Proofs.Keyed

namespace SchemaGraph.Keyed

theorem eq_of_map_eq {α κ : Type} {key : α → κ} {ys zs : List α} (hm : ys.map key = zs.map key)
    (h : ∀ a ∈ ys, ∀ b ∈ zs, key a = key b → a = b) : ys = zs := by
  induction ys generalizing zs with
  | nil =>
      rw [List.map_nil, eq_comm, List.map_eq_nil_iff] at hm
      exact hm.symm
  | cons a ys ih =>
      cases zs with
      | nil => simp at hm
      | cons b zs =>
          rw [List.map_cons, List.map_cons, List.cons.injEq] at hm
          rw [h a (by simp) b (by simp) hm.1,
            ih hm.2 fun x hx y hy => h x (by simp [hx]) y (by simp [hy])]

variable {α κ : Type} [DecidableEq κ] (key : α → κ)

structure LastWrites (xs ys : List α) : Prop where
  keys : ∀ k, k ∈ ys.map key ↔ k ∈ xs.map key
  order : (ys.map key).Pairwise fun k k' => (xs.map key).idxOf k < (xs.map key).idxOf k'
  value : ∀ a ∈ ys, ∃ us vs, xs = us ++ a :: vs ∧ key a ∉ vs.map key

theorem getLast?_filter_eq_some_iff {xs : List α} {a : α} :
    (xs.filter (key · == key a)).getLast? = some a ↔
      ∃ us vs, xs = us ++ a :: vs ∧ key a ∉ vs.map key := by
  rw [← List.head?_reverse, ← List.filter_reverse, List.head?_filter, List.find?_eq_some_iff_append]
  constructor
  · rintro ⟨-, vs, us, hxs, hvs⟩
    refine ⟨us.reverse, vs.reverse, ?_, ?_⟩
    · rw [← List.reverse_reverse xs, hxs]
      simp
    · intro hm
      obtain ⟨b, hb, he⟩ := List.mem_map.mp hm
      have := hvs b (List.mem_reverse.mp hb)
      simp [he] at this
  · rintro ⟨us, vs, rfl, hvs⟩
    refine ⟨by simp, vs.reverse, us.reverse, by simp, ?_⟩
    intro b hb
    have hne : key b ≠ key a := fun he =>
      hvs (he ▸ List.mem_map_of_mem (List.mem_reverse.mp hb))
    simpa using hne

theorem order_ofList (xs : List α) : ((ofList key xs).map key).Pairwise fun k k' =>
    (xs.map key).idxOf k < (xs.map key).idxOf k' := by
  induction xs using List.reverseRecOn with
  | nil => exact .nil
  | append_singleton xs a ih =>
      have hmem (k : κ) (hk : k ∈ (ofList key xs).map key) :
          ((xs ++ [a]).map key).idxOf k = (xs.map key).idxOf k := by
        rw [List.map_append]
        exact List.idxOf_append_of_mem ((mem_keys_ofList key).mp hk)
      have hold : ((ofList key xs).map key).Pairwise fun k k' =>
          ((xs ++ [a]).map key).idxOf k < ((xs ++ [a]).map key).idxOf k' := by
        refine ih.imp_of_mem fun hk hk' h => ?_
        rwa [hmem _ hk, hmem _ hk']
      rw [ofList_concat, keys_put]
      split
      · exact hold
      · rename_i ha
        have hnew : ((xs ++ [a]).map key).idxOf (key a) = xs.length := by
          have hx : key a ∉ xs.map key := fun h => ha ((mem_keys_ofList key).mpr h)
          rw [List.map_append, List.idxOf_append_of_notMem hx]
          simp
        refine List.pairwise_append.mpr ⟨hold, List.pairwise_singleton _ _, ?_⟩
        intro k hk k' hk'
        rw [List.mem_singleton.mp hk', hnew, hmem k hk]
        have := List.idxOf_lt_length_of_mem ((mem_keys_ofList key).mp hk)
        simpa using this

theorem lastWrites_ofList (xs : List α) : LastWrites key xs (ofList key xs) where
  keys _ := mem_keys_ofList key
  order := order_ofList key xs
  value a ha := by
    apply (getLast?_filter_eq_some_iff key).mp
    rw [← get?_ofList]
    exact get?_of_nodup key (nodup_ofList key xs) ha

theorem LastWrites.keys_eq {key : α → κ} {xs ys zs : List α} (hy : LastWrites key xs ys)
    (hz : LastWrites key xs zs) : ys.map key = zs.map key := by
  have nodup {ws : List α} (hw : LastWrites key xs ws) : (ws.map key).Nodup :=
    hw.order.imp fun hlt he => by simp [he] at hlt
  have hperm : (ys.map key).Perm (zs.map key) :=
    (List.perm_ext_iff_of_nodup (nodup hy) (nodup hz)).mpr fun k => (hy.keys k).trans (hz.keys k).symm
  refine hperm.eq_of_pairwise ?_ hy.order hz.order
  intro k k' _ _ h h'
  omega

theorem LastWrites.unique {key : α → κ} {xs ys zs : List α} (hy : LastWrites key xs ys)
    (hz : LastWrites key xs zs) : ys = zs := by
  apply eq_of_map_eq (hy.keys_eq hz)
  intro a ha b hb he
  have hlast := (getLast?_filter_eq_some_iff key).mpr (hy.value a ha)
  rw [he, (getLast?_filter_eq_some_iff key).mpr (hz.value b hb)] at hlast
  exact (Option.some.inj hlast).symm

theorem eq_ofList_iff {xs ys : List α} : ys = ofList key xs ↔ LastWrites key xs ys := by
  constructor
  · rintro rfl
    exact lastWrites_ofList key xs
  · exact fun h => h.unique (lastWrites_ofList key xs)

theorem lastWriteWins_keeps_last_writes (base added : List α) :
    (∀ ys, ys = lastWriteWins key base added ↔ LastWrites key (base ++ added) ys) ∧
      ∀ more, lastWriteWins key (lastWriteWins key base added) more =
        lastWriteWins key base (added ++ more) :=
  ⟨fun _ => eq_ofList_iff key, fun more => lastWriteWins_lastWriteWins key base added more⟩

example : lastWriteWins Prod.fst [("id", 1), ("name", 2), ("id", 3)] [("mail", 4), ("name", 5)] =
    [("id", 3), ("name", 5), ("mail", 4)] := by decide

end SchemaGraph.Keyed
