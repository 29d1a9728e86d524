import SchemaGraph.Proofs.NumberGrammar

namespace SchemaGraph.Text

open StringLiteral (leadByte takeBytes)

def byteAt? (source : String) (i : Nat) : Option Char :=
  source.toByteArray.data[i]?.map fun b => Char.ofNat b.toNat

def slice? (source : String) (i j : Nat) : Option (List Char) :=
  if i ≤ j ∧ String.Pos.Raw.IsValid source ⟨i⟩ ∧ String.Pos.Raw.IsValid source ⟨j⟩ then
    some (slice source i j).toList
  else none

theorem lt_of_byteAt? {source : String} {i : Nat} {b : Char} (h : byteAt? source i = some b) :
    i < source.utf8ByteSize := by
  obtain ⟨x, hx, -⟩ := Option.map_eq_some_iff.mp h
  exact (Array.getElem?_eq_some_iff.mp hx).1

def runEnd (source : String) (test : Char → Bool) (i : Nat) : Nat :=
  match h : byteAt? source i with
  | some b => if test b then runEnd source test (i + 1) else i
  | none => i
termination_by source.utf8ByteSize - i
decreasing_by
  have := lt_of_byteAt? h
  omega

section Bytes

variable {c : Char}

def charBytes (c : Char) : List Char := (String.utf8EncodeChar c).map fun b => Char.ofNat b.toNat

theorem length_charBytes (c : Char) : (charBytes c).length = c.utf8Size := by
  rw [charBytes, List.length_map, String.length_utf8EncodeChar]

theorem head?_charBytes (c : Char) : (charBytes c).head? = some (leadByte c) := by
  rw [charBytes, leadByte]
  cases h : String.utf8EncodeChar c with
  | nil => exact absurd h String.utf8EncodeChar_ne_nil
  | cons b bs => rfl

theorem charBytes_of_ascii (h : c.toNat < 128) : charBytes c = [c] := by
  have henc : String.utf8EncodeChar c = [UInt8.ofNat c.toNat] := if_pos (Nat.le_of_lt_succ h)
  have hbyte : (UInt8.ofNat c.toNat).toNat = c.toNat := by
    rw [UInt8.toNat_ofNat']
    omega
  rw [charBytes, henc, List.map_singleton, hbyte, Char.ofNat_toNat]

theorem toNat_ofByte (b : UInt8) : (Char.ofNat b.toNat).toNat = b.toNat := by
  have hb := b.toNat_lt
  rw [Char.ofNat, dif_pos (Or.inl (by omega))]
  rfl

theorem le_of_mem_utf8EncodeChar (h : 128 ≤ c.toNat) :
    ∀ b ∈ String.utf8EncodeChar c, 128 ≤ b.toNat := by
  have hval : c.val.toNat = c.toNat := rfl
  have hlt : c.toNat < 1114112 := by
    have := c.valid
    simp only [UInt32.isValidChar, Nat.isValidChar] at this
    omega
  have hbyte {n : Nat} (hn : 128 ≤ n) (hn' : n < 256) : 128 ≤ (UInt8.ofNat n).toNat := by
    rw [UInt8.toNat_ofNat']
    omega
  unfold String.utf8EncodeChar
  simp only [hval]
  split
  · omega
  · split
    · simp only [List.forall_mem_cons]
      exact ⟨hbyte (by omega) (by omega), hbyte (by omega) (by omega), by simp⟩
    · split
      · simp only [List.forall_mem_cons]
        exact ⟨hbyte (by omega) (by omega), hbyte (by omega) (by omega),
          hbyte (by omega) (by omega), by simp⟩
      · simp only [List.forall_mem_cons]
        exact ⟨hbyte (by omega) (by omega), hbyte (by omega) (by omega),
          hbyte (by omega) (by omega), hbyte (by omega) (by omega), by simp⟩

theorem le_of_mem_charBytes (h : 128 ≤ c.toNat) : ∀ b ∈ charBytes c, 128 ≤ b.toNat := by
  intro b hb
  obtain ⟨x, hx, rfl⟩ := List.mem_map.mp hb
  rw [toNat_ofByte]
  exact le_of_mem_utf8EncodeChar h x hx

theorem byteAt?_of_append {source : String} {a b : List Char}
    (h : source.toList = a ++ c :: b) {k : Nat} (hk : k < c.utf8Size) :
    byteAt? source (String.utf8Len a + k) = (charBytes c)[k]? := by
  have hlen (cs : List Char) : (cs.flatMap String.utf8EncodeChar).length = String.utf8Len cs := by
    induction cs with
    | nil => rfl
    | cons c cs ih => simp [String.utf8Len_cons, ih, Nat.add_comm]
  have hall : source.toByteArray.data.toList = a.flatMap String.utf8EncodeChar ++
      (String.utf8EncodeChar c ++ b.flatMap String.utf8EncodeChar) := by
    rw [← String.utf8Encode_toList, List.utf8Encode, List.data_toByteArray, h, List.flatMap_append,
      List.flatMap_cons]
  rw [byteAt?, ← Array.getElem?_toList, hall, ← hlen, List.getElem?_append_right (by omega),
    Nat.add_sub_cancel_left, List.getElem?_append_left (by rwa [String.length_utf8EncodeChar]),
    charBytes, List.getElem?_map]

theorem byteAt?_eq {source : String} {a cs : List Char} (h : source.toList = a ++ cs) :
    byteAt? source (String.utf8Len a) = cs.head?.map leadByte := by
  cases cs with
  | nil =>
      have hend : String.utf8Len a = source.utf8ByteSize := by
        rw [← String.utf8Len_toList, h, List.append_nil]
      rw [List.head?_nil, Option.map_none, ← Option.not_isSome_iff_eq_none]
      intro hs
      obtain ⟨b, hb⟩ := Option.isSome_iff_exists.mp hs
      exact absurd (lt_of_byteAt? hb) (by omega)
  | cons c cs =>
      have := byteAt?_of_append h c.utf8Size_pos
      rw [Nat.add_zero] at this
      rw [this, ← List.head?_eq_getElem?, head?_charBytes]
      rfl

end Bytes

section Uniform

variable {β : Type} {f : Char → β} {d : β} (hd : ∀ x : Char, 128 ≤ x.toNat → f x = d)
include hd

theorem eq_of_mem_charBytes {c b : Char} (h : b ∈ charBytes c) : f b = f c := by
  rcases Nat.lt_or_ge c.toNat 128 with hc | hc
  · rw [charBytes_of_ascii hc, List.mem_singleton] at h
    rw [h]
  · rw [hd b (le_of_mem_charBytes hc b h), hd c hc]

theorem leadByte_congr (c : Char) : f (leadByte c) = f c :=
  eq_of_mem_charBytes hd (List.mem_of_mem_head? (head?_charBytes c))

end Uniform

theorem runEnd_of_pass {source : String} {test : Char → Bool} {i : Nat} {b : Char}
    (hb : byteAt? source i = some b) (ht : test b = true) :
    runEnd source test i = runEnd source test (i + 1) := by
  rw [runEnd]
  split
  · rename_i b' hb'
    obtain rfl := Option.some.inj (hb'.symm.trans hb)
    rw [if_pos ht]
  · rename_i hb'
    rw [hb'] at hb
    cases hb

theorem runEnd_of_stop {source : String} {test : Char → Bool} {i : Nat}
    (h : ∀ b ∈ byteAt? source i, test b = false) : runEnd source test i = i := by
  rw [runEnd]
  split
  · rename_i b hb
    rw [h b hb]
    rfl
  · rfl

theorem runEnd_add {source : String} {test : Char → Bool} {i n : Nat}
    (h : ∀ k < n, ∃ b, byteAt? source (i + k) = some b ∧ test b = true) :
    runEnd source test i = runEnd source test (i + n) := by
  induction n with
  | zero => rfl
  | succ n ih =>
      obtain ⟨b, hb, ht⟩ := h n (Nat.lt_succ_self n)
      rw [ih fun k hk => h k (Nat.lt_succ_of_lt hk), runEnd_of_pass hb ht]
      rfl

theorem runEnd_eq {source : String} {test : Char → Bool} {d : Bool}
    (hd : ∀ x : Char, 128 ≤ x.toNat → test x = d) {a cs : List Char}
    (h : source.toList = a ++ cs) :
    runEnd source test (String.utf8Len a) = String.utf8Len (a ++ cs.takeWhile test) := by
  induction cs generalizing a with
  | nil =>
      rw [List.takeWhile_nil, List.append_nil]
      refine runEnd_of_stop fun b hb => ?_
      rw [byteAt?_eq h] at hb
      cases hb
  | cons c cs ih =>
      cases ht : test c with
      | true =>
          have hbytes : ∀ k < c.utf8Size, ∃ b, byteAt? source (String.utf8Len a + k) = some b ∧
              test b = true := by
            intro k hk
            rw [← length_charBytes] at hk
            refine ⟨(charBytes c)[k], ?_, ?_⟩
            · rw [byteAt?_of_append h (length_charBytes c ▸ hk), List.getElem?_eq_getElem hk]
            · rw [eq_of_mem_charBytes hd (List.getElem_mem hk), ht]
          have hnext : String.utf8Len a + c.utf8Size = String.utf8Len (a ++ [c]) := by
            rw [String.utf8Len_append, String.utf8Len_cons, String.utf8Len, Nat.zero_add]
          rw [runEnd_add hbytes, hnext, ih (by rw [h, List.append_assoc]; rfl),
            List.takeWhile_cons_of_pos ht, List.append_assoc]
          rfl
      | false =>
          rw [List.takeWhile_cons_of_neg (by simp [ht]), List.append_nil]
          refine runEnd_of_stop fun b hb => ?_
          rw [byteAt?_eq h, List.head?_cons, Option.map_some] at hb
          rw [← Option.some.inj hb, leadByte_congr hd, ht]

theorem slice?_of_append {source : String} {a t b : List Char} (h : source.toList = a ++ t ++ b) :
    slice? source (String.utf8Len a) (String.utf8Len (a ++ t)) = some t := by
  have hle : String.utf8Len a ≤ String.utf8Len (a ++ t) := by
    rw [String.utf8Len_append]
    exact Nat.le_add_right _ _
  rw [slice?, if_pos ⟨hle, isBoundary_of_append (h.trans (List.append_assoc ..)),
    isBoundary_of_append h⟩, slice_of_append h, String.toList_ofList]

theorem exists_of_slice? {source : String} {i j : Nat} {t : List Char}
    (h : slice? source i j = some t) :
    ∃ a b, source.toList = a ++ t ++ b ∧ i = String.utf8Len a ∧ j = String.utf8Len (a ++ t) := by
  unfold slice? at h
  split at h
  · rename_i hij
    obtain ⟨hle, hi, hj⟩ := hij
    obtain ⟨a, r, happ, ha⟩ := exists_split (List.nil_append source.toList).symm hi (Nat.zero_le i)
    rw [List.nil_append] at ha
    subst ha
    obtain ⟨x, b, rfl, rfl⟩ := exists_split happ hj hle
    rw [← List.append_assoc] at happ
    rw [slice_of_append happ, String.toList_ofList] at h
    obtain rfl := Option.some.inj h
    exact ⟨a, b, happ, rfl, rfl⟩
  · cases h

theorem takeBytes_eq_some_iff {n : Nat} {cs t : List Char} :
    takeBytes n cs = some t ↔ t <+: cs ∧ String.utf8Len t = n := by
  fun_induction takeBytes n cs generalizing t with
  | case1 cs =>
      constructor
      · intro h
        obtain rfl := Option.some.inj h
        exact ⟨List.nil_prefix, rfl⟩
      · rintro ⟨-, h⟩
        cases t with
        | nil => rfl
        | cons c t =>
            have := c.utf8Size_pos
            rw [String.utf8Len_cons] at h
            omega
  | case2 n =>
      refine iff_of_false (by simp) ?_
      rintro ⟨h, hlen⟩
      rw [List.prefix_nil.mp h] at hlen
      cases hlen
  | case3 n c cs hle ih =>
      constructor
      · intro h
        obtain ⟨t', ht', rfl⟩ := Option.map_eq_some_iff.mp h
        obtain ⟨hp, hlen⟩ := ih.mp ht'
        refine ⟨List.cons_prefix_cons.mpr ⟨rfl, hp⟩, ?_⟩
        rw [String.utf8Len_cons]
        omega
      · rintro ⟨hp, hlen⟩
        cases t with
        | nil => cases hlen
        | cons x t =>
            obtain ⟨rfl, htail⟩ := List.cons_prefix_cons.mp hp
            rw [String.utf8Len_cons] at hlen
            have hlen' : String.utf8Len t = n + 1 - x.utf8Size := by omega
            rw [ih.mpr ⟨htail, hlen'⟩]
            rfl
  | case4 n c cs hle =>
      refine iff_of_false (by simp) ?_
      rintro ⟨hp, hlen⟩
      cases t with
      | nil => cases hlen
      | cons x t =>
          obtain ⟨rfl, -⟩ := List.cons_prefix_cons.mp hp
          rw [String.utf8Len_cons] at hlen
          omega

theorem slice?_eq_takeBytes {source : String} {a cs : List Char} (h : source.toList = a ++ cs)
    (n : Nat) :
    slice? source (String.utf8Len a) (String.utf8Len a + n) = takeBytes n cs := by
  cases ht : takeBytes n cs with
  | some t =>
      obtain ⟨⟨b, rfl⟩, rfl⟩ := takeBytes_eq_some_iff.mp ht
      rw [← String.utf8Len_append]
      exact slice?_of_append (h.trans (List.append_assoc ..).symm)
  | none =>
      refine if_neg ?_
      rintro ⟨-, -, hq⟩
      obtain ⟨t, b, rfl, hlen⟩ := exists_split h hq (Nat.le_add_right _ _)
      rw [String.utf8Len_append, Nat.add_left_cancel_iff] at hlen
      rw [takeBytes_eq_some_iff.mpr ⟨List.prefix_append t b, hlen.symm⟩] at ht
      cases ht

end SchemaGraph.Text
