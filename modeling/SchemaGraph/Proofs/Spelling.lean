import SchemaGraph.Proofs.Layout
import SchemaGraph.Proofs.WellFormed

namespace SchemaGraph

def TokenKind.Writable : TokenKind → Prop
  | .name text => IsName text
  | .int n => IsInt64 n
  | .float _ => False
  | .string _ => True
  | .blockString _ => False
  | .punct _ => True

namespace Numeral

theorem head?_toDigits {n : Nat} (h : n ≠ 0) : (Nat.toDigits 10 n).head? ≠ some '0' := by
  induction n using Nat.strongRecOn with
  | _ n ih =>
      by_cases hn : n < 10
      · have hall : ∀ d < 10, d ≠ 0 → [Nat.digitChar d].head? ≠ some '0' := by decide
        rw [Nat.toDigits_of_lt_base hn]
        exact hall n hn h
      · rw [Nat.toDigits_of_base_le (by decide) (Nat.not_lt.mp hn),
          List.head?_append_of_ne_nil _ Nat.toDigits_ne_nil]
        exact ih (n / 10) (Nat.div_lt_self (by omega) (by decide)) (by omega)

theorem isWhole_toDigits (n : Nat) : IsWhole (Nat.toDigits 10 n) := by
  by_cases hn : n = 0
  · exact Or.inl (by rw [hn, Nat.toDigits_zero])
  · refine Or.inr ⟨⟨Nat.toDigits_ne_nil, fun c hc => ?_⟩, head?_toDigits hn⟩
    exact Nat.isDigit_of_mem_toDigits (by decide) (Nat.le_refl 10) hc

def ofInt (n : Int) : Numeral := ⟨decide (n < 0), Nat.toDigits 10 n.natAbs, none, none⟩

theorem valid_ofInt (n : Int) : (ofInt n).Valid := ⟨isWhole_toDigits _, nofun, nofun⟩

theorem intValue_ofInt (n : Int) : (ofInt n).intValue = n := by
  have hv : digitsValue (Nat.toDigits 10 n.natAbs) = n.natAbs := Nat.ofDigitChars_ten_toDigits
  rw [intValue, ofInt, hv]
  dsimp only
  by_cases hn : n < 0
  · rw [if_pos (decide_eq_true hn)]
    omega
  · rw [if_neg (by rw [decide_eq_true_iff]; exact hn)]
    omega

theorem text_ofInt (n : Int) : (ofInt n).text = (toString n).toList := by
  rw [Int.toString_eq_repr, Int.repr_eq_if]
  by_cases hn : n < 0
  · have habs : (-n).toNat = n.natAbs := by omega
    rw [if_neg (Int.not_le.mpr hn), String.toList_append, Nat.toList_repr, habs]
    simp [ofInt, text, hn]
  · have habs : n.toNat = n.natAbs := by omega
    rw [if_pos (Int.not_lt.mp hn), Nat.toList_repr, habs]
    simp [ofInt, text, hn]

end Numeral

namespace StringLiteral

theorem exists_text (cs : List Char) : ∃ t, read t = .ok ⟨cs, t, []⟩ := by
  induction cs with
  | nil => exact ⟨['"'], rfl⟩
  | cons c cs ih =>
      obtain ⟨t, ht⟩ := ih
      have hescaped {e : Char} (he : escaped? e = some c) : ∃ t, read t = .ok ⟨c :: cs, t, []⟩ :=
        ⟨'\\' :: e :: t, (read_escaped he t).trans (map_grow_eq_ok ht _ _)⟩
      by_cases hq : c = '"'
      · exact hescaped (e := '"') (by rw [hq]; rfl)
      by_cases hb : c = '\\'
      · exact hescaped (e := '\\') (by rw [hb]; rfl)
      by_cases hn : c = '\n'
      · exact hescaped (e := 'n') (by rw [hn]; rfl)
      by_cases hr : c = '\r'
      · exact hescaped (e := 'r') (by rw [hr]; rfl)
      · exact ⟨c :: t, (read_plain hq hn hr hb t).trans (map_grow_eq_ok ht _ _)⟩

end StringLiteral

namespace Token

theorem ofChar?_of_isNameChar {c : Char} (h : isNameChar c = true) : Punct.ofChar? c = none := by
  cases hp : Punct.ofChar? c with
  | none => rfl
  | some p =>
      rw [← Punct.char_of_ofChar? hp] at h
      cases p <;> exact nomatch h

theorem isNameChar_of_isNameStart {c : Char} (h : isNameStart c = true) : isNameChar c = true := by
  simp only [isNameStart, Bool.or_eq_true] at h
  simp only [isNameChar, Char.isAlphanum, Bool.or_eq_true]
  exact h.imp_right Or.inl

theorem isNameChar_of_isDigit {c : Char} (h : c.isDigit = true) : isNameChar c = true := by
  simp only [isNameChar, Char.isAlphanum, Bool.or_eq_true]
  exact Or.inr (Or.inr h)

theorem not_isDigit_of_isNameStart {c : Char} (h : isNameStart c = true) : c.isDigit = false := by
  refine Bool.eq_false_iff.mpr fun hd => ?_
  simp only [isNameStart, Bool.or_eq_true, beq_iff_eq] at h
  rcases h with rfl | h
  · exact nomatch hd
  · have between (l u : UInt32) (h : (decide (c.val ≥ l) && decide (c.val ≤ u)) = true) :
        l.toNat ≤ c.toNat ∧ c.toNat ≤ u.toNat := by
      rw [Bool.and_eq_true] at h
      exact h.imp of_decide_eq_true of_decide_eq_true
    have hdigit : c.toNat ≤ 57 := (between 48 57 hd).2
    have hletter : 65 ≤ c.toNat := by
      rcases Bool.or_eq_true _ _ ▸ h with h | h
      · exact (of_decide_eq_true h).1
      · exact Nat.le_trans (by decide) (between 97 122 h).1
    omega

theorem spells_name {text : String} (h : IsName text) : Spells text.toList (.name text) := by
  obtain ⟨c, cs, htext, hc, hcs⟩ := h
  have hquote : c ≠ '"' := by
    rintro rfl
    exact nomatch hc
  have hnumber : ¬(c = '-' ∨ c.isDigit = true) := by
    rintro (rfl | hd)
    · exact nomatch hc
    · exact nomatch (not_isDigit_of_isNameStart hc).symm.trans hd
  have htake : (cs ++ []).takeWhile isNameChar = cs := takeWhile_append_stop hcs nofun
  have hdrop : (cs ++ []).dropWhile isNameChar = [] := dropWhile_append_stop hcs nofun
  rw [List.append_nil] at htake hdrop
  refine ⟨c, cs, htext, ?_⟩
  rw [scan, ofChar?_of_isNameChar (isNameChar_of_isNameStart hc)]
  dsimp only
  rw [if_neg hquote, if_neg hnumber, if_pos hc, htake, hdrop, ← htext, String.ofList_toList]

theorem exists_cons_of_valid {m : Numeral} (h : m.Valid) :
    ∃ c cs, m.text = c :: cs ∧ (c = '-' ∨ c.isDigit = true) := by
  obtain ⟨d, ds, hw, hd⟩ : ∃ d ds, m.whole = d :: ds ∧ d.isDigit = true := by
    rcases h.whole with hw | ⟨⟨hne, hds⟩, -⟩
    · exact ⟨'0', [], hw, rfl⟩
    · obtain ⟨d, ds, hw⟩ := List.exists_cons_of_ne_nil hne
      exact ⟨d, ds, hw, hds d (hw ▸ List.mem_cons_self ..)⟩
  unfold Numeral.text
  cases m.negative with
  | true => exact ⟨'-', _, rfl, Or.inl rfl⟩
  | false => exact ⟨d, _, by rw [hw]; rfl, Or.inr hd⟩

theorem scan_of_number {c : Char} (h : c = '-' ∨ c.isDigit = true) (cs : List Char) :
    scan c cs = scanNumber (c :: cs) := by
  have hpunct : Punct.ofChar? c = none := by
    rcases h with rfl | hd
    · decide
    · exact ofChar?_of_isNameChar (isNameChar_of_isDigit hd)
  have hquote : c ≠ '"' := by
    rintro rfl
    exact absurd h (by decide)
  rw [scan, hpunct]
  dsimp only
  rw [if_neg hquote, if_pos h]

theorem spells_int {n : Int} (h : IsInt64 n) : Spells (toString n).toList (.int n) := by
  have hvalid := Numeral.valid_ofInt n
  have hvalue := Numeral.intValue_ofInt n
  obtain ⟨c, cs, htext, hc⟩ := exists_cons_of_valid hvalid
  have hread : Numeral.read (c :: cs) = .ok (.ofInt n, []) :=
    Numeral.read_eq_ok_iff.mpr ⟨by rw [htext, List.append_nil], hvalid, nofun⟩
  have hkind : ofNumeral (.ofInt n) = .ok (.int n) :=
    ofNumeral_eq_ok_iff.mpr (Or.inr ⟨rfl, hvalue.symm ▸ h.1, hvalue.symm ▸ h.2, by rw [hvalue]⟩)
  refine ⟨c, cs, by rw [← Numeral.text_ofInt, htext], ?_⟩
  rw [scan_of_number hc, scanNumber_eq_ok_iff]
  exact ⟨_, hread, hkind, Numeral.text_ofInt n⟩

theorem exists_spells_string (s : String) : ∃ t, Spells t (.string s) := by
  obtain ⟨t, ht⟩ := StringLiteral.exists_text s.toList
  refine ⟨'"' :: t, '"', t, rfl, ?_⟩
  have hpunct : Punct.ofChar? '"' = none := by decide
  rw [scan, hpunct]
  dsimp only
  rw [if_pos rfl, scanString, ht]
  · rw [Except.map, String.ofList_toList]
  · -- two more quotes would begin a block string
    rintro r - rfl
    rcases StringLiteral.text_of_read ht with ⟨-, h⟩ | ⟨-, x, xs, h, hx⟩
    · exact absurd (List.cons.inj h).2 (List.cons_ne_nil _ _)
    · exact hx (List.cons.inj h).1.symm

theorem exists_spelling {k : TokenKind} (h : k.Writable) : ∃ t, Spells t k := by
  cases k with
  | name text => exact ⟨_, spells_name h⟩
  | int n => exact ⟨_, spells_int h⟩
  | float x => exact h.elim
  | string s => exact exists_spells_string s
  | blockString s => exact h.elim
  | punct p =>
      refine ⟨[p.char], p.char, [], rfl, ?_⟩
      rw [scan, Punct.ofChar?_char]

end Token

theorem exists_pieces {ks : List TokenKind} (h : ∀ k ∈ ks, k.Writable) :
    ∃ ps, ps.map Piece.kind = ks ∧ Laid [] ps ∧ ∀ c ∈ (Piece.allChars ps).head?, c = ' ' := by
  induction ks with
  | nil => exact ⟨[], rfl, .nil, nofun⟩
  | cons k ks ih =>
      rw [List.forall_mem_cons] at h
      obtain ⟨ps, hk, hlaid, hspace⟩ := ih h.2
      obtain ⟨t, ht⟩ := Token.exists_spelling h.1
      refine ⟨⟨[' '], t, k⟩ :: ps, by rw [List.map_cons, hk], ?_, ?_⟩
      · refine .cons (.char rfl .nil) ht ?_ hlaid
        rw [List.append_nil]
        cases hh : (Piece.allChars ps).head? with
        | none => exact k.stops_none
        | some c => exact k.stops_of_ignorable (Or.inl (hspace c hh ▸ rfl))
      · exact fun c hc => (Option.some.inj hc).symm

theorem exists_source {ks : List TokenKind} (h : ∀ k ∈ ks, k.Writable) :
    ∃ source ts, tokenize source = .ok ts ∧ ts.items.map Token.kind = ks := by
  obtain ⟨ps, hk, hlaid, -⟩ := exists_pieces h
  refine ⟨String.ofList (Piece.allChars ps), _, tokenizeFrom_eq_ok_iff.mpr
    ⟨ps, [], ?_, hlaid, IsGap.nil.isTail, rfl⟩, ?_⟩
  · rw [String.toList_ofList, List.append_nil]
  · rw [Piece.kinds_tokens, hk]

end SchemaGraph
