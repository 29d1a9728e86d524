import SchemaGraph.Proofs.Numeral

namespace SchemaGraph

namespace TokenKind

/-- The token ends here if this character comes next. -/
def Stops (next : Option Char) : TokenKind → Prop
  | .name _ => ∀ c ∈ next, isNameChar c = false
  | .int _ => Numeral.Ends next
  | .float _ => Numeral.Ends next
  | .string value => value = "" → next ≠ some '"'
  | .blockString _ => True
  | .punct _ => True

theorem stops_none (k : TokenKind) : k.Stops none := by
  cases k with
  | string value => exact fun _ h => nomatch h
  | blockString value => trivial
  | punct p => trivial
  | _ => exact nofun

theorem stops_of_ignorable (k : TokenKind) {c : Char} (h : isIgnorable c = true ∨ c = '#') :
    k.Stops (some c) := by
  have hc : isNameChar c = false ∧ c ≠ '.' ∧ c ≠ '"' := by
    simp only [isIgnorable, Bool.or_eq_true, beq_iff_eq] at h
    rcases h with (((((rfl | rfl) | rfl) | rfl) | rfl) | rfl) | rfl <;> decide
  cases k with
  | name text => exact fun x hx => Option.some.inj hx ▸ hc.1
  | int value => exact fun x hx => Option.some.inj hx ▸ ⟨hc.1, hc.2.1⟩
  | float value => exact fun x hx => Option.some.inj hx ▸ ⟨hc.1, hc.2.1⟩
  | string value => exact fun _ hx => hc.2.2 (Option.some.inj hx)
  | blockString value => trivial
  | punct p => trivial

end TokenKind

namespace StringLiteral

variable {cs r : List Char} {l : Lexeme (List Char)}

theorem exists_of_map_grow {x : Except LexFault (Lexeme (List Char))} {v t : List Char}
    (h : x.map (.grow v t) = .ok l) :
    ∃ l', x = .ok l' ∧ l.value = v ++ l'.value ∧ l.text = t ++ l'.text ∧ l.rest = l'.rest := by
  obtain ⟨l', hx, rfl⟩ := exists_of_map_eq_ok h
  exact ⟨l', hx, rfl, rfl, rfl⟩

theorem map_grow_eq_ok {x : Except LexFault (Lexeme (List Char))} {v' t' : List Char}
    (h : x = .ok ⟨v', t', r⟩) (v t : List Char) :
    x.map (Lexeme.grow v t) = .ok ⟨v ++ v', t ++ t', r⟩ := by
  rw [h]
  rfl

theorem read_unicode {a b c d x : Char} (h : unicode? a b c d = some x) (r : List Char) :
    read ('\\' :: 'u' :: a :: b :: c :: d :: r) =
      (read r).map (.grow [x] ['\\', 'u', a, b, c, d]) := by
  rw [read, h]

theorem read_escaped {e x : Char} (h : escaped? e = some x) (r : List Char) :
    read ('\\' :: e :: r) = (read r).map (.grow [x] ['\\', e]) := by
  have hu : e ≠ 'u' := by
    rintro rfl
    exact nomatch h
  rw [read, h]
  · exact fun _ _ _ _ _ he => absurd he hu
  · exact hu

theorem read_plain {c : Char} (hq : c ≠ '"') (hn : c ≠ '\n') (hr : c ≠ '\r') (hb : c ≠ '\\')
    (r : List Char) : read (c :: r) = (read r).map (.grow [c] [c]) := by
  rw [read] <;> simp_all

theorem readBlock_plain {c : Char} (hq : ¬['"', '"', '"'] <+: c :: r)
    (hb : ¬['\\', '"', '"', '"'] <+: c :: r) :
    readBlock (c :: r) = (readBlock r).map (.grow [c] [c]) := by
  rw [readBlock]
  · rintro r' rfl rfl
    exact hq ⟨r', rfl⟩
  · rintro r' rfl rfl
    exact hb ⟨r', rfl⟩

theorem read_swap (h : read cs = .ok l) (r : List Char) :
    read (l.text ++ r) = .ok ⟨l.value, l.text, r⟩ := by
  fun_induction read cs generalizing l with
  | case2 s =>
      obtain rfl := Except.ok.inj h
      rfl
  | case6 a b c d s x hx ih =>
      obtain ⟨l', hl', hv, ht, -⟩ := exists_of_map_grow h
      rw [ht, hv]
      exact (read_unicode hx _).trans (map_grow_eq_ok (ih hl') _ _)
  | case9 e s _ _ x hx ih =>
      obtain ⟨l', hl', hv, ht, -⟩ := exists_of_map_grow h
      rw [ht, hv]
      exact (read_escaped hx _).trans (map_grow_eq_ok (ih hl') _ _)
  | case11 c s hq hn hr h1 _ _ h4 ih =>
      have hb : c ≠ '\\' := by
        intro hc
        cases s with
        | nil => exact h1 hc rfl
        | cons e s => exact h4 e s hc rfl
      obtain ⟨l', hl', hv, ht, -⟩ := exists_of_map_grow h
      rw [ht, hv]
      exact (read_plain hq hn hr hb _).trans (map_grow_eq_ok (ih hl') _ _)
  | _ => cases h

theorem text_of_read (h : read cs = .ok l) :
    l.value = [] ∧ l.text = ['"'] ∨ l.value ≠ [] ∧ ∃ c s, l.text = c :: s ∧ c ≠ '"' := by
  fun_induction read cs generalizing l with
  | case2 s =>
      obtain rfl := Except.ok.inj h
      exact Or.inl ⟨rfl, rfl⟩
  | case6 a b c d s x hx ih =>
      obtain ⟨l', -, hv, ht, -⟩ := exists_of_map_grow h
      rw [hv, ht]
      exact Or.inr ⟨List.cons_ne_nil _ _, _, _, rfl, by decide⟩
  | case9 e s _ _ x hx ih =>
      obtain ⟨l', -, hv, ht, -⟩ := exists_of_map_grow h
      rw [hv, ht]
      exact Or.inr ⟨List.cons_ne_nil _ _, _, _, rfl, by decide⟩
  | case11 c s hq _ _ _ _ _ _ ih =>
      obtain ⟨l', -, hv, ht, -⟩ := exists_of_map_grow h
      rw [hv, ht]
      exact Or.inr ⟨List.cons_ne_nil _ _, _, _, rfl, hq⟩
  | _ => cases h

theorem three_le_of_readBlock (h : readBlock cs = .ok l) : 3 ≤ l.text.length := by
  fun_induction readBlock cs generalizing l with
  | case1 => cases h
  | case2 s =>
      obtain rfl := Except.ok.inj h
      exact Nat.le_refl 3
  | case3 s ih =>
      obtain ⟨l', -, -, ht, -⟩ := exists_of_map_grow h
      rw [ht, List.length_append]
      exact Nat.le_add_right_of_le (by decide)
  | case4 c s _ _ ih =>
      obtain ⟨l', hl', -, ht, -⟩ := exists_of_map_grow h
      rw [ht, List.length_append]
      exact Nat.le_add_left_of_le (ih hl')

theorem prefix_of_readBlock (h : readBlock cs = .ok l) {xs : List Char} (hp : xs <+: l.text ++ r)
    (hx : xs.length ≤ 3) : xs <+: cs := by
  have ht : xs <+: l.text :=
    List.prefix_of_prefix_length_le hp (List.prefix_append _ _) (Nat.le_trans hx (three_le_of_readBlock h))
  rw [← readBlock_append cs h]
  exact ht.trans (List.prefix_append _ _)

theorem readBlock_swap (h : readBlock cs = .ok l) (r : List Char) :
    readBlock (l.text ++ r) = .ok ⟨l.value, l.text, r⟩ := by
  fun_induction readBlock cs generalizing l with
  | case1 => cases h
  | case2 s =>
      obtain rfl := Except.ok.inj h
      rfl
  | case3 s ih =>
      obtain ⟨l', hl', hv, ht, -⟩ := exists_of_map_grow h
      rw [ht, hv]
      exact map_grow_eq_ok (ih hl') _ _
  | case4 c s hq hb ih =>
      obtain ⟨l', hl', hv, ht, -⟩ := exists_of_map_grow h
      rw [ht, hv]
      refine (readBlock_plain ?_ ?_).trans (map_grow_eq_ok (ih hl') _ _)
      · intro hp
        obtain ⟨rfl, htail⟩ := List.cons_prefix_cons.mp hp
        obtain ⟨s', rfl⟩ := prefix_of_readBlock hl' htail (Nat.le_succ 2)
        exact hq s' rfl rfl
      · intro hp
        obtain ⟨rfl, htail⟩ := List.cons_prefix_cons.mp hp
        obtain ⟨s', rfl⟩ := prefix_of_readBlock hl' htail (Nat.le_refl 3)
        exact hb s' rfl rfl

end StringLiteral

namespace Token

variable {c : Char} {cs r r' t : List Char} {k : TokenKind}

theorem scanString_swap (h : scanString ('"' :: cs) = .ok ⟨k, t, r⟩) :
    k.Stops r.head? ∧ ∀ r', k.Stops r'.head? → ∃ cs', t = '"' :: cs' ∧
      scanString ('"' :: (cs' ++ r')) = .ok ⟨k, t, r'⟩ := by
  unfold scanString at h
  split at h
  · rename_i s heq
    obtain ⟨l, hl, he⟩ := exists_of_map_eq_ok h
    obtain ⟨rfl, rfl, rfl⟩ := Lexeme.mk.inj he
    refine ⟨trivial, fun r' _ => ⟨_, rfl, ?_⟩⟩
    rw [List.cons_append, List.cons_append, scanString, StringLiteral.readBlock_swap hl]
    rfl
  · rename_i c s htriple heq
    obtain ⟨rfl, rfl⟩ := List.cons.inj heq
    obtain ⟨l, hl, he⟩ := exists_of_map_eq_ok h
    obtain ⟨rfl, rfl, rfl⟩ := Lexeme.mk.inj he
    have happ := StringLiteral.read_append _ hl
    -- the empty string must not go on with a third quote
    have hempty : String.ofList l.value = "" ↔ l.value = [] := by simp
    constructor
    · intro hv hq
      rcases StringLiteral.text_of_read hl with ⟨-, ht⟩ | ⟨hne, -⟩
      · obtain ⟨s, hs⟩ := List.head?_eq_some_iff.mp hq
        rw [ht, hs] at happ
        exact htriple s rfl happ.symm
      · exact hne (hempty.mp hv)
    · intro r' hr'
      refine ⟨l.text, rfl, ?_⟩
      rw [scanString, StringLiteral.read_swap hl]
      · rfl
      · intro s _ hs
        rcases StringLiteral.text_of_read hl with ⟨hv, ht⟩ | ⟨-, x, xs, ht, hx⟩
        · rw [ht] at hs
          exact hr' (hempty.mpr hv) (congrArg List.head? (List.cons.inj hs).2)
        · rw [ht] at hs
          exact hx (List.cons.inj hs).1
  · exact nomatch h

theorem ofNumeral_eq_ok_iff {n : Numeral} : ofNumeral n = .ok k ↔
    n.isFloat = true ∧ k = .float n.floatValue ∨
      n.isFloat = false ∧ -Int.pow 2 63 ≤ n.intValue ∧ n.intValue < Int.pow 2 63 ∧
        k = .int n.intValue := by
  unfold ofNumeral
  constructor
  · intro h
    split at h
    · rename_i hf
      exact Or.inl ⟨hf, (Except.ok.inj h).symm⟩
    · rename_i hf
      split at h
      · cases h
      · rename_i hmin
        split at h
        · cases h
        · rename_i hmax
          exact Or.inr ⟨Bool.eq_false_iff.mpr hf, Int.not_lt.mp hmin, Int.not_le.mp hmax,
            (Except.ok.inj h).symm⟩
  · rintro (⟨hf, rfl⟩ | ⟨hf, hmin, hmax, rfl⟩)
    · rw [if_pos hf]
    · rw [hf, if_neg Bool.false_ne_true, if_neg (Int.not_lt.mpr hmin), if_neg (Int.not_le.mpr hmax)]

theorem scanNumber_swap (h : scanNumber cs = .ok ⟨k, t, r⟩) :
    k.Stops r.head? ∧ ∀ r', k.Stops r'.head? → scanNumber (t ++ r') = .ok ⟨k, t, r'⟩ := by
  obtain ⟨n, hr, hk, rfl⟩ := scanNumber_eq_ok_iff.mp h
  obtain ⟨-, hn, hend⟩ := Numeral.read_eq_ok_iff.mp hr
  have hstops (next : Option Char) : k.Stops next ↔ Numeral.Ends next := by
    rcases ofNumeral_eq_ok_iff.mp hk with ⟨-, rfl⟩ | ⟨-, -, -, rfl⟩ <;> exact Iff.rfl
  refine ⟨(hstops _).mpr hend, fun r' hr' => scanNumber_eq_ok_iff.mpr ⟨n, ?_, hk, rfl⟩⟩
  exact Numeral.read_eq_ok_iff.mpr ⟨rfl, hn, (hstops _).mp hr'⟩

theorem scan_swap (h : scan c cs = .ok ⟨k, t, r⟩) :
    k.Stops r.head? ∧ ∀ r', k.Stops r'.head? → ∃ cs', t = c :: cs' ∧
      scan c (cs' ++ r') = .ok ⟨k, t, r'⟩ := by
  have happ : t ++ r = c :: cs ∧ t ≠ [] := scan_append h
  obtain ⟨x, t', rfl⟩ := List.exists_cons_of_ne_nil happ.2
  obtain ⟨rfl, happ⟩ := List.cons.inj happ.1
  unfold scan at h ⊢
  split at h
  · rename_i p hp
    obtain ⟨rfl, ht, rfl⟩ := Lexeme.mk.inj (Except.ok.inj h)
    obtain rfl := (List.cons.inj ht).2
    exact ⟨trivial, fun r' _ => ⟨[], rfl, by simp⟩⟩
  · split at h
    · rename_i hp hq
      obtain rfl := hq
      obtain ⟨hstop, hswap⟩ := scanString_swap h
      refine ⟨hstop, fun r' hr' => ?_⟩
      obtain ⟨cs', ht, hscan⟩ := hswap r' hr'
      exact ⟨cs', ht, by simpa [hp] using hscan⟩
    · split at h
      · rename_i hp hq hd
        obtain ⟨hstop, hswap⟩ := scanNumber_swap h
        exact ⟨hstop, fun r' hr' => ⟨t', rfl, by simpa [hp, hq, hd] using hswap r' hr'⟩⟩
      · split at h
        · rename_i hp hq hd hn
          obtain ⟨rfl, ht, rfl⟩ := Lexeme.mk.inj (Except.ok.inj h)
          refine ⟨head?_dropWhile_stop _ _, fun r' hr' => ⟨t', rfl, ?_⟩⟩
          have hall : ∀ y ∈ t', isNameChar y = true := by
            rw [← (List.cons.inj ht).2]
            exact List.all_eq_true.mp List.all_takeWhile
          have ht' : cs.takeWhile isNameChar = t' := (List.cons.inj ht).2
          simp only [hq, hd, hn, if_false, if_true]
          rw [takeWhile_append_stop hall hr', dropWhile_append_stop hall hr', ht']
        · exact nomatch h

def Spells (t : List Char) (k : TokenKind) : Prop :=
  ∃ c cs, t = c :: cs ∧ scan c cs = .ok ⟨k, t, []⟩

theorem scan_eq_ok_iff :
    scan c cs = .ok ⟨k, t, r⟩ ↔ c :: cs = t ++ r ∧ Spells t k ∧ k.Stops r.head? := by
  constructor
  · intro h
    obtain ⟨hstop, hswap⟩ := scan_swap h
    obtain ⟨cs', rfl, hscan⟩ := hswap [] k.stops_none
    rw [List.append_nil] at hscan
    exact ⟨(scan_append h).1.symm, ⟨c, cs', rfl, hscan⟩, hstop⟩
  · rintro ⟨happ, ⟨x, xs, rfl, hscan⟩, hstop⟩
    obtain ⟨rfl, rfl⟩ := List.cons.inj happ
    obtain ⟨cs', ht, hscan'⟩ := (scan_swap hscan).2 r hstop
    obtain rfl := (List.cons.inj ht).2
    exact hscan'

end Token

end SchemaGraph
