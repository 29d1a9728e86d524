import Mathlib.Data.List.Basic
import SchemaGraph.Token.Lexer

namespace SchemaGraph

theorem takeWhile_append_stop {α : Type} {p : α → Bool} {xs ys : List α} (hx : ∀ a ∈ xs, p a = true)
    (hy : ∀ a ∈ ys.head?, p a = false) : (xs ++ ys).takeWhile p = xs := by
  rw [List.takeWhile_append_of_pos hx]
  cases ys with
  | nil => simp
  | cons y ys => simp [hy y rfl]

theorem dropWhile_append_stop {α : Type} {p : α → Bool} {xs ys : List α} (hx : ∀ a ∈ xs, p a = true)
    (hy : ∀ a ∈ ys.head?, p a = false) : (xs ++ ys).dropWhile p = ys := by
  rw [List.dropWhile_append_of_pos hx]
  cases ys with
  | nil => rfl
  | cons y ys => simp [hy y rfl]

theorem head?_dropWhile_stop {α : Type} (p : α → Bool) (xs : List α) :
    ∀ a ∈ (xs.dropWhile p).head?, p a = false := by
  intro a ha
  have h := List.head?_dropWhile_not p xs
  rwa [Option.mem_def.mp ha] at h

namespace Numeral

def IsDigits (cs : List Char) : Prop := cs ≠ [] ∧ ∀ c ∈ cs, c.isDigit = true

def IsWhole (cs : List Char) : Prop := cs = ['0'] ∨ IsDigits cs ∧ cs.head? ≠ some '0'

structure Valid (n : Numeral) : Prop where
  whole : IsWhole n.whole
  fraction : ∀ ds ∈ n.fraction, IsDigits ds
  exponent : ∀ e ∈ n.exponent,
    (e.mark = 'e' ∨ e.mark = 'E') ∧ (∀ c ∈ e.sign, c = '+' ∨ c = '-') ∧ IsDigits e.digits

def Stops (cs : List Char) : Prop := ∀ c ∈ cs.head?, c.isDigit = false

def Ends (next : Option Char) : Prop := ∀ c ∈ next, isNameChar c = false ∧ c ≠ '.'

theorem readDigits_eq_ok_iff {cs ds r : List Char} :
    readDigits cs = .ok (ds, r) ↔ cs = ds ++ r ∧ IsDigits ds ∧ Stops r := by
  constructor
  · intro h
    obtain ⟨happ, hne⟩ := readDigits_append h
    unfold readDigits at h
    split at h
    · exact nomatch h
    · obtain ⟨rfl, rfl⟩ := Prod.mk.inj (Except.ok.inj h)
      exact ⟨happ.symm, ⟨hne, List.all_eq_true.mp List.all_takeWhile⟩, head?_dropWhile_stop _ cs⟩
  · rintro ⟨rfl, ⟨hne, hd⟩, hr⟩
    rw [readDigits, takeWhile_append_stop hd hr, dropWhile_append_stop hd hr]
    cases ds with
    | nil => exact absurd rfl hne
    | cons c ds => rfl

theorem readWhole_eq_ok_iff {cs ds r : List Char} :
    readWhole cs = .ok (ds, r) ↔ cs = ds ++ r ∧ IsWhole ds ∧ Stops r := by
  unfold readWhole
  split
  · rename_i s
    constructor
    · intro h
      split at h
      · exact nomatch h
      · rename_i hs
        obtain ⟨rfl, rfl⟩ := Prod.mk.inj (Except.ok.inj h)
        refine ⟨rfl, Or.inl rfl, fun c hc => ?_⟩
        rw [Option.mem_def.mp hc] at hs
        simpa using hs
    · rintro ⟨happ, hw, hr⟩
      rcases hw with rfl | ⟨⟨hne, hd⟩, hz⟩
      · obtain rfl : s = r := by simpa using happ
        rw [if_neg]
        cases hc : s.head? with
        | none => simp
        | some c => simp [hr c hc]
      · cases ds with
        | nil => exact absurd rfl hne
        | cons c ds =>
            rw [List.cons_append, List.cons.injEq] at happ
            exact absurd (congrArg some happ.1.symm) hz
  · rename_i hz
    rw [readDigits_eq_ok_iff]
    constructor
    · rintro ⟨rfl, hd, hr⟩
      refine ⟨rfl, Or.inr ⟨hd, ?_⟩, hr⟩
      cases ds with
      | nil => exact absurd rfl hd.1
      | cons c ds => exact fun hc => hz (ds ++ r) (by rw [Option.some.inj hc]; rfl)
    · rintro ⟨rfl, rfl | ⟨hd, -⟩, hr⟩
      · exact absurd rfl (hz r)
      · exact ⟨rfl, hd, hr⟩

theorem readFraction_eq_ok_iff {cs r : List Char} {f : Option (List Char)} :
    readFraction cs = .ok (f, r) ↔
      (f = none ∧ cs = r ∧ r.head? ≠ some '.') ∨
        ∃ ds, f = some ds ∧ cs = '.' :: (ds ++ r) ∧ IsDigits ds ∧ Stops r := by
  unfold readFraction
  split
  · rename_i s
    constructor
    · intro h
      obtain ⟨⟨ds, r'⟩, hd, h⟩ := exists_of_map_eq_ok h
      obtain ⟨rfl, rfl⟩ := Prod.mk.inj h
      obtain ⟨rfl, hds⟩ := readDigits_eq_ok_iff.mp hd
      exact Or.inr ⟨ds, rfl, rfl, hds⟩
    · rintro (⟨-, rfl, h⟩ | ⟨ds, rfl, hs, hds⟩)
      · exact absurd rfl h
      · obtain ⟨-, rfl⟩ := List.cons.inj hs
        rw [readDigits_eq_ok_iff.mpr ⟨rfl, hds⟩]
        rfl
  · rename_i hp
    constructor
    · intro h
      obtain ⟨rfl, rfl⟩ := Prod.mk.inj (Except.ok.inj h)
      refine Or.inl ⟨rfl, rfl, fun hc => ?_⟩
      obtain ⟨s, rfl⟩ := List.head?_eq_some_iff.mp hc
      exact hp s rfl
    · rintro (⟨rfl, rfl, -⟩ | ⟨ds, -, rfl, -⟩)
      · rfl
      · exact absurd rfl (hp _)

theorem readExponentSign_eq {sign : Option Char} {r : List Char}
    (hs : ∀ c ∈ sign, c = '+' ∨ c = '-') (hr : sign = none → ∀ c ∈ r.head?, c.isDigit = true) :
    readExponentSign (sign.toList ++ r) = (sign, r) := by
  cases sign with
  | some c => rcases hs c rfl with rfl | rfl <;> rfl
  | none =>
      cases r with
      | nil => rfl
      | cons c r =>
          have hc := hr rfl c rfl
          unfold readExponentSign
          split
          · rename_i h
            obtain ⟨rfl, -⟩ := List.cons.inj h
            exact absurd hc (by decide)
          · rename_i h
            obtain ⟨rfl, -⟩ := List.cons.inj h
            exact absurd hc (by decide)
          · rfl

theorem sign_of_readExponentSign (cs : List Char) :
    ∀ c ∈ (readExponentSign cs).1, c = '+' ∨ c = '-' := by
  unfold readExponentSign
  split <;> simp

theorem readExponent_eq_ok_iff {cs r : List Char} {e : Option Exponent} :
    readExponent cs = .ok (e, r) ↔
      (e = none ∧ cs = r ∧ ∀ c ∈ r.head?, ¬(c = 'e' ∨ c = 'E')) ∨
        ∃ x, e = some x ∧ cs = x.text ++ r ∧ (x.mark = 'e' ∨ x.mark = 'E') ∧
          (∀ c ∈ x.sign, c = '+' ∨ c = '-') ∧ IsDigits x.digits ∧ Stops r := by
  cases cs with
  | nil =>
      constructor
      · intro h
        obtain ⟨rfl, rfl⟩ := Prod.mk.inj (Except.ok.inj h)
        exact Or.inl ⟨rfl, rfl, nofun⟩
      · rintro (⟨rfl, rfl, -⟩ | ⟨x, -, h, -⟩)
        · rfl
        · exact nomatch h
  | cons c s =>
      by_cases hc : c = 'e' ∨ c = 'E'
      · rw [readExponent, if_pos hc]
        constructor
        · intro h
          have hs := readExponentSign_append s
          have hsign := sign_of_readExponentSign s
          generalize readExponentSign s = p at h hs hsign
          obtain ⟨sign, t⟩ := p
          obtain ⟨⟨ds, r'⟩, hd, h⟩ := exists_of_map_eq_ok h
          obtain ⟨rfl, rfl⟩ := Prod.mk.inj h
          obtain ⟨rfl, hds, hr⟩ := readDigits_eq_ok_iff.mp hd
          refine Or.inr ⟨_, rfl, ?_, hc, hsign, hds, hr⟩
          rw [← hs, ← List.append_assoc]
          rfl
        · rintro (⟨-, rfl, h⟩ | ⟨⟨mark, sign, ds⟩, rfl, hs, -, hsign, hds, hr⟩)
          · exact absurd hc (h c rfl)
          · obtain ⟨rfl, rfl⟩ := List.cons.inj hs
            have hfirst : sign = none → ∀ x ∈ (ds ++ r).head?, x.isDigit = true := by
              intro _ x hx
              rw [List.head?_append_of_ne_nil _ hds.1] at hx
              exact hds.2 x (List.mem_of_mem_head? hx)
            have happ : (sign.toList ++ ds).append r = sign.toList ++ (ds ++ r) :=
              List.append_assoc _ _ _
            rw [happ, readExponentSign_eq hsign hfirst]
            dsimp only
            rw [readDigits_eq_ok_iff.mpr ⟨rfl, hds, hr⟩]
            rfl
      · rw [readExponent, if_neg hc]
        constructor
        · intro h
          obtain ⟨rfl, rfl⟩ := Prod.mk.inj (Except.ok.inj h)
          refine Or.inl ⟨rfl, rfl, fun x hx => ?_⟩
          rwa [← Option.some.inj hx]
        · rintro (⟨rfl, rfl, -⟩ | ⟨x, rfl, h, hm, -⟩)
          · rfl
          · rw [(List.cons.inj h).1] at hc
            exact absurd hm hc

theorem endsNumber_of_ends {cs : List Char} (h : Ends cs.head?) : endsNumber cs = true := by
  cases cs with
  | nil => rfl
  | cons c cs =>
      obtain ⟨hn, hp⟩ := h c rfl
      simp only [isNameChar, Char.isAlphanum, Bool.or_eq_false_iff] at hn
      simp [endsNumber, hn, hp]

theorem ends_of_endsNumber {cs : List Char} (h : endsNumber cs = true) (hs : Stops cs) :
    Ends cs.head? := by
  intro c hc
  obtain ⟨r, rfl⟩ := List.head?_eq_some_iff.mp hc
  have hd : c.isDigit = false := hs c rfl
  simp only [endsNumber, Bool.not_eq_true', Bool.or_eq_false_iff, beq_eq_false_iff_ne] at h
  obtain ⟨⟨hu, ha⟩, hp⟩ := h
  exact ⟨by simp [isNameChar, Char.isAlphanum, hu, ha, hd], hp⟩

theorem Ends.next {cs : List Char} (h : Ends cs.head?) :
    Stops cs ∧ cs.head? ≠ some '.' ∧ ∀ c ∈ cs.head?, ¬(c = 'e' ∨ c = 'E') := by
  refine ⟨fun c hc => ?_, fun hc => (h '.' hc).2 rfl, fun c hc he => ?_⟩
  · have hn := (h c hc).1
    simp only [isNameChar, Char.isAlphanum, Bool.or_eq_false_iff] at hn
    exact hn.2.2
  · have hn := (h c hc).1
    rcases he with rfl | rfl <;> exact absurd hn (by decide)

theorem readSign_text {n : Numeral} (hn : n.Valid) (r : List Char) :
    readSign (n.text ++ r) = (n.negative, n.whole ++
      (n.fraction.elim [] ('.' :: ·) ++ (n.exponent.elim [] Exponent.text ++ r))) := by
  obtain ⟨negative, whole, fraction, exponent⟩ := n
  cases negative with
  | true => simp [text, readSign]
  | false =>
      have hw : whole.head? ≠ some '-' := by
        intro hc
        rcases hn.whole with rfl | ⟨⟨-, hd⟩, -⟩
        · exact absurd hc (by decide)
        · exact absurd (hd '-' (List.mem_of_mem_head? hc)) (by decide)
      have hne : whole ≠ [] := by
        rcases hn.whole with rfl | ⟨⟨h, -⟩, -⟩
        · exact List.cons_ne_nil _ _
        · exact h
      obtain ⟨c, ds, rfl⟩ := List.exists_cons_of_ne_nil hne
      unfold readSign text
      split
      · rename_i h
        obtain ⟨rfl, -⟩ := List.cons.inj h
        exact absurd rfl hw
      · simp

theorem valid_of_read {cs r : List Char} {n : Numeral} (h : read cs = .ok (n, r)) :
    n.Valid ∧ Ends r.head? := by
  obtain ⟨-, s, t, hw, hf, he, hend⟩ := read_eq_ok_parts.mp h
  obtain ⟨-, hwhole, hs⟩ := readWhole_eq_ok_iff.mp hw
  have ht : Stops t ∧ ∀ ds ∈ n.fraction, IsDigits ds := by
    rcases readFraction_eq_ok_iff.mp hf with ⟨hnone, rfl, -⟩ | ⟨ds, hsome, -, hd, hr⟩
    · exact ⟨hs, hnone ▸ nofun⟩
    · exact ⟨hr, fun x hx => Option.some.inj (hsome.symm.trans hx) ▸ hd⟩
  rcases readExponent_eq_ok_iff.mp he with ⟨hnone, rfl, -⟩ | ⟨x, hsome, -, hm, hsign, hd, hr⟩
  · exact ⟨⟨hwhole, ht.2, hnone ▸ nofun⟩, ends_of_endsNumber hend ht.1⟩
  · refine ⟨⟨hwhole, ht.2, fun y hy => ?_⟩, ends_of_endsNumber hend hr⟩
    obtain rfl := Option.some.inj (hsome.symm.trans hy)
    exact ⟨hm, hsign, hd⟩

namespace Valid

variable {n : Numeral} {r : List Char}

theorem readExponent (hn : n.Valid) (hr : Ends r.head?) :
    readExponent (n.exponent.elim [] Exponent.text ++ r) = .ok (n.exponent, r) := by
  obtain ⟨hdigit, -, hmark⟩ := hr.next
  refine readExponent_eq_ok_iff.mpr ?_
  cases he : n.exponent with
  | none => exact Or.inl ⟨rfl, rfl, hmark⟩
  | some x =>
      obtain ⟨hm, hsign, hd⟩ := hn.exponent x he
      exact Or.inr ⟨x, rfl, rfl, hm, hsign, hd, hdigit⟩

theorem head_exponent (hn : n.Valid) (hr : Ends r.head?) :
    ∀ c ∈ (n.exponent.elim [] Exponent.text ++ r).head?, c.isDigit = false ∧ c ≠ '.' := by
  obtain ⟨hdigit, hpoint, -⟩ := hr.next
  intro c hc
  cases he : n.exponent with
  | none =>
      rw [he] at hc
      exact ⟨hdigit c hc, fun hp => hpoint (hp ▸ hc)⟩
  | some x =>
      rw [he] at hc
      obtain rfl := Option.some.inj hc
      rcases (hn.exponent x he).1 with hm | hm <;> rw [hm] <;> decide

theorem readFraction (hn : n.Valid) (hr : Ends r.head?) :
    readFraction (n.fraction.elim [] ('.' :: ·) ++ (n.exponent.elim [] Exponent.text ++ r)) =
      .ok (n.fraction, n.exponent.elim [] Exponent.text ++ r) := by
  have hhead := hn.head_exponent hr
  refine readFraction_eq_ok_iff.mpr ?_
  cases hf : n.fraction with
  | none => exact Or.inl ⟨rfl, rfl, fun hc => (hhead '.' hc).2 rfl⟩
  | some ds => exact Or.inr ⟨ds, rfl, rfl, hn.fraction ds hf, fun c hc => (hhead c hc).1⟩

theorem stops_fraction (hn : n.Valid) (hr : Ends r.head?) :
    Stops (n.fraction.elim [] ('.' :: ·) ++ (n.exponent.elim [] Exponent.text ++ r)) := by
  intro c hc
  cases hf : n.fraction with
  | none =>
      rw [hf] at hc
      exact (hn.head_exponent hr c hc).1
  | some ds =>
      rw [hf] at hc
      obtain rfl := Option.some.inj hc
      rfl

end Valid

theorem read_eq_ok_iff {cs r : List Char} {n : Numeral} :
    read cs = .ok (n, r) ↔ cs = n.text ++ r ∧ n.Valid ∧ Ends r.head? := by
  constructor
  · exact fun h => ⟨(read_append h).1.symm, valid_of_read h⟩
  · rintro ⟨rfl, hn, hr⟩
    refine read_eq_ok_parts.mpr ?_
    rw [readSign_text hn]
    exact ⟨rfl, _, _, readWhole_eq_ok_iff.mpr ⟨rfl, hn.whole, hn.stops_fraction hr⟩,
      hn.readFraction hr, hn.readExponent hr, endsNumber_of_ends hr⟩

end Numeral

end SchemaGraph
