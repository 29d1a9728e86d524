import Mathlib.Data.List.Infix
import SchemaGraph.Proofs.Foresight

namespace SchemaGraph

open Text (Span Position)

def lastSpan (last : Span) (ts : List Token) : Span := ts.foldl (fun _ t => t.span) last

def spanning : List Token → Span
  | [] => .nowhere
  | t :: ts => t.span.through (lastSpan t.span ts)

theorem lastSpan_append (last : Span) (us vs : List Token) :
    lastSpan last (us ++ vs) = lastSpan (lastSpan last us) vs :=
  List.foldl_append

namespace Parser

variable {α β : Type} {p : Parser α} {f : α → Parser β} {c d : Cursor} {a : α} {b : β}
  {ts us vs rest : List Token}

def Spends (p : Parser α) (ts rest : List Token) (a : α) : Prop :=
  ∀ zs, zs <+: rest → ∀ last finish,
    p ⟨ts ++ zs, last, finish⟩ = .ok (a, ⟨zs, lastSpan last ts, finish⟩)

def Gives (p : Parser α) (ts : List Token) (a : α) : Prop :=
  ∀ last finish, p ⟨ts, last, finish⟩ = .ok (a, ⟨[], lastSpan last ts, finish⟩)

theorem Spends.gives (h : Spends p ts rest a) : p.Gives ts a := fun last finish => by
  simpa using h [] (List.nil_prefix) last finish

theorem Spends.bind (hp : Spends p us (vs ++ rest) a) (hf : Spends (f a) vs rest b) :
    Spends (p >>= f) (us ++ vs) rest b := by
  intro zs hzs last finish
  have hprefix : vs ++ zs <+: vs ++ rest := (List.prefix_append_right_inj vs).mpr hzs
  rw [List.append_assoc, bind_eq (hp _ hprefix last finish), hf zs hzs, lastSpan_append]

def TracksAt (R : List Token → α → Prop) (p : Parser α) (c : Cursor) : Prop :=
  ∀ a d, p c = .ok (a, d) → ∃ ts, c.rest = ts ++ d.rest ∧ Spends p ts d.rest a ∧ R ts a

variable {R R' : List Token → α → Prop} {S : α → List Token → β → Prop} {Q : List Token → β → Prop}

theorem TracksAt.mono (h : TracksAt R p c) (hR : ∀ ts a, ts <+: c.rest → R ts a → R' ts a) :
    TracksAt R' p c := by
  intro a d hc
  obtain ⟨ts, hts, hspends, hr⟩ := h a d hc
  exact ⟨ts, hts, hspends, hR ts a ⟨d.rest, hts.symm⟩ hr⟩

theorem TracksAt.gives (h : TracksAt R p c) : TracksAt (fun ts a => p.Gives ts a ∧ R ts a) p c := by
  intro a d hc
  obtain ⟨ts, hts, hspends, hr⟩ := h a d hc
  exact ⟨ts, hts, hspends, hspends.gives, hr⟩

theorem TracksAt.of_gives {last : Span} {finish : Position} (h : TracksAt R p ⟨ts, last, finish⟩)
    (hp : p.Gives ts a) : R ts a := by
  obtain ⟨us, hus, -, hr⟩ := h a _ (hp last finish)
  obtain rfl : ts = us := by simpa using hus
  exact hr

theorem tracksAt_pure (h : R [] a) : TracksAt R (Pure.pure a) c := by
  intro b d hc
  obtain ⟨rfl, rfl⟩ := Prod.mk.inj (Except.ok.inj hc)
  exact ⟨[], rfl, fun _ _ _ _ => rfl, h⟩

theorem tracksAt_accept {wanted : Expectation} {g : TokenKind → Option α}
    (h : ∀ t a, g t.kind = some a → R [t] a) : TracksAt R (accept wanted g) c := by
  intro a d hc
  obtain ⟨t, ts, hr, hg, rfl⟩ := accept_eq_ok hc
  refine ⟨[t], hr, fun zs _ last finish => ?_, h t a hg⟩
  simp [accept, hg, lastSpan]

theorem TracksAt.bind (hp : TracksAt R p c)
    (hf : ∀ a d, p c = .ok (a, d) → d.rest <:+ c.rest → TracksAt (S a) (f a) d)
    (hQ : ∀ us vs a b, R us a → S a vs b → Q (us ++ vs) b) : TracksAt Q (p >>= f) c := by
  intro b e hc
  obtain ⟨a, d, hd, hb⟩ := bind_eq_ok hc
  obtain ⟨us, hus, hspends, hr⟩ := hp a d hd
  obtain ⟨vs, hvs, hspends', hs⟩ := hf a d hd ⟨us, hus.symm⟩ b e hb
  refine ⟨us ++ vs, ?_, (hvs ▸ hspends).bind hspends', hQ us vs a b hr hs⟩
  rw [hus, hvs, List.append_assoc]

theorem TracksAt.located {p : Parser (Span → α)} {R : Span → List Token → α → Prop}
    (h : ∀ span, TracksAt (fun ts g => R span ts (g span)) p c) (hp : Consumes p) :
    TracksAt (fun ts a => ts ≠ [] ∧ R (spanning ts) ts a) (located p) c := by
  intro a d hc
  obtain ⟨g, hg, rfl⟩ := located_eq_ok hc
  obtain ⟨ts, hts, hspends, hr⟩ := h (c.headSpan.through d.last) g d hg
  have hlt := hp c g d hg
  have hd : d = ⟨d.rest, lastSpan c.last ts, c.finish⟩ := by
    have hrun := hspends d.rest (List.prefix_refl _) c.last c.finish
    rw [← hts] at hrun
    exact (Prod.mk.inj (Except.ok.inj (hg.symm.trans hrun))).2
  cases ts with
  | nil => simp [hts] at hlt
  | cons t ts =>
      have hhead (zs : List Token) (last : Span) (finish : Position) :
          (Cursor.mk (t :: ts ++ zs) last finish).headSpan = t.span := rfl
      -- the span that is saved before and closed after is that of the tokens between
      have hspan : c.headSpan.through d.last = spanning (t :: ts) := by
        rw [hd, Cursor.headSpan, hts]
        rfl
      rw [hspan] at hr ⊢
      refine ⟨t :: ts, hts, fun zs hzs last finish => ?_, List.cons_ne_nil _ _, hr⟩
      rw [Parser.located, hspends zs hzs last finish]
      rfl

theorem ahead_eq_false {test : TokenKind → Bool} {zs : List Token} {last : Span} {finish : Position}
    (hc : ahead test c = false) (h : zs <+: c.rest) : ahead test ⟨zs, last, finish⟩ = false := by
  obtain ⟨more, hmore⟩ := h
  cases zs with
  | nil => rfl
  | cons t zs =>
      rw [← hc, ahead, ahead, Cursor.head?, Cursor.head?, ← hmore]
      rfl

theorem TracksAt.branch {test : TokenKind → Bool} {q : Parser α}
    (hp : ahead test c = true → TracksAt R p c) (hcons : Consumes p)
    (hq : ahead test c = false → TracksAt R q c) : TracksAt R (branch test p q) c := by
  intro a d hc
  cases hahead : ahead test c with
  | true =>
      rw [Parser.branch, if_pos hahead] at hc
      obtain ⟨ts, hts, hspends, hr⟩ := hp hahead a d hc
      refine ⟨ts, hts, fun zs hzs last finish => ?_, hr⟩
      have hlt := hcons c a d hc
      cases ts with
      | nil => simp [hts] at hlt
      | cons t ts =>
          have hstill : ahead test ⟨t :: ts ++ zs, last, finish⟩ = true := by
            rw [← hahead, ahead, ahead, Cursor.head?, Cursor.head?, hts]
            rfl
          rw [Parser.branch, if_pos hstill, hspends zs hzs]
  | false =>
      rw [Parser.branch, if_neg (by simp [hahead])] at hc
      obtain ⟨ts, hts, hspends, hr⟩ := hq hahead a d hc
      refine ⟨ts, hts, fun zs hzs last finish => ?_, hr⟩
      have hprefix : ts ++ zs <+: c.rest := hts ▸ (List.prefix_append_right_inj ts).mpr hzs
      rw [Parser.branch, if_neg (by simp [ahead_eq_false hahead hprefix]), hspends zs hzs]

theorem TracksAt.whenPunct {mark : Punct} (hp : TracksAt R p c) (hcons : Consumes p) (h : R [] a) :
    TracksAt R (whenPunct mark p a) c :=
  .branch (fun _ => hp) hcons fun _ => tracksAt_pure h

inductive Rows (R : List Token → α → Prop) : List Token → List α → Prop
  | nil : Rows R [] []
  | cons {us vs : List Token} {a : α} {as : List α} :
      R us a → Rows R vs as → Rows R (us ++ vs) (a :: as)

section Items

variable {item : Parser α} {hi : Consumes item}

theorem TracksAt.loop {test : TokenKind → Bool}
    (h : ∀ d, d.rest <:+ c.rest → TracksAt R item d) :
    TracksAt (Rows R) (loop (ahead test) item hi) c := by
  induction hn : c.rest.length using Nat.strongRecOn generalizing c with
  | _ n ih =>
      rw [loop_eq_branch]
      have hmore : Consumes (do let a ← item; let as ← Parser.loop (ahead test) item hi; return a :: as) :=
        hi.bind fun _ => (keeps_loop _ _ _).bind fun _ => keeps_pure _
      refine .branch (fun _ => ?_) hmore fun _ => tracksAt_pure .nil
      refine (h c (List.suffix_refl _)).bind (S := fun a vs as => ∃ as', as = a :: as' ∧ Rows R vs as')
        (fun a d hd hsuffix => ?_) ?_
      · have hlt := hi c a d hd
        refine (ih _ (hn ▸ hlt) (fun e he => h e (he.trans hsuffix)) rfl).bind
          (S := fun as vs bs => vs = [] ∧ bs = a :: as) (fun as e _ _ => tracksAt_pure ⟨rfl, rfl⟩) ?_
        rintro us vs as bs hrows ⟨rfl, rfl⟩
        exact ⟨as, rfl, (List.append_nil us).symm ▸ hrows⟩
      · rintro us vs a as hr ⟨as', rfl, hrows⟩
        exact .cons hr hrows

theorem TracksAt.closed {right : Punct} {g : List α → β}
    (h : ∀ d, d.rest <:+ c.rest → TracksAt R item d) :
    TracksAt (fun ts b => ∃ us t as, ts = us ++ [t] ∧ b = g as ∧ Rows R us as)
      (closed right item hi g) c := by
  induction hn : c.rest.length using Nat.strongRecOn generalizing c g with
  | _ n ih =>
      rw [closed_eq_branch]
      refine .branch (fun _ => ?_) ((consumes_punct right).bind fun _ => keeps_pure _) fun _ => ?_
      · refine (tracksAt_accept (R := fun us _ => ∃ t, us = [t]) fun t _ _ => ⟨t, rfl⟩).bind
          (S := fun _ vs b => vs = [] ∧ b = g []) (fun _ d _ _ => tracksAt_pure ⟨rfl, rfl⟩) ?_
        rintro us vs _ b ⟨t, rfl⟩ ⟨rfl, rfl⟩
        exact ⟨[], t, [], rfl, rfl, .nil⟩
      · refine (h c (List.suffix_refl _)).bind (fun a d hd hsuffix =>
          ih _ (hn ▸ hi c a d hd) (fun e he => h e (he.trans hsuffix)) rfl) ?_
        rintro us vs a b hr ⟨us', t, as, rfl, rfl, hrows⟩
        exact ⟨us ++ us', t, a :: as, by rw [List.append_assoc], rfl, .cons hr hrows⟩

end Items

end Parser

end SchemaGraph
