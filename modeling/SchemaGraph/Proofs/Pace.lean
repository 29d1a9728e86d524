import SchemaGraph.Proofs.Counted
import SchemaGraph.Proofs.Segment

namespace SchemaGraph

open Text (Span)

def Tokens.cursorAt (ts : Tokens) (pos : Nat) : Cursor :=
  ⟨ts.items.drop pos, lastSpan .nowhere (ts.items.take pos), ts.finish⟩

structure Stand.Step (ts : Tokens) (gain : Nat) (s s' : Stand) : Prop where
  inside : s'.pos ≤ ts.items.length
  left : s'.left ≤ s.left
  pace : s.left + s.pos + gain ≤ s'.left + s'.pos

namespace Stand.Step

variable {ts : Tokens} {g g' : Nat} {s s' s'' : Stand}

theorem stay (h : s.pos ≤ ts.items.length) : Step ts 0 s s := ⟨h, Nat.le_refl _, Nat.le_refl _⟩

theorem trans (h : Step ts g s s') (h' : Step ts g' s' s'') : Step ts (g + g') s s'' := by
  refine ⟨h'.inside, h'.left.trans h.left, ?_⟩
  have := h.pace
  have := h'.pace
  omega

theorem mono (h : Step ts g s s') (hg : g' ≤ g) : Step ts g' s s' := by
  refine ⟨h.inside, h.left, ?_⟩
  have := h.pace
  omega

theorem pos_le (h : Step ts g s s') : s.pos + g ≤ s'.pos := by
  have := h.left
  have := h.pace
  omega

end Stand.Step

namespace Parser

variable {α β γ : Type}

theorem bind_assoc (p : Parser α) (f : α → Parser β) (g : β → Parser γ) :
    p >>= f >>= g = p >>= fun a => f a >>= g := by
  funext c
  simp only [Bind.bind, Parser.bind]
  cases p c <;> rfl

theorem bind_pure (p : Parser α) : p >>= Pure.pure = p := by
  funext c
  simp only [Bind.bind, Parser.bind]
  cases p c <;> rfl

theorem pure_bind (a : α) (f : α → Parser β) : (Pure.pure a : Parser α) >>= f = f a := rfl

theorem branch_bind (test : TokenKind → Bool) (p q : Parser α) (f : α → Parser β) :
    branch test p q >>= f = branch test (p >>= f) (q >>= f) := by
  funext c
  simp only [Bind.bind, Parser.bind, branch]
  cases ahead test c <;> rfl

section Lists

variable {mark left right : Punct} {item : Parser α} {hi : Consumes item}

theorem preceded_bind (f : α → Parser β) :
    preceded mark item >>= f = punct mark >>= fun _ => item >>= f :=
  bind_assoc _ _ _

theorem closed_eq_step : closed right item hi id = branch (isPunct right)
    (do
      punct right
      return [])
    (do
      let a ← item
      let as ← closed right item hi id
      return a :: as) := by
  have hbind (a : α) : closed right item hi (fun as => a :: as) =
      closed right item hi id >>= fun as => return a :: as := by
    simp only [closed, bind_assoc, pure_bind, id_eq]
  exact (closed_eq_branch id).trans (by simp only [id_eq, hbind])

theorem enclosed1_eq : enclosed1 left right item hi = (do
    punct left
    let a ← item
    let as ← closed right item hi id
    return a :: as) := by
  simp only [enclosed1, closed, bind_assoc, pure_bind, id_eq]

end Lists

end Parser

namespace Counted

variable {α β : Type} {ts : Tokens} {s s' : Stand} {b c c' g g' : Nat} {m m' : Counted α}
  {p q : Parser α}

theorem bind_eq_ok {f : α → Counted β} {a : α} (h : m ts s = .ok (a, s')) :
    (m >>= f) ts s = f a ts s' := by
  simp only [Bind.bind, Counted.bind, h]

theorem bind_eq_error {f : α → Counted β} {e : Halt} (h : m ts s = .error e) :
    (m >>= f) ts s = .error e := by
  simp only [Bind.bind, Counted.bind, h]

/-- From here the reader gives what the parser gives. It is never out of range, and out of rounds only
where more tokens are left than rounds, by `credit` at least. -/
def PacesAt (credit gain : Nat) (m : Counted α) (p : Parser α) (ts : Tokens) (s : Stand) : Prop :=
  match m ts s with
  | .ok (a, s') => p (ts.cursorAt s.pos) = .ok (a, ts.cursorAt s'.pos) ∧ s.Step ts gain s'
  | .error (.refused e) => p (ts.cursorAt s.pos) = .error e
  | .error .outOfRange => False
  | .error .outOfRounds => s.left + s.pos + credit ≤ ts.items.length

def Paces (bound credit gain : Nat) (m : Counted α) (p : Parser α) : Prop :=
  ∀ ts s, s.pos ≤ ts.items.length → s.left < bound → PacesAt credit gain m p ts s

theorem PacesAt.of_ok {a : α} (h : m ts s = .ok (a, s'))
    (hp : p (ts.cursorAt s.pos) = .ok (a, ts.cursorAt s'.pos)) (hs : s.Step ts g s') :
    PacesAt c g m p ts s := by
  rw [PacesAt, h]
  exact ⟨hp, hs⟩

theorem PacesAt.of_refused {e : SyntaxError} (h : m ts s = .error (.refused e))
    (hp : p (ts.cursorAt s.pos) = .error e) : PacesAt c g m p ts s := by
  rw [PacesAt, h]
  exact hp

theorem PacesAt.mono (h : PacesAt c g m p ts s) (hc : c' ≤ c) (hg : g' ≤ g) :
    PacesAt c' g' m p ts s := by
  unfold PacesAt at *
  split at h
  · exact ⟨h.1, h.2.mono hg⟩
  · exact h
  · exact h
  · omega

theorem PacesAt.congr (h : PacesAt c g m p ts s) (hm : m' ts s = m ts s)
    (hp : q (ts.cursorAt s.pos) = p (ts.cursorAt s.pos)) : PacesAt c g m' q ts s := by
  rwa [PacesAt, hm, hp]

theorem Paces.mono (h : Paces b (c' + c) (g' + g) m p) : Paces b c g m p :=
  fun ts s hs hb => (h ts s hs hb).mono (Nat.le_add_left c c') (Nat.le_add_left g g')

theorem Paces.below (h : Paces b c g m p) {k : Nat} (hk : k ≤ b) : Paces k c g m p :=
  fun ts s hs hb => h ts s hs (hb.trans_le hk)

theorem paces_pure (a : α) : Paces b c 0 (Pure.pure a) (Pure.pure a) :=
  fun _ _ hs _ => .of_ok rfl rfl (.stay hs)

theorem paces_halt {e : SyntaxError} : Paces b c g (halt e : Counted α) fun _ => .error e :=
  fun _ _ _ _ => .of_refused rfl rfl

theorem PacesAt.bind {f : α → Counted β} {f' : α → Parser β} {k : Nat}
    (hm : PacesAt c' g m p ts s)
    (hf : ∀ a s', s.Step ts g s' → PacesAt (c - g) (k - g) (f a) (f' a) ts s') (hc : c ≤ c') :
    PacesAt c k (m >>= f) (p >>= f') ts s := by
  unfold PacesAt at hm
  split at hm
  · rename_i a s' hok
    have hnext := hf a s' hm.2
    have hp : (p >>= f') (ts.cursorAt s.pos) = f' a (ts.cursorAt s'.pos) := Parser.bind_eq hm.1
    rw [PacesAt, bind_eq_ok hok, hp]
    unfold PacesAt at hnext
    split at hnext
    · exact ⟨hnext.1, (hm.2.trans hnext.2).mono (by omega)⟩
    · exact hnext
    · exact hnext
    · have := hm.2.pace
      omega
  · rename_i e herr
    rw [PacesAt, bind_eq_error herr]
    simp only [Bind.bind, Parser.bind, hm]
  · exact hm.elim
  · rename_i herr
    rw [PacesAt, bind_eq_error herr]
    dsimp only
    omega

theorem Paces.bind {f : α → Counted β} {f' : α → Parser β} {k : Nat}
    (hm : Paces b (c' + c) g m p) (hf : ∀ a, Paces b (c - g) (k - g) (f a) (f' a)) :
    Paces b c k (m >>= f) (p >>= f') :=
  fun ts s hs hb => (hm ts s hs hb).bind
    (fun a s' h => hf a ts s' h.inside (h.left.trans_lt hb)) (Nat.le_add_left c c')

section Tokens

variable {t : Token}

theorem rest_cursorAt (h : ts.items[s.pos]? = some t) :
    (ts.cursorAt s.pos).rest = t :: (ts.cursorAt (s.pos + 1)).rest := by
  obtain ⟨hlt, rfl⟩ := List.getElem?_eq_some_iff.mp h
  exact List.drop_eq_getElem_cons hlt

theorem cursorAt_succ (h : ts.items[s.pos]? = some t) :
    ts.cursorAt (s.pos + 1) =
      { ts.cursorAt s.pos with rest := (ts.cursorAt (s.pos + 1)).rest, last := t.span } := by
  have hlast : lastSpan .nowhere (ts.items.take (s.pos + 1)) = t.span := by
    rw [List.take_add_one, h, lastSpan_append]
    rfl
  rw [Tokens.cursorAt, hlast]
  rfl

theorem head_cursorAt (ts : Tokens) (i : Nat) :
    (ts.cursorAt i).head? = ts.items[i]?.map Token.kind := by
  rw [Cursor.head?, Tokens.cursorAt, List.head?_drop]

theorem headSpan_cursorAt (ts : Tokens) (i : Nat) :
    (ts.cursorAt i).headSpan = ts.items[i]?.elim ts.endSpan Token.span := by
  rw [← List.head?_drop]
  unfold Cursor.headSpan Tokens.cursorAt
  cases ts.items.drop i <;> rfl

theorem step_succ (h : ts.items[s.pos]? = some t) : s.Step ts 1 { s with pos := s.pos + 1 } := by
  obtain ⟨hlt, -⟩ := List.getElem?_eq_some_iff.mp h
  refine ⟨hlt, Nat.le_refl _, ?_⟩
  dsimp only
  omega

theorem peek_eq (hs : s.pos ≤ ts.items.length) : peek ts s = .ok (ts.items[s.pos]?, s) := if_pos hs

theorem headSpan_eq (hs : s.pos ≤ ts.items.length) :
    headSpan ts s = .ok ((ts.cursorAt s.pos).headSpan, s) := by
  rw [headSpan, bind_eq_ok (peek_eq hs), headSpan_cursorAt]
  rfl

theorem takenSpan_eq (hs : s.pos ≤ ts.items.length) (hpos : 0 < s.pos) :
    takenSpan ts s = .ok ((ts.cursorAt s.pos).last, s) := by
  obtain ⟨i, hi⟩ := Nat.exists_eq_add_one_of_ne_zero hpos.ne'
  have hlt : i < ts.items.length := by omega
  have hlast : (ts.cursorAt s.pos).last = ts.items[i].span := by
    rw [hi]
    exact congrArg Cursor.last (cursorAt_succ (s := ⟨i, 0⟩) (List.getElem?_eq_getElem hlt))
  have hat : tokenAt (s.pos - 1) ts s = .ok (some ts.items[i], s) := by
    have hle : s.pos - 1 ≤ ts.items.length := by omega
    rw [tokenAt, if_pos hle, hi, Nat.add_sub_cancel, List.getElem?_eq_getElem hlt]
  rw [takenSpan, bind_eq_ok hat, hlast]
  rfl

theorem advance_eq (h : ts.items[s.pos]? = some t) :
    advance ts s = .ok ((), { s with pos := s.pos + 1 }) := by
  obtain ⟨hlt, -⟩ := List.getElem?_eq_some_iff.mp h
  rw [advance, bind_eq_ok (peek_eq hlt.le), h]
  rfl

theorem refuse_eq (wanted : Expectation) (hs : s.pos ≤ ts.items.length) :
    (refuse wanted : Counted α) ts s = .error (.refused ((ts.cursorAt s.pos).fault wanted)) := by
  rw [refuse, bind_eq_ok (peek_eq hs), Cursor.fault, head_cursorAt, headSpan_cursorAt]
  rfl

end Tokens

theorem paces_take {wanted : Expectation} {f : TokenKind → Option α} :
    Paces b 2 1 (take wanted f) (Parser.accept wanted f) := by
  intro ts s hs _
  cases ht : ts.items[s.pos]? with
  | none =>
      have hrest : (ts.cursorAt s.pos).rest = [] :=
        List.drop_eq_nil_of_le (List.getElem?_eq_none_iff.mp ht)
      refine .of_refused (e := (ts.cursorAt s.pos).fault wanted) ?_ ?_
      · rw [take, bind_eq_ok (peek_eq hs), ht]
        exact refuse_eq wanted hs
      · rw [Parser.accept, hrest]
  | some t =>
      cases hf : f t.kind with
      | none =>
          refine .of_refused (e := (ts.cursorAt s.pos).fault wanted) ?_ ?_
          · rw [take, bind_eq_ok (peek_eq hs), ht, Option.bind_some, hf]
            exact refuse_eq wanted hs
          · rw [Parser.accept, rest_cursorAt ht]
            simp only [hf]
      | some a =>
          refine .of_ok (a := a) ?_ ?_ (step_succ ht)
          · rw [take, bind_eq_ok (peek_eq hs), ht, Option.bind_some, hf]
            exact bind_eq_ok (advance_eq ht)
          · rw [Parser.accept, rest_cursorAt ht, cursorAt_succ ht]
            simp only [hf]

theorem paces_expect {mark : Punct} : Paces b 2 1 (expect mark) (Parser.punct mark) := paces_take

theorem paces_expectKeyword {text : String} :
    Paces b 2 1 (expectKeyword text) (Parser.keyword text) := paces_take

theorem ahead_eq (test : TokenKind → Bool) (hs : s.pos ≤ ts.items.length) :
    ahead test ts s = .ok (Parser.ahead test (ts.cursorAt s.pos), s) := by
  rw [ahead, bind_eq_ok (peek_eq hs), Parser.ahead, head_cursorAt, Option.elim_map]
  rfl

theorem branch_eq (test : TokenKind → Bool) (hs : s.pos ≤ ts.items.length) :
    branch test m m' ts s =
      if Parser.ahead test (ts.cursorAt s.pos) then m ts s else m' ts s := by
  rw [branch, bind_eq_ok (ahead_eq test hs)]
  split <;> rfl

theorem exists_of_ahead {test : TokenKind → Bool}
    (h : Parser.ahead test (ts.cursorAt s.pos) = true) :
    ∃ t, ts.items[s.pos]? = some t ∧ test t.kind = true := by
  rw [Parser.ahead, head_cursorAt] at h
  cases ht : ts.items[s.pos]? with
  | none => simp [ht] at h
  | some t =>
      rw [ht] at h
      exact ⟨t, rfl, h⟩

theorem PacesAt.branch {test : TokenKind → Bool} (hs : s.pos ≤ ts.items.length)
    (hm : Parser.ahead test (ts.cursorAt s.pos) = true → PacesAt c g m p ts s)
    (hm' : Parser.ahead test (ts.cursorAt s.pos) = false → PacesAt c g m' q ts s) :
    PacesAt c g (branch test m m') (Parser.branch test p q) ts s := by
  cases h : Parser.ahead test (ts.cursorAt s.pos) with
  | true =>
      refine (hm h).congr ?_ ?_
      · rw [branch_eq test hs, if_pos h]
      · rw [Parser.branch, if_pos h]
  | false =>
      refine (hm' h).congr ?_ ?_
      · rw [branch_eq test hs, if_neg (by simp [h])]
      · rw [Parser.branch, if_neg (by simp [h])]

theorem Paces.branch {test : TokenKind → Bool} (hm : Paces b c g m p) (hm' : Paces b c g m' q) :
    Paces b c g (branch test m m') (Parser.branch test p q) :=
  fun ts s hs hb => .branch hs (fun _ => hm ts s hs hb) fun _ => hm' ts s hs hb

theorem Paces.onEat {test : TokenKind → Bool} {wanted : Expectation}
    (hm : Paces b (c - 1) (g - 1) m p) (hm' : Paces b c g m' q) :
    Paces b c g (onEat test m m') (Parser.branch test
      (Parser.accept wanted (fun k => if test k then some () else none) >>= fun _ => p) q) := by
  intro ts s hs hb
  refine .branch hs (fun h => ?_) fun _ => hm' ts s hs hb
  obtain ⟨t, ht, htest⟩ := exists_of_ahead h
  have hstep := step_succ ht
  have hadvance : PacesAt c 1 advance
      (Parser.accept wanted fun k => if test k then some () else none) ts s := by
    refine .of_ok (advance_eq ht) ?_ hstep
    rw [Parser.accept, rest_cursorAt ht, cursorAt_succ ht]
    simp only [htest, if_true]
  exact hadvance.bind (fun _ s' h => hm ts s' h.inside (h.left.trans_lt hb)) (Nat.le_refl c)

theorem Paces.whenAhead {mark : Punct} {a : α} (h : Paces b 1 g m p) :
    Paces b 1 0 (Counted.branch (Parser.isPunct mark) m (Pure.pure a)) (Parser.whenPunct mark p a) :=
  .branch h.mono (paces_pure a)

theorem Paces.whenEat {mark : Punct} {a : α} (h : Paces b c g m p) :
    Paces b 1 0 (Counted.onEat (Parser.isPunct mark) m (Pure.pure a))
      (Parser.whenPunct mark (Parser.preceded mark p) a) :=
  .onEat h.mono (paces_pure a)

theorem Paces.located {m : Counted (Span → α)} {p : Parser (Span → α)} (h : Paces b c (g + 1) m p) :
    Paces b c (g + 1) (located m) (Parser.located p) := by
  intro ts s hs hb
  have hm := h ts s hs hb
  unfold PacesAt at hm
  split at hm
  · rename_i f s' hok
    have hpos : 0 < s'.pos := by
      have := hm.2.pos_le
      omega
    refine .of_ok (a := f ((ts.cursorAt s.pos).headSpan.through (ts.cursorAt s'.pos).last))
      ?_ ?_ hm.2
    · rw [Counted.located, bind_eq_ok (headSpan_eq hs), bind_eq_ok hok,
        bind_eq_ok (takenSpan_eq hm.2.inside hpos)]
      rfl
    · rw [Parser.located, hm.1]
  · rename_i e herr
    refine .of_refused (e := e) ?_ ?_
    · rw [Counted.located, bind_eq_ok (headSpan_eq hs), bind_eq_error herr]
    · rw [Parser.located, hm]
  · exact hm.elim
  · rename_i herr
    have herr' : Counted.located m ts s = .error .outOfRounds := by
      rw [Counted.located, bind_eq_ok (headSpan_eq hs), bind_eq_error herr]
    rw [PacesAt, herr']
    exact hm

theorem PacesAt.round (h : Paces b (c + 1) (g + 1) m p) (hc : s.pos + c ≤ ts.items.length)
    (hb : s.left < b + 1) : PacesAt c g (round m) p ts s := by
  obtain ⟨pos, left⟩ := s
  cases left with
  | zero =>
      -- out of rounds: the credit is what is known to be left of the tokens
      change 0 + pos + c ≤ ts.items.length
      rwa [Nat.zero_add]
  | succ n =>
      have hm := h ts ⟨pos, n⟩ ((Nat.le_add_right _ _).trans hc) (Nat.lt_of_succ_lt_succ hb)
      have hround : Counted.round m ts ⟨pos, n + 1⟩ = m ts ⟨pos, n⟩ := rfl
      unfold PacesAt at hm ⊢
      rw [hround]
      split at hm
      · have := hm.2.left
        have := hm.2.pace
        refine ⟨hm.1, hm.2.inside, ?_, ?_⟩
        · dsimp only at *
          omega
        · dsimp only at *
          omega
      · exact hm
      · exact hm
      · dsimp only at *
        omega

theorem Paces.round (h : Paces b 1 (g + 1) m p) : Paces (b + 1) 0 g (round m) p :=
  fun _ _ hs hb => .round h hs hb

theorem Paces.recur {body : Counted α → Counted α}
    (h : ∀ k again, k < b → Paces k c g again p → Paces (k + 1) c g (body again) p) :
    Paces b c g (recur body) p := by
  have hunroll (n : Nat) (hn : n ≤ b) : Paces n c g (unroll body n) p := by
    -- on the rounds: the body calls itself with fewer of them left, which is what the bound is for
    induction n with
    | zero => exact fun _ _ _ hb => absurd hb (Nat.not_lt_zero _)
    | succ n ih => exact h n _ hn (ih (Nat.le_of_lt hn))
  exact fun ts s hs hb => hunroll (s.left + 1) hb ts s hs (Nat.lt_succ_self _)

section Loops

variable {item : Counted α} {pitem : Parser α} {hi : Parser.Consumes pitem}

theorem Paces.closed {right : Punct} (hitem : Paces b 1 1 item pitem) :
    Paces (b + 1) 0 1 (closed right item) (Parser.closed right pitem hi id) := by
  refine .recur fun k again hk hagain => ?_
  have hmore : Paces k 1 2 (do let a ← item; let as ← again; return a :: as)
      (do let a ← pitem; let as ← Parser.closed right pitem hi id; return a :: as) :=
    (hitem.below (Nat.le_of_lt_succ hk)).bind fun a => hagain.bind fun as => paces_pure (a :: as)
  rw [Parser.closed_eq_step]
  exact .onEat (paces_pure []) hmore.round

theorem Paces.any {left right : Punct} (hitem : Paces b 1 1 item pitem) :
    Paces b 1 2 (any left right item) (Parser.enclosed left right pitem hi) :=
  paces_expect.bind fun _ => hitem.closed.below (Nat.le_succ b)

theorem Paces.many {left right : Punct} (hitem : Paces b 1 1 item pitem) :
    Paces b 1 2 (many left right item) (Parser.enclosed1 left right pitem hi) := by
  have hclosed : Paces b 0 1 (Counted.closed right item) (Parser.closed right pitem hi id) :=
    hitem.closed.below (Nat.le_succ b)
  rw [Parser.enclosed1_eq]
  exact paces_expect.bind fun _ => hitem.bind fun a => hclosed.bind fun as => paces_pure (a :: as)

theorem Paces.whileAhead {test : TokenKind → Bool} (hitem : Paces b 2 1 item pitem) :
    Paces b 1 0 (whileAhead test item) (Parser.loop (Parser.ahead test) pitem hi) := by
  refine .recur fun k again hk hagain => ?_
  have hmore : Paces k 2 1 (do let a ← item; let as ← again; return a :: as)
      (do let a ← pitem; let as ← Parser.loop (Parser.ahead test) pitem hi; return a :: as) :=
    (hitem.below (Nat.le_of_lt hk)).bind fun a => hagain.bind fun as => paces_pure (a :: as)
  rw [Parser.loop_eq_branch]
  intro ts s hs hb
  refine .branch hs (fun h => .round hmore ?_ hb) fun _ => paces_pure [] ts s hs hb
  obtain ⟨t, ht, -⟩ := exists_of_ahead h
  obtain ⟨hlt, -⟩ := List.getElem?_eq_some_iff.mp ht
  exact hlt

theorem Paces.whileEat {mark : Punct} {hp : Parser.Consumes (Parser.preceded mark pitem)}
    (hitem : Paces b 1 1 item pitem) : Paces b 1 0 (whileEat (Parser.isPunct mark) item)
      (Parser.loop (Parser.ahead (Parser.isPunct mark)) (Parser.preceded mark pitem) hp) := by
  refine .recur fun k again hk hagain => ?_
  have hmore : Paces k 1 1 (do let a ← item; let as ← again; return a :: as) (do
      let a ← pitem
      let as ← Parser.loop (Parser.ahead (Parser.isPunct mark)) (Parser.preceded mark pitem) hp
      return a :: as) :=
    (hitem.below (Nat.le_of_lt hk)).bind fun a => hagain.bind fun as => paces_pure (a :: as)
  rw [Parser.loop_eq_branch, Parser.preceded_bind]
  exact .onEat hmore.round (paces_pure [])

theorem Paces.separated {mark : Punct} (hitem : Paces b 1 1 item pitem) :
    Paces b 1 1 (separated mark item) (Parser.separated mark pitem hi) := by
  have hskip : Paces b 2 0 (Counted.onEat (Parser.isPunct mark) (return ()) (return ()))
      (Parser.skipPunct mark) := by
    rw [Parser.skipPunct, ← Parser.bind_pure (Parser.punct mark)]
    exact .onEat (paces_pure ()) (paces_pure ())
  exact hskip.bind fun _ => hitem.bind fun a => hitem.whileEat.bind fun as => paces_pure (a :: as)

end Loops

end Counted

end SchemaGraph
