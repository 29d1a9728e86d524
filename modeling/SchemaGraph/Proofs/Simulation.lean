import SchemaGraph.Proofs.Relocation

namespace SchemaGraph

open Text (Span Position)

def TokenKind.Opens (k : TokenKind) : Prop :=
  (Parser.stringValue? k).isSome = true ∨ Parser.isKeyword "extend" k = true ∨
    (Parser.head? k).isSome = true

theorem TokenKind.Opens.isPunct {k : TokenKind} (h : k.Opens) (p : Punct) :
    Parser.isPunct p k = false := by
  cases k with
  | punct q => rcases h with h | h | h <;> exact nomatch h
  | _ => rfl

theorem TokenKind.Opens.isKeyword {k : TokenKind} {text : String} (h : k.Opens)
    (hextend : text ≠ "extend") (htext : Parser.Head.ofText? text = none) :
    Parser.isKeyword text k = false := by
  refine Bool.eq_false_iff.mpr fun hk => ?_
  obtain rfl : k = .name text := by simpa [Parser.isKeyword] using hk
  rcases h with h | h | h
  · exact nomatch h
  · exact hextend (by simpa [Parser.isKeyword] using h)
  · simp [Parser.head?, htext] at h

/-- A text in which the tokens of another one stand: where they are, what follows them and where
it ends. It is whole if nothing follows and the end is where the other's end goes. -/
structure Host where
  place : Relocation
  more : List Token
  opens : ∀ t ∈ more.head?, t.kind.Opens
  finish : Position
  whole : Prop
  clear : whole → more = []

namespace Parser

variable {h : Host} {n : Nat} {c d : Cursor} {α β γ δ : Type} {R : α → β → Prop} {S : γ → δ → Prop}
  {φ : α → β} {p : Parser α} {q : Parser β}

/-- Cursors at the same token. The last token taken counts only where one has been taken since
there were `n` of them. -/
structure Follows (h : Host) (n : Nat) (c d : Cursor) : Prop where
  rest : d.rest = c.rest.map h.place.token ++ h.more
  last : c.rest.length < n → d.last = h.place.span c.last
  finish : d.finish = h.finish
  closes : h.whole →
    Span.between h.finish h.finish = h.place.span (.between c.finish c.finish)

namespace Follows

theorem anew (hf : Follows h n c d) : Follows h c.rest.length c d :=
  ⟨hf.rest, fun hlt => absurd hlt (Nat.lt_irrefl _), hf.finish, hf.closes⟩

theorem take (hf : Follows h n c d) (t : Token) (ts : List Token) :
    Follows h n { c with rest := ts, last := t.span }
      { d with rest := ts.map h.place.token ++ h.more, last := h.place.span t.span } :=
  ⟨rfl, fun _ => rfl, hf.finish, hf.closes⟩

theorem headSpan (hf : Follows h n c d) (hc : c.rest = [] → h.whole) :
    d.headSpan = h.place.span c.headSpan := by
  unfold Cursor.headSpan
  rw [hf.rest]
  cases hr : c.rest with
  | nil =>
      rw [h.clear (hc hr), hf.finish]
      exact hf.closes (hc hr)
  | cons t ts => rfl

theorem head? (hf : Follows h n c d) (hc : c.rest = [] → h.whole) : d.head? = c.head? := by
  unfold Cursor.head?
  rw [hf.rest]
  cases hr : c.rest with
  | nil => rw [h.clear (hc hr)]; rfl
  | cons t ts => rfl

theorem fault (hf : Follows h n c d) (hc : c.rest = [] → h.whole) (wanted : Expectation) :
    d.fault wanted = h.place.error (c.fault wanted) := by
  rw [Cursor.fault, hf.headSpan hc, hf.head? hc]
  rfl

theorem ahead {test : TokenKind → Bool} (hf : Follows h n c d)
    (htest : ∀ k : TokenKind, k.Opens → test k = false) :
    Parser.ahead test d = Parser.ahead test c := by
  unfold Parser.ahead Cursor.head?
  rw [hf.rest]
  cases hr : c.rest with
  | nil =>
      cases hm : h.more with
      | nil => rfl
      | cons t ts => exact htest _ (h.opens t (by rw [hm]; rfl))
  | cons t ts => rfl

end Follows

inductive Answers (h : Host) (n : Nat) (R : α → β → Prop) :
    Except SyntaxError (α × Cursor) → Except SyntaxError (β × Cursor) → Prop
  | ok {a : α} {b : β} {c d : Cursor} : R a b → Follows h n c d → Answers h n R (.ok (a, c)) (.ok (b, d))
  | error {e : SyntaxError} {y : Except SyntaxError (β × Cursor)} :
      (h.whole → y = .error (h.place.error e)) → Answers h n R (.error e) y

def Simulates (h : Host) (R : α → β → Prop) (p : Parser α) (q : Parser β) : Prop :=
  ∀ ⦃n c d⦄, Follows h n c d → Answers h n R (p c) (q d)

def SimulatesWithin (h : Host) (R : α → β → Prop) (p : Parser α) (q : Parser β) : Prop :=
  ∀ ⦃n c d⦄, Follows h n c d → (c.rest = [] → h.whole) → Answers h n R (p c) (q d)

def Carries (h : Host) (φ : α → β) (p : Parser α) (q : Parser β) : Prop :=
  Simulates h (fun a b => b = φ a) p q

theorem Simulates.within (hp : Simulates h R p q) : SimulatesWithin h R p q := fun _ _ _ hf _ => hp hf

theorem SimulatesWithin.simulates (hp : SimulatesWithin h R p q) (hc : Consumes p) :
    Simulates h R p q := by
  intro n c d hf
  by_cases hr : c.rest = [] → h.whole
  · exact hp hf hr
  · rw [Classical.not_imp] at hr
    cases hx : p c with
    | error e => exact .error fun hm => absurd hm hr.2
    | ok x =>
        have hlt := hc c x.1 x.2 hx
        rw [hr.1] at hlt
        exact absurd hlt (Nat.not_lt_zero _)

theorem simulates_pure {a : α} {b : β} (hab : R a b) : Simulates h R (Pure.pure a) (Pure.pure b) :=
  fun _ _ _ hf => .ok hab hf

theorem Answers.bind {f : α → Parser γ} {g : β → Parser δ} {x : Except SyntaxError (α × Cursor)}
    {y : Except SyntaxError (β × Cursor)} (hf : ∀ a b, R a b → Simulates h S (f a) (g b)) :
    Answers h n R x y → Answers h n S (match x with | .error e => .error e | .ok (a, c) => f a c)
      (match y with | .error e => .error e | .ok (b, d) => g b d) := by
  intro hx
  cases hx with
  | ok hab hcd => exact hf _ _ hab hcd
  | error he => exact .error fun hm => by rw [he hm]

theorem Simulates.bind {f : α → Parser γ} {g : β → Parser δ} (hp : Simulates h R p q)
    (hf : ∀ a b, R a b → Simulates h S (f a) (g b)) : Simulates h S (p >>= f) (q >>= g) :=
  fun _ _ _ hcd => Answers.bind hf (hp hcd)

theorem SimulatesWithin.bind {f : α → Parser γ} {g : β → Parser δ} (hp : SimulatesWithin h R p q)
    (hf : ∀ a b, R a b → Simulates h S (f a) (g b)) : SimulatesWithin h S (p >>= f) (q >>= g) :=
  fun _ _ _ hcd hr => Answers.bind hf (hp hcd hr)

theorem Carries.bind {f : α → Parser γ} {g : β → Parser δ} (hp : Carries h φ p q)
    (hf : ∀ a, Simulates h S (f a) (g (φ a))) : Simulates h S (p >>= f) (q >>= g) :=
  Simulates.bind hp fun a _ hab => hab ▸ hf a

theorem simulates_accept {R : α → α → Prop} {f : TokenKind → Option α} (wanted : Expectation)
    (hR : ∀ k a, f k = some a → R a a) : Simulates h R (accept wanted f) (accept wanted f) := by
  intro n c d hf
  unfold accept
  cases hr : c.rest with
  | nil =>
      refine .error fun hm => ?_
      rw [← hf.fault (fun _ => hm), hf.rest, hr, h.clear hm]
      rfl
  | cons t ts =>
      rw [hf.rest, hr, List.map_cons, List.cons_append]
      dsimp only
      rw [show (h.place.token t).kind = t.kind from rfl]
      cases hk : f t.kind with
      | none =>
          refine .error fun _ => ?_
          rw [← hf.fault (fun hn => nomatch hr.symm.trans hn)]
      | some a => exact .ok (hR _ _ hk) (hf.take t ts)

theorem Simulates.branch {test : TokenKind → Bool} {p' : Parser α} {q' : Parser β}
    (htest : ∀ k : TokenKind, k.Opens → test k = false) (hp : Simulates h R p q)
    (hp' : Simulates h R p' q') : Simulates h R (branch test p p') (branch test q q') := by
  intro n c d hf
  unfold Parser.branch
  rw [hf.ahead htest]
  split
  · exact hp hf
  · exact hp' hf

theorem SimulatesWithin.branch (test : TokenKind → Bool) {p' : Parser α} {q' : Parser β}
    (hp : SimulatesWithin h R p q) (hp' : SimulatesWithin h R p' q') :
    SimulatesWithin h R (branch test p p') (branch test q q') := by
  intro n c d hf hr
  unfold Parser.branch ahead
  rw [hf.head? hr]
  split
  · exact hp hf hr
  · exact hp' hf hr

theorem consumes_of_located {p : Parser (Span → α)} (hc : Consumes (located p)) : Consumes p := by
  intro c f c' hp
  refine hc c (f (c.headSpan.through c'.last)) c' ?_
  unfold Parser.located
  rw [hp]

def Places (h : Host) (φ : α → β) (f : Span → α) (g : Span → β) : Prop :=
  ∀ s, g (h.place.span s) = φ (f s)

theorem SimulatesWithin.located {p : Parser (Span → α)} {q : Parser (Span → β)}
    (hp : SimulatesWithin h (Places h φ) p q) (hc : Consumes (located p)) :
    Carries h φ (located p) (located q) := by
  refine SimulatesWithin.simulates (fun n c d hf hr => ?_) hc
  have hx := hp hf.anew hr
  have hlt := consumes_of_located hc c
  unfold Parser.located
  generalize p c = x at hx hlt
  generalize q d = y at hx
  cases hx with
  | error he => exact .error fun hm => by rw [he hm]
  | ok hfg hf' =>
      refine .ok ?_ ⟨hf'.rest, fun _ => hf'.last (hlt _ _ rfl), hf'.finish, hf'.closes⟩
      rw [hf.headSpan hr, hf'.last (hlt _ _ rfl), ← Relocation.span_through]
      exact hfg _

theorem Simulates.located {p : Parser (Span → α)} {q : Parser (Span → β)}
    (hp : Simulates h (Places h φ) p q) (hc : Consumes (located p)) :
    Carries h φ (located p) (located q) :=
  hp.within.located hc

theorem Carries.loop {test test' : Cursor → Bool} {hp : Consumes p} {hq : Consumes q}
    (hi : Carries h φ p q) (htest : ∀ ⦃n c d⦄, Follows h n c d → test' d = test c) :
    Carries h (List.map φ) (loop test p hp) (loop test' q hq) := by
  intro n c
  induction hm : c.rest.length using Nat.strongRecOn generalizing c with
  | _ m ih =>
      intro d hf
      have hx := hi hf
      have hlt := hp c
      rw [loop_step, loop_step test', htest hf]
      split
      · generalize p c = x at hx hlt
        generalize q d = y at hx
        cases hx with
        | error he => exact .error fun hmore => by rw [he hmore]
        | ok hab hf' =>
            have hl := ih _ (hm ▸ hlt _ _ rfl) rfl hf'
            dsimp only
            revert hl
            generalize Parser.loop test p hp _ = u
            generalize Parser.loop test' q hq _ = v
            intro hl
            cases hl with
            | error he => exact .error fun hmore => by rw [he hmore]
            | ok has hf'' =>
                rw [hab, has]
                exact .ok rfl hf''
      · exact .ok rfl hf

theorem carries_punct (m : Punct) : Carries h id (punct m) (punct m) :=
  simulates_accept _ fun _ _ _ => rfl

theorem carries_keyword (text : String) : Carries h id (keyword text) (keyword text) :=
  simulates_accept _ fun _ _ _ => rfl

theorem Simulates.whenPunct {a : α} {b : β} (mark : Punct) (hp : Simulates h R p q) (hab : R a b) :
    Simulates h R (whenPunct mark p a) (whenPunct mark q b) :=
  hp.branch (fun _ hk => hk.isPunct mark) (simulates_pure hab)

theorem carries_skipPunct (mark : Punct) : Carries h id (skipPunct mark) (skipPunct mark) :=
  Simulates.whenPunct mark (carries_punct mark) rfl

variable {hp : Consumes p} {hq : Consumes q}

theorem Carries.loop_until (hi : Carries h φ p q) (right : Punct) : Carries h (List.map φ)
    (Parser.loop (fun c => !ahead (isPunct right) c) p hp)
    (Parser.loop (fun c => !ahead (isPunct right) c) q hq) :=
  hi.loop fun _ _ _ hf => by rw [hf.ahead fun _ hk => hk.isPunct right]

theorem Carries.loop_while (hi : Carries h φ p q) (mark : Punct) : Carries h (List.map φ)
    (Parser.loop (ahead (isPunct mark)) p hp) (Parser.loop (ahead (isPunct mark)) q hq) :=
  hi.loop fun _ _ _ hf => hf.ahead fun _ hk => hk.isPunct mark

theorem Carries.enclosed (hi : Carries h φ p q) (left right : Punct) :
    Carries h (List.map φ) (enclosed left right p hp) (enclosed left right q hq) :=
  (carries_punct left).bind fun _ => (hi.loop_until right).bind fun _ =>
    (carries_punct right).bind fun _ => simulates_pure rfl

theorem Carries.enclosed1 (hi : Carries h φ p q) (left right : Punct) :
    Carries h (List.map φ) (enclosed1 left right p hp) (enclosed1 left right q hq) :=
  (carries_punct left).bind fun _ => hi.bind fun _ => (hi.loop_until right).bind fun _ =>
    (carries_punct right).bind fun _ => simulates_pure rfl

theorem Simulates.preceded (hi : Simulates h R p q) (mark : Punct) :
    Simulates h R (preceded mark p) (preceded mark q) :=
  (carries_punct mark).bind fun _ => hi

theorem Carries.separated (hi : Carries h φ p q) (mark : Punct) :
    Carries h (List.map φ) (separated mark p hp) (separated mark q hq) :=
  (carries_skipPunct mark).bind fun _ => hi.bind fun _ =>
    (Carries.loop_while (Simulates.preceded hi mark) mark).bind fun _ => simulates_pure rfl

end Parser

end SchemaGraph
