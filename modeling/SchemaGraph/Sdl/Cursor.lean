import SchemaGraph.Sdl.SyntaxError

namespace SchemaGraph

open Text (Span Position)

structure Cursor where
  rest : List Token
  last : Span
  finish : Position
  deriving DecidableEq, Repr

namespace Cursor

def head? (c : Cursor) : Option TokenKind := c.rest.head?.map Token.kind

def headSpan (c : Cursor) : Span :=
  match c.rest with
  | t :: _ => t.span
  | [] => .between c.finish c.finish

def fault (c : Cursor) (wanted : Expectation) : SyntaxError :=
  ⟨.unexpected wanted c.head?, c.headSpan.line, c.headSpan.column⟩

end Cursor

abbrev Parser (α : Type) := Cursor → Except SyntaxError (α × Cursor)

namespace Parser

variable {α β : Type}

def pure (a : α) : Parser α := fun c => .ok (a, c)

def bind (p : Parser α) (f : α → Parser β) : Parser β := fun c =>
  match p c with
  | .error e => .error e
  | .ok (a, c') => f a c'

instance : Monad Parser where
  pure := Parser.pure
  bind := Parser.bind

def fail (wanted : Expectation) : Parser α := fun c => .error (c.fault wanted)

def accept (wanted : Expectation) (f : TokenKind → Option α) : Parser α := fun c =>
  match c.rest with
  | [] => .error (c.fault wanted)
  | t :: ts =>
      match f t.kind with
      | some a => .ok (a, { c with rest := ts, last := t.span })
      | none => .error (c.fault wanted)

def ahead (test : TokenKind → Bool) (c : Cursor) : Bool := c.head?.elim false test

def branch (test : TokenKind → Bool) (p q : Parser α) : Parser α := fun c =>
  if ahead test c then p c else q c

def located (p : Parser (Span → α)) : Parser α := fun c =>
  match p c with
  | .error e => .error e
  | .ok (f, c') => .ok (f (c.headSpan.through c'.last), c')

def Consumes (p : Parser α) : Prop :=
  ∀ c a c', p c = .ok (a, c') → c'.rest.length < c.rest.length

def Keeps (p : Parser α) : Prop :=
  ∀ c a c', p c = .ok (a, c') → c'.rest.length ≤ c.rest.length

theorem Consumes.keeps {p : Parser α} (h : Consumes p) : Keeps p :=
  fun c a c' hc => Nat.le_of_lt (h c a c' hc)

theorem keeps_pure (a : α) : Keeps (Pure.pure a : Parser α) := by
  intro c b c' h
  simp only [Pure.pure, Parser.pure, Except.ok.injEq, Prod.mk.injEq] at h
  obtain ⟨_, rfl⟩ := h
  exact Nat.le_refl _

theorem bind_eq_ok {p : Parser α} {f : α → Parser β} {c c' : Cursor} {b : β}
    (h : (p >>= f) c = .ok (b, c')) : ∃ a d, p c = .ok (a, d) ∧ f a d = .ok (b, c') := by
  simp only [Bind.bind, Parser.bind] at h
  split at h
  · simp at h
  · rename_i a d hp
    exact ⟨a, d, hp, h⟩

theorem accept_eq_ok {wanted : Expectation} {f : TokenKind → Option α} {c c' : Cursor} {a : α}
    (h : accept wanted f c = .ok (a, c')) : ∃ t ts, c.rest = t :: ts ∧ f t.kind = some a ∧
      c' = { c with rest := ts, last := t.span } := by
  unfold accept at h
  split at h
  · exact nomatch h
  · rename_i t ts hr
    split at h
    · rename_i b hb
      obtain ⟨rfl, rfl⟩ : b = a ∧ _ = c' := by simpa using h
      exact ⟨t, ts, hr, hb, rfl⟩
    · exact nomatch h

theorem located_eq_ok {p : Parser (Span → α)} {c c' : Cursor} {a : α}
    (h : located p c = .ok (a, c')) :
    ∃ f, p c = .ok (f, c') ∧ a = f (c.headSpan.through c'.last) := by
  unfold located at h
  split at h
  · exact nomatch h
  · rename_i f d hp
    obtain ⟨rfl, rfl⟩ : _ = a ∧ d = c' := by simpa using h
    exact ⟨f, hp, rfl⟩

theorem Keeps.bind {p : Parser α} {f : α → Parser β} (hp : Keeps p) (hf : ∀ a, Keeps (f a)) :
    Keeps (p >>= f) := by
  intro c b c' h
  obtain ⟨a, d, h1, h2⟩ := bind_eq_ok h
  exact Nat.le_trans (hf a d b c' h2) (hp c a d h1)

theorem Consumes.bind {p : Parser α} {f : α → Parser β} (hp : Consumes p)
    (hf : ∀ a, Keeps (f a)) : Consumes (p >>= f) := by
  intro c b c' h
  obtain ⟨a, d, h1, h2⟩ := bind_eq_ok h
  exact Nat.lt_of_le_of_lt (hf a d b c' h2) (hp c a d h1)

theorem Keeps.bind_consumes {p : Parser α} {f : α → Parser β} (hp : Keeps p)
    (hf : ∀ a, Consumes (f a)) : Consumes (p >>= f) := by
  intro c b c' h
  obtain ⟨a, d, h1, h2⟩ := bind_eq_ok h
  exact Nat.lt_of_lt_of_le (hf a d b c' h2) (hp c a d h1)

theorem consumes_fail (wanted : Expectation) : Consumes (fail wanted : Parser α) := by
  intro c a c' h
  simp [fail] at h

theorem consumes_accept (wanted : Expectation) (f : TokenKind → Option α) :
    Consumes (accept wanted f) := by
  intro c a c' h
  unfold accept at h
  split at h
  · simp at h
  · rename_i t ts hr
    split at h
    · simp only [Except.ok.injEq, Prod.mk.injEq] at h
      obtain ⟨_, rfl⟩ := h
      simp [hr]
    · simp at h

theorem Consumes.located {p : Parser (Span → α)} (h : Consumes p) : Consumes (located p) := by
  intro c a c' hc
  unfold Parser.located at hc
  split at hc
  · simp at hc
  · rename_i f d hp
    simp only [Except.ok.injEq, Prod.mk.injEq] at hc
    obtain ⟨_, rfl⟩ := hc
    exact h c f d hp

theorem Keeps.branch {test : TokenKind → Bool} {p q : Parser α} (hp : Keeps p) (hq : Keeps q) :
    Keeps (branch test p q) := by
  intro c a c' h
  unfold Parser.branch at h
  split at h
  · exact hp c a c' h
  · exact hq c a c' h

theorem Consumes.branch {test : TokenKind → Bool} {p q : Parser α} (hp : Consumes p)
    (hq : Consumes q) : Consumes (branch test p q) := by
  intro c a c' h
  unfold Parser.branch at h
  split at h
  · exact hp c a c' h
  · exact hq c a c' h

def loop (test : Cursor → Bool) (item : Parser α) (h : Consumes item) : Parser (List α) := fun c =>
  if test c then
    match hc : item c with
    | .error e => .error e
    | .ok (a, c') =>
        have : c'.rest.length < c.rest.length := h c a c' hc
        match loop test item h c' with
        | .error e => .error e
        | .ok (as, c'') => .ok (a :: as, c'')
  else .ok ([], c)
termination_by c => c.rest.length

theorem loop_step (test : Cursor → Bool) (item : Parser α) (hi : Consumes item) (c : Cursor) :
    loop test item hi c =
      if test c then
        match item c with
        | .error e => .error e
        | .ok (a, c') =>
            match loop test item hi c' with
            | .error e => .error e
            | .ok (as, c'') => .ok (a :: as, c'')
      else .ok ([], c) := by
  rw [loop]
  split
  · split
    · rename_i hc
      rw [hc]
    · rename_i hc
      simp only [hc]
  · rfl

theorem keeps_loop (test : Cursor → Bool) (item : Parser α) (h : Consumes item) :
    Keeps (loop test item h) := by
  intro c
  induction hn : c.rest.length using Nat.strongRecOn generalizing c with
  | _ n ih =>
      intro as c'' hc
      unfold loop at hc
      split at hc
      · split at hc
        · simp at hc
        · rename_i a c' hi
          have hlt := h c a c' hi
          split at hc
          · simp at hc
          · rename_i as' d hl
            simp only [Except.ok.injEq, Prod.mk.injEq] at hc
            obtain ⟨_, rfl⟩ := hc
            have := ih _ (hn ▸ hlt) c' rfl _ _ hl
            omega
      · simp only [Except.ok.injEq, Prod.mk.injEq] at hc
        obtain ⟨_, rfl⟩ := hc
        omega

def isPunct (p : Punct) (k : TokenKind) : Bool := k == .punct p

def isKeyword (text : String) (k : TokenKind) : Bool := k == .name text

def punct (p : Punct) : Parser Unit :=
  accept (.punct p) fun k => if isPunct p k then some () else none

def keyword (text : String) : Parser Unit :=
  accept (.keyword text) fun k => if isKeyword text k then some () else none

theorem consumes_punct (p : Punct) : Consumes (punct p) := consumes_accept _ _

theorem consumes_keyword (text : String) : Consumes (keyword text) := consumes_accept _ _

def whenPunct (mark : Punct) (p : Parser α) (otherwise : α) : Parser α :=
  branch (isPunct mark) p (Pure.pure otherwise)

theorem keeps_whenPunct {mark : Punct} {p : Parser α} {otherwise : α} (h : Keeps p) :
    Keeps (whenPunct mark p otherwise) :=
  h.branch (keeps_pure _)

def skipPunct (mark : Punct) : Parser Unit := whenPunct mark (punct mark) ()

theorem keeps_skipPunct (mark : Punct) : Keeps (skipPunct mark) :=
  keeps_whenPunct (consumes_punct mark).keeps

def enclosed (left right : Punct) (item : Parser α) (h : Consumes item) : Parser (List α) := do
  punct left
  let items ← loop (fun c => !ahead (isPunct right) c) item h
  punct right
  return items

theorem consumes_enclosed {left right : Punct} {item : Parser α} (h : Consumes item) :
    Consumes (enclosed left right item h) :=
  (consumes_punct left).bind fun _ => (keeps_loop _ _ h).bind fun _ =>
    (consumes_punct right).keeps.bind fun _ => keeps_pure _

def enclosed1 (left right : Punct) (item : Parser α) (h : Consumes item) : Parser (List α) := do
  punct left
  let first ← item
  let items ← loop (fun c => !ahead (isPunct right) c) item h
  punct right
  return first :: items

theorem consumes_enclosed1 {left right : Punct} {item : Parser α} (h : Consumes item) :
    Consumes (enclosed1 left right item h) :=
  (consumes_punct left).bind fun _ => h.keeps.bind fun _ => (keeps_loop _ _ h).bind fun _ =>
    (consumes_punct right).keeps.bind fun _ => keeps_pure _

def preceded (mark : Punct) (item : Parser α) : Parser α := do
  punct mark
  item

theorem consumes_preceded {mark : Punct} {item : Parser α} (h : Keeps item) :
    Consumes (preceded mark item) :=
  (consumes_punct mark).bind fun _ => h

def separated (mark : Punct) (item : Parser α) (h : Consumes item) : Parser (List α) := do
  skipPunct mark
  let first ← item
  let items ← loop (ahead (isPunct mark)) (preceded mark item) (consumes_preceded h.keeps)
  return first :: items

theorem consumes_separated {mark : Punct} {item : Parser α} (h : Consumes item) :
    Consumes (separated mark item h) :=
  (keeps_skipPunct mark).bind_consumes fun _ => h.bind fun _ => (keeps_loop _ _ _).bind fun _ =>
    keeps_pure _

end Parser

end SchemaGraph
