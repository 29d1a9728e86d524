import Mathlib.Data.Set.Insert
import SchemaGraph.Proofs.Numbered
import SchemaGraph.Proofs.Source

namespace SchemaGraph

open Text (Span)

def Clear (marks : Set TokenKind) (ks : List TokenKind) : Prop := ∀ k ∈ ks.head?, k ∉ marks

def Joins (marks after : Set TokenKind) (first : Option TokenKind) : Prop :=
  first.elim (marks ⊆ after) (· ∉ marks)

section Clear

variable {marks more : Set TokenKind} {first : Option TokenKind} {ks ls : List TokenKind}

theorem clear_nil (marks : Set TokenKind) : Clear marks [] := nofun

theorem Clear.mono (h : Clear more ks) (hsub : marks ⊆ more) : Clear marks ks :=
  fun k hk hm => h k hk (hsub hm)

theorem joins_none (h : marks ⊆ more) : Joins marks more none := h

theorem joins_empty : Joins ∅ more first := by
  cases first with
  | none => exact Set.empty_subset more
  | some k => exact Set.notMem_empty k

theorem Joins.clear (h : Joins marks more first) (hls : ls.head? = first) (hks : Clear more ks) :
    Clear marks (ls ++ ks) := by
  subst hls
  cases ls with
  | nil => exact hks.mono h
  | cons k ls => exact fun x hx => Option.some.inj hx ▸ h

theorem head?_append_congr {α : Type} {xs ys zs : List α} (h : ys.head? = zs.head?) :
    (xs ++ ys).head? = (xs ++ zs).head? := by
  rw [List.head?_append, List.head?_append, h]

theorem head?_append_of_cons {α : Type} {xs : List α} (h : xs ≠ []) (ys zs : List α) :
    (xs ++ ys).head? = (xs ++ zs).head? := by
  rw [List.head?_append_of_ne_nil _ h, List.head?_append_of_ne_nil _ h]

end Clear

namespace Parser

variable {α β : Type} {p q : Parser α} {f : α → Parser β} {M M' : Set TokenKind} {i n : Nat}
  {last last' last'' : Span} {ks ls : List TokenKind} {a : α} {b : β} {k : TokenKind}
  {start first both : Option TokenKind}

def Takes (p : Parser α) (i : Nat) (last : Span) (ks : List TokenKind) (a : α) (last' : Span)
    (admits : List TokenKind → Prop) : Prop :=
  ∀ rest, admits rest →
    p (.numbered i last (ks ++ rest)) = .ok (a, .numbered (i + ks.length) last' rest)

def Completes (M : Set TokenKind) (p : Parser α) (i : Nat) (last : Span) (ks : List TokenKind) : Prop :=
  ∃ a last', Takes p i last ks a last' (Clear M)

def Starts (M : Set TokenKind) (first : Option TokenKind) (p : Parser α) : Prop :=
  ∀ i last, ∃ ks, ks.head? = first ∧ AllWritable ks ∧ Completes M p i last ks

/-- What the reader does with the tokens from here on depends on those that it takes and the next one,
unless that is one of the marks. If it fails, what it has taken can be completed. Only a reader that
needs no first token may take nothing. -/
structure ForeseesAt (M : Set TokenKind) (first : Option TokenKind) (p : Parser α) (i : Nat)
    (last : Span) (ks : List TokenKind) : Prop where
  ok : ∀ {a c}, p (.numbered i last ks) = .ok (a, c) → ∃ taken rest last', ks = taken ++ rest ∧
    c = .numbered (i + taken.length) last' rest ∧ (taken = [] → first = none) ∧
    Takes p i last taken a last' fun other => other.head? = rest.head? ∨ Clear M other
  error : ∀ {e}, p (.numbered i last ks) = .error e → ∃ taken rest fault, ks = taken ++ rest ∧
    e = ⟨fault, i + taken.length, i + taken.length⟩ ∧
    (∀ other, other.head? = rest.head? → p (.numbered i last (taken ++ other)) = .error e) ∧
    (taken ≠ [] → ∃ more, AllWritable more ∧ Completes M p i last (taken ++ more))

/-- The reader foresees all on up to `n` tokens, and some tokens can be read. -/
structure Predictive (n : Nat) (M : Set TokenKind) (first : Option TokenKind) (p : Parser α) : Prop where
  foresees : ∀ i last ks, ks.length ≤ n → ForeseesAt M first p i last ks
  starts : Starts M first p

theorem Takes.mono {P Q : List TokenKind → Prop} (hp : Takes p i last ks a last' P)
    (h : ∀ rest, Q rest → P rest) : Takes p i last ks a last' Q :=
  fun rest hrest => hp rest (h rest hrest)

theorem Takes.bind {P Q : List TokenKind → Prop} (hp : Takes p i last ks a last' P)
    (hf : Takes (f a) (i + ks.length) last' ls b last'' Q) (hseam : ∀ rest, Q rest → P (ls ++ rest)) :
    Takes (p >>= f) i last (ks ++ ls) b last'' Q := by
  intro rest hrest
  rw [List.append_assoc, bind_eq (hp _ (hseam rest hrest)), hf rest hrest, List.length_append,
    Nat.add_assoc]

theorem Takes.located {p : Parser (Span → α)} {g : Span → α} {P : List TokenKind → Prop}
    (hp : Takes p i last ks g last' P) :
    Takes (located p) i last ks (g ((Span.ordinal i).through last')) last' P := by
  intro rest hrest
  rw [Parser.located, hp rest hrest]
  dsimp only
  rw [Cursor.headSpan_numbered]
  rfl

theorem Completes.mono (h : Completes M p i last ks) (hM : M ⊆ M') : Completes M' p i last ks := by
  obtain ⟨a, last', h⟩ := h
  exact ⟨a, last', h.mono fun _ hrest => hrest.mono hM⟩

theorem ForeseesAt.mono (h : ForeseesAt M first p i last ks) (hM : M ⊆ M') :
    ForeseesAt M' first p i last ks := by
  refine ⟨fun hok => ?_, fun herror => ?_⟩
  · obtain ⟨taken, rest, last', hks, hc, hne, htake⟩ := h.ok hok
    exact ⟨taken, rest, last', hks, hc, hne,
      htake.mono fun _ => Or.imp_right fun hrest => hrest.mono hM⟩
  · obtain ⟨taken, rest, fault, hks, he, hsame, hmore⟩ := h.error herror
    refine ⟨taken, rest, fault, hks, he, hsame, fun hne => ?_⟩
    obtain ⟨more, hwritable, hcompletes⟩ := hmore hne
    exact ⟨more, hwritable, hcompletes.mono hM⟩

theorem ForeseesAt.of_some (h : ForeseesAt M (some k) p i last ks) : ForeseesAt M first p i last ks := by
  refine ⟨fun hok => ?_, h.error⟩
  obtain ⟨taken, rest, last', hks, hc, hne, htake⟩ := h.ok hok
  exact ⟨taken, rest, last', hks, hc, fun hnil => (nomatch hne hnil), htake⟩

theorem Predictive.mono (h : Predictive n M first p) (hM : M ⊆ M') : Predictive n M' first p := by
  refine ⟨fun i last ks hn => (h.foresees i last ks hn).mono hM, fun i last => ?_⟩
  obtain ⟨ks, hhead, hwritable, hks⟩ := h.starts i last
  exact ⟨ks, hhead, hwritable, hks.mono hM⟩

section Bind

variable {nexts : α → Option TokenKind}

theorem Completes.bind {taken : List TokenKind} (hp : Completes M p i last taken)
    (hs : ∀ a, Starts M' (nexts a) (f a)) (hseam : ∀ a, Joins M M' (nexts a)) :
    ∃ a more, more.head? = nexts a ∧ AllWritable more ∧
      Completes M' (p >>= f) i last (taken ++ more) := by
  obtain ⟨a, last', hp⟩ := hp
  obtain ⟨more, hhead, hwritable, b, last'', hf⟩ := hs a (i + taken.length) last'
  exact ⟨a, more, hhead, hwritable, b, last'',
    hp.bind hf fun rest hrest => (hseam a).clear hhead hrest⟩

theorem Starts.bind (hp : Starts M start p) (hs : ∀ a, Starts M' (nexts a) (f a))
    (hseam : ∀ a, Joins M M' (nexts a)) (hboth : ∀ a, start.or (nexts a) = both) :
    Starts M' both (p >>= f) := by
  intro i last
  obtain ⟨ks, hhead, hwritable, hp⟩ := hp i last
  obtain ⟨a, more, hhead', hwritable', hmore⟩ := hp.bind hs hseam
  refine ⟨ks ++ more, ?_, hwritable.append hwritable', hmore⟩
  rw [List.head?_append, hhead, hhead', hboth]

theorem ForeseesAt.bind (hp : ForeseesAt M start p i last ks)
    (hf : ∀ {a c}, p (.numbered i last ks) = .ok (a, c) → ∀ {j last' rest},
      c = .numbered j last' rest → rest.length ≤ ks.length → ForeseesAt M' (nexts a) (f a) j last' rest)
    (hs : ∀ a, Starts M' (nexts a) (f a)) (hseam : ∀ a, Joins M M' (nexts a))
    (hboth : ∀ a, start.or (nexts a) = both) : ForeseesAt M' both (p >>= f) i last ks := by
  have hrest {taken rest : List TokenKind} (h : ks = taken ++ rest) : rest.length ≤ ks.length := by
    rw [h, List.length_append]
    exact Nat.le_add_left _ _
  constructor
  · intro b c h
    obtain ⟨a, d, h1, h2⟩ := bind_eq_ok h
    obtain ⟨taken, left, last', hks, rfl, hne, htake⟩ := hp.ok h1
    obtain ⟨taken', rest, last'', rfl, rfl, hne', htake'⟩ := (hf h1 rfl (hrest hks)).ok h2
    refine ⟨taken ++ taken', rest, last'', ?_, ?_, fun hnil => ?_, ?_⟩
    · rw [hks, List.append_assoc]
    · rw [List.length_append, Nat.add_assoc]
    · obtain ⟨hnil, hnil'⟩ := List.append_eq_nil_iff.mp hnil
      rw [← hboth a, hne hnil, hne' hnil']
      rfl
    · refine htake.bind htake' fun other hother => ?_
      cases taken' with
      | cons k taken' => exact Or.inl rfl
      | nil =>
          have hnone := hseam a
          rw [hne' rfl] at hnone
          exact hother.imp_right fun hclear => hclear.mono hnone
  · intro e h
    cases h1 : p (.numbered i last ks) with
    | error e' =>
        obtain rfl : e' = e := by
          simpa [Bind.bind, Parser.bind, h1] using h
        obtain ⟨taken, rest, fault, hks, he, hsame, hmore⟩ := hp.error h1
        refine ⟨taken, rest, fault, hks, he, fun other hother => ?_, fun hne => ?_⟩
        · simp [Bind.bind, Parser.bind, hsame other hother]
        · obtain ⟨more, hwritable, hcompletes⟩ := hmore hne
          obtain ⟨-, more', -, hwritable', hcompletes'⟩ := hcompletes.bind hs hseam
          refine ⟨more ++ more', hwritable.append hwritable', ?_⟩
          rwa [← List.append_assoc]
    | ok x =>
        obtain ⟨a, d⟩ := x
        obtain ⟨taken, left, last', hks, rfl, -, htake⟩ := hp.ok h1
        have h2 : f a (.numbered (i + taken.length) last' left) = .error e := (bind_eq h1).symm.trans h
        obtain ⟨taken', rest, fault, rfl, rfl, hsame, hmore⟩ := (hf h1 rfl (hrest hks)).error h2
        refine ⟨taken ++ taken', rest, fault, ?_, ?_, ?_, fun hne => ?_⟩
        · rw [hks, List.append_assoc]
        · rw [List.length_append, Nat.add_assoc]
        · intro other hother
          rw [List.append_assoc, bind_eq (htake _ (Or.inl (head?_append_congr hother)))]
          exact hsame other hother
        · cases taken' with
          | nil =>
              -- the second reader has taken nothing, so it begins anew
              have hcompletes : Completes M p i last taken := ⟨a, last', htake.mono fun _ => Or.inr⟩
              obtain ⟨-, more, -, hwritable, hmore⟩ := hcompletes.bind hs hseam
              exact ⟨more, hwritable, by rwa [List.append_nil]⟩
          | cons k taken' =>
              obtain ⟨more, hwritable, b, last'', hf'⟩ := hmore (List.cons_ne_nil _ _)
              refine ⟨more, hwritable, b, last'', ?_⟩
              rw [List.append_assoc]
              exact htake.bind hf' fun _ _ => Or.inl rfl

theorem Predictive.bind (hp : Predictive n M start p) (hf : ∀ a, Predictive n M' (nexts a) (f a))
    (hseam : ∀ a, Joins M M' (nexts a)) (hboth : ∀ a, start.or (nexts a) = both) :
    Predictive n M' both (p >>= f) where
  foresees i last ks hn := by
    refine (hp.foresees i last ks hn).bind ?_ (fun a => (hf a).starts) hseam hboth
    exact fun {a _} _ {j last' rest} _ hle => (hf a).foresees j last' rest (hle.trans hn)
  starts := hp.starts.bind (fun a => (hf a).starts) hseam hboth

theorem Predictive.andThen (hp : Predictive n ∅ (some k) p) (hf : ∀ a, Predictive n M (nexts a) (f a)) :
    Predictive n M (some k) (p >>= f) :=
  hp.bind hf (fun _ => joins_empty) fun _ => rfl

theorem Predictive.skip (hp : Predictive n M none p) (hf : ∀ a, Predictive n M' first (f a))
    (hseam : Joins M M' first) : Predictive n M' first (p >>= f) :=
  hp.bind hf (fun _ => hseam) fun _ => Option.none_or

theorem Predictive.trail (hp : Predictive n M first p) (hf : ∀ a, Predictive n M none (f a)) :
    Predictive n M first (p >>= f) :=
  hp.bind hf (fun _ => joins_none subset_rfl) fun _ => Option.or_none

end Bind

theorem starts_pure (a : α) : Starts M none (Pure.pure a) :=
  fun _ last => ⟨[], rfl, .nil, a, last, fun _ _ => rfl⟩

theorem foreseesAt_pure (a : α) : ForeseesAt M none (Pure.pure a) i last ks := by
  refine ⟨fun h => ?_, nofun⟩
  obtain ⟨rfl, rfl⟩ := Prod.mk.inj (Except.ok.inj h)
  exact ⟨[], ks, last, rfl, rfl, fun _ => rfl, fun _ _ => rfl⟩

theorem predictive_pure (a : α) : Predictive n M none (Pure.pure a) :=
  ⟨fun _ _ _ _ => foreseesAt_pure a, starts_pure a⟩

theorem Predictive.map {g : α → β} (hp : Predictive n M first p) :
    Predictive n M first (do let a ← p; return g a) :=
  hp.trail fun a => predictive_pure (g a)

theorem predictive_of_head {g : TokenKind → Option α} {blame : Option TokenKind → SyntaxFault}
    (hsome : ∀ {i last k ks a}, g k = some a →
      p (.numbered i last (k :: ks)) = .ok (a, .numbered (i + 1) (.ordinal i) ks))
    (hnone : ∀ {i last ks}, ks.head?.bind g = none →
      p (.numbered i last ks) = .error ⟨blame ks.head?, i, i⟩)
    (hk : g k = some a) (hwritable : k.Writable) : Predictive n M (some k) p := by
  refine ⟨fun i last ks _ => ?_, fun i last =>
    ⟨[k], rfl, .cons hwritable .nil, a, .ordinal i, fun rest _ => hsome hk⟩⟩
  cases hks : ks.head?.bind g with
  | some b =>
      obtain ⟨x, hx, hb⟩ := Option.bind_eq_some_iff.mp hks
      obtain ⟨ks, rfl⟩ := List.head?_eq_some_iff.mp hx
      have hok : p (.numbered i last (x :: ks)) = _ := hsome hb
      refine ⟨fun h => ?_, fun h => nomatch hok.symm.trans h⟩
      obtain ⟨rfl, rfl⟩ := Prod.mk.inj (Except.ok.inj (hok.symm.trans h))
      exact ⟨[x], ks, .ordinal i, rfl, rfl, nofun, fun rest _ => hsome hb⟩
  | none =>
      have herror : p (.numbered i last ks) = _ := hnone hks
      refine ⟨fun h => (nomatch herror.symm.trans h), fun h => ?_⟩
      obtain rfl := Except.error.inj (herror.symm.trans h)
      refine ⟨[], ks, _, rfl, rfl, fun other hother => ?_, fun hne => absurd rfl hne⟩
      rw [List.nil_append, hnone (by rw [hother, hks]), hother]

section Accept

variable {wanted : Expectation} {g : TokenKind → Option α}

theorem accept_numbered_some (hk : g k = some a) : accept wanted g (.numbered i last (k :: ks)) =
    .ok (a, .numbered (i + 1) (.ordinal i) ks) := by
  rw [Cursor.numbered_cons, accept]
  dsimp only
  rw [hk]
  rfl

theorem accept_numbered_none (hk : ks.head?.bind g = none) : accept wanted g (.numbered i last ks) =
    .error ⟨.unexpected wanted ks.head?, i, i⟩ := by
  have hfault : (Cursor.numbered i last ks).fault wanted = _ := Cursor.fault_numbered wanted
  rw [← hfault]
  cases ks with
  | nil => rfl
  | cons k ks =>
      have hk : g k = none := hk
      rw [accept, Cursor.numbered_cons]
      dsimp only
      rw [hk]

theorem predictive_accept (hk : g k = some a) (hwritable : k.Writable) :
    Predictive n M (some k) (accept wanted g) :=
  predictive_of_head accept_numbered_some accept_numbered_none hk hwritable

end Accept

theorem predictive_punct (m : Punct) : Predictive n M (some (.punct m)) (punct m) :=
  predictive_accept (if_pos (beq_self_eq_true _)) trivial

theorem predictive_keyword {text : String} (h : IsName text) :
    Predictive n M (some (.name text)) (keyword text) :=
  predictive_accept (if_pos (beq_self_eq_true _)) h

theorem located_eq_error {p : Parser (Span → α)} {c : Cursor} {e : SyntaxError} :
    located p c = .error e ↔ p c = .error e := by
  unfold Parser.located
  cases p c with
  | error e' => simp
  | ok x => simp

theorem ForeseesAt.located {p : Parser (Span → α)} (h : ForeseesAt M first p i last ks) :
    ForeseesAt M first (located p) i last ks := by
  refine ⟨fun hok => ?_, fun herror => ?_⟩
  · obtain ⟨g, hg, rfl⟩ := located_eq_ok hok
    obtain ⟨taken, rest, last', hks, rfl, hne, htake⟩ := h.ok hg
    refine ⟨taken, rest, last', hks, rfl, hne, ?_⟩
    rw [Cursor.headSpan_numbered]
    exact htake.located
  · obtain ⟨taken, rest, fault, hks, he, hsame, hmore⟩ := h.error (located_eq_error.mp herror)
    refine ⟨taken, rest, fault, hks, he,
      fun other hother => located_eq_error.mpr (hsame other hother), fun hne => ?_⟩
    obtain ⟨more, hwritable, g, last', htake⟩ := hmore hne
    exact ⟨more, hwritable, _, last', htake.located⟩

theorem Predictive.located {p : Parser (Span → α)} (h : Predictive n M first p) :
    Predictive n M first (located p) := by
  refine ⟨fun i last ks hn => (h.foresees i last ks hn).located, fun i last => ?_⟩
  obtain ⟨ks, hhead, hwritable, g, last', htake⟩ := h.starts i last
  exact ⟨ks, hhead, hwritable, _, last', htake.located⟩

section Branch

variable {test : TokenKind → Bool}

theorem ahead_numbered (test : TokenKind → Bool) :
    ahead test (.numbered i last ks) = ks.head?.elim false test := by
  rw [ahead, Cursor.head?_numbered]

theorem branch_numbered_true (h : ks.head?.elim false test = true) :
    branch test p q (.numbered i last ks) = p (.numbered i last ks) := by
  rw [branch, ahead_numbered, if_pos h]

theorem branch_numbered_false (h : ks.head?.elim false test = false) :
    branch test p q (.numbered i last ks) = q (.numbered i last ks) := by
  rw [branch, ahead_numbered, if_neg (Bool.eq_false_iff.mp h)]

theorem elim_of_clear (h : Clear {k | test k = true} ks) : ks.head?.elim false test = false := by
  cases hk : ks.head? with
  | none => rfl
  | some k => exact Bool.eq_false_iff.mpr (h k hk)

theorem ForeseesAt.congr (h : ForeseesAt M first p i last ks) (hq : ∀ other,
    other.head? = ks.head? ∨ (first = none ∧ Clear M other) →
      q (.numbered i last other) = p (.numbered i last other)) : ForeseesAt M first q i last ks := by
  have hfront {taken rest : List TokenKind} (hks : ks = taken ++ rest) (hne : taken ≠ [])
      (other : List TokenKind) : (taken ++ other).head? = ks.head? := by
    rw [hks, head?_append_of_cons hne]
  refine ⟨fun hok => ?_, fun herror => ?_⟩
  · rw [hq ks (Or.inl rfl)] at hok
    obtain ⟨taken, rest, last', hks, hc, hnone, htake⟩ := h.ok hok
    refine ⟨taken, rest, last', hks, hc, hnone, fun other hother => ?_⟩
    rw [hq _ ?_, htake other hother]
    by_cases hne : taken = []
    · subst hne hks
      exact hother.imp_right fun hclear => ⟨hnone rfl, hclear⟩
    · exact Or.inl (hfront hks hne other)
  · rw [hq ks (Or.inl rfl)] at herror
    obtain ⟨taken, rest, fault, hks, he, hsame, hmore⟩ := h.error herror
    refine ⟨taken, rest, fault, hks, he, fun other hother => ?_, fun hne => ?_⟩
    · rw [hq _ (Or.inl ?_), hsame other hother]
      rw [hks, head?_append_congr hother]
    · obtain ⟨more, hwritable, a, last', htake⟩ := hmore hne
      refine ⟨more, hwritable, a, last', fun other hother => ?_⟩
      rw [hq _ (Or.inl ?_), htake other hother]
      rw [List.append_assoc, hfront hks hne]

theorem ForeseesAt.branch (hp : ForeseesAt M (some k) p i last ks)
    (hq : ForeseesAt M first q i last ks) (htest : Joins {k | test k = true} M first) :
    ForeseesAt M first (branch test p q) i last ks := by
  cases ht : ks.head?.elim false test with
  | true =>
      refine ForeseesAt.of_some (hp.congr fun other hother => branch_numbered_true ?_)
      rw [hother.resolve_right nofun, ht]
  | false =>
      refine hq.congr fun other hother => branch_numbered_false ?_
      rcases hother with hsame | ⟨rfl, hclear⟩
      · rw [hsame, ht]
      · exact elim_of_clear (hclear.mono htest)

theorem Starts.branch (hq : Starts M first q) (htest : Joins {k | test k = true} M first) :
    Starts M first (branch test p q) := by
  intro i last
  obtain ⟨ks, hhead, hwritable, a, last', htake⟩ := hq i last
  refine ⟨ks, hhead, hwritable, a, last', fun other hother => ?_⟩
  rw [branch_numbered_false (elim_of_clear (htest.clear hhead hother)), htake other hother]

theorem Predictive.branch (hp : Predictive n M (some k) p) (hq : Predictive n M first q)
    (htest : Joins {k | test k = true} M first) : Predictive n M first (branch test p q) :=
  ⟨fun i last ks hn => (hp.foresees i last ks hn).branch (hq.foresees i last ks hn) htest,
    hq.starts.branch htest⟩

theorem joins_isPunct {mark : Punct} (hmark : .punct mark ∈ M) :
    Joins {k | isPunct mark k = true} M none := by
  intro k hk
  rwa [eq_punct_of_isPunct hk]

theorem Predictive.whenPunct {mark : Punct} (hp : Predictive n M (some k) p) (hmark : .punct mark ∈ M) :
    Predictive n M none (whenPunct mark p a) :=
  hp.branch (predictive_pure a) (joins_isPunct hmark)

end Branch

section Loop

variable {test : TokenKind → Bool} {item : Parser α} {hi : Consumes item}

theorem loop_eq_branch : loop (ahead test) item hi =
    branch test (do let a ← item; let as ← loop (ahead test) item hi; return a :: as)
      (Pure.pure []) := by
  funext c
  simp only [branch, Bind.bind, Parser.bind, loop_step _ item hi c]
  cases ahead test c with
  | false => rfl
  | true =>
      cases item c with
      | error e => rfl
      | ok x =>
          simp only [if_true]
          cases loop (ahead test) item hi x.2 <;> rfl

theorem starts_loop (htest : Joins {k | test k = true} M none) :
    Starts M none (loop (ahead test) item hi) := by
  rw [loop_eq_branch]
  exact (starts_pure []).branch htest

theorem Predictive.loop (hitem : Predictive n M (some k) item)
    (htest : Joins {k | test k = true} M none) : Predictive n M none (loop (ahead test) item hi) := by
  have hjoins (a : List α) : Joins M M none := joins_none subset_rfl
  have hpure (a : α) (as : List α) : Starts M none (Pure.pure (a :: as)) := starts_pure _
  refine ⟨fun i last ks hn => ?_, starts_loop htest⟩
  induction hm : ks.length using Nat.strongRecOn generalizing i last ks with
  | _ m ih =>
      rw [loop_eq_branch]
      refine .branch (k := k) ((hitem.foresees i last ks hn).bind ?_
        (fun a => (starts_loop htest).bind (hpure a) hjoins fun _ => rfl)
        (fun _ => joins_none subset_rfl) fun _ => rfl) (foreseesAt_pure []) htest
      intro a c hok j last' rest hc hle
      have hlt := hi _ _ _ hok
      rw [hc, Cursor.length_numbered, Cursor.length_numbered, hm] at hlt
      exact (ih _ hlt j last' rest (hle.trans hn) rfl).bind (fun _ _ _ _ _ _ => foreseesAt_pure _)
        (hpure a) hjoins fun _ => rfl

end Loop

section Enclosed

variable {item : Parser α} {hi : Consumes item} {right mark : Punct}

def closed (right : Punct) (item : Parser α) (hi : Consumes item) (g : List α → β) : Parser β := do
  let items ← loop (fun c => !ahead (isPunct right) c) item hi
  punct right
  return g items

theorem closed_eq_branch (g : List α → β) : closed right item hi g =
    branch (isPunct right) (do punct right; return g [])
      (do let a ← item; closed right item hi fun as => g (a :: as)) := by
  funext c
  simp only [closed, branch, Bind.bind, Parser.bind, loop_step _ item hi c]
  cases ahead (isPunct right) c with
  | true => rfl
  | false =>
      cases item c with
      | error e => rfl
      | ok x =>
          simp only [Bool.not_false, if_true, Bool.false_eq_true, if_false]
          cases loop (fun c => !ahead (isPunct right) c) item hi x.2 <;> rfl

theorem starts_closed (g : List α → β) : Starts M (some (.punct right)) (closed right item hi g) := by
  intro i last
  refine ⟨[.punct right], rfl, .punct .nil, g [], .ordinal i, fun rest _ => ?_⟩
  rw [List.singleton_append, closed_eq_branch, branch_numbered_true (beq_self_eq_true _)]
  exact bind_eq (accept_numbered_some (if_pos (beq_self_eq_true _)))

theorem Predictive.closed (hitem : Predictive n M (some k) item) (hright : .punct right ∉ M)
    (hk : isPunct right k ≠ true) (g : List α → β) :
    Predictive n M' (some (.punct right)) (closed right item hi g) := by
  refine ⟨fun i last ks hn => ?_, starts_closed g⟩
  induction hm : ks.length using Nat.strongRecOn generalizing i last ks g with
  | _ m ih =>
      have hend : Predictive n M' (some (.punct right)) (do punct right; return g []) :=
        (predictive_punct right).map
      have hmore : ForeseesAt M' (some k)
          (do let a ← item; Parser.closed right item hi fun as => g (a :: as)) i last ks := by
        refine (hitem.foresees i last ks hn).bind ?_ (fun _ => starts_closed _) (fun _ => hright)
          fun _ => rfl
        intro a c hok j last' rest hc hle
        have hlt := hi _ _ _ hok
        rw [hc, Cursor.length_numbered, Cursor.length_numbered, hm] at hlt
        exact ih _ hlt _ j last' rest (hle.trans hn) rfl
      rw [closed_eq_branch]
      exact .of_some ((hend.foresees i last ks hn).branch hmore hk)

theorem Predictive.enclosed (hitem : Predictive n M (some k) item) (hright : .punct right ∉ M)
    (hk : isPunct right k ≠ true) (left : Punct) :
    Predictive n M' (some (.punct left)) (enclosed left right item hi) :=
  (predictive_punct left).andThen fun _ => hitem.closed hright hk id

theorem Predictive.enclosed1 (hitem : Predictive n M (some k) item) (hright : .punct right ∉ M)
    (hk : isPunct right k ≠ true) (left : Punct) :
    Predictive n M' (some (.punct left)) (enclosed1 left right item hi) :=
  (predictive_punct left).andThen fun _ => hitem.bind
    (fun a => hitem.closed hright hk fun as => a :: as) (fun _ => hright) fun _ => rfl

theorem Predictive.preceded (hitem : Predictive n M first item) (mark : Punct) :
    Predictive n M (some (.punct mark)) (preceded mark item) :=
  (predictive_punct mark).andThen fun _ => hitem

theorem Predictive.separated (hitem : Predictive n M (some k) item) (hmark : .punct mark ∈ M)
    (hk : isPunct mark k ≠ true) : Predictive n M (some k) (separated mark item hi) := by
  have hskip : Predictive n {k | isPunct mark k = true} none (skipPunct mark) :=
    (predictive_punct mark).whenPunct (beq_self_eq_true _)
  have hloop : Predictive n M none (Parser.loop (ahead (isPunct mark)) (Parser.preceded mark item)
      (consumes_preceded hi.keeps)) :=
    (hitem.preceded mark).loop (joins_isPunct hmark)
  exact hskip.skip (fun _ => hitem.trail fun a => hloop.map) hk

end Enclosed

end Parser

end SchemaGraph
