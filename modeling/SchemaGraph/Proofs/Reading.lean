import SchemaGraph.Sdl.Grammar

namespace SchemaGraph

open Text (Span)

def Cursor.bare (ks : List TokenKind) : Cursor :=
  ⟨ks.map (⟨·, .nowhere⟩), .nowhere, ⟨0, 0, 0⟩⟩

def Avoids (marks ks : List TokenKind) : Prop := ∀ k ∈ ks.head?, k ∉ marks

def Begins (marks ks : List TokenKind) : Prop := ∃ k ls, ks = k :: ls ∧ k ∉ marks

theorem avoids_nil (ks : List TokenKind) : Avoids [] ks := fun _ _ => List.not_mem_nil

theorem avoids_end (marks : List TokenKind) : Avoids marks [] := nofun

theorem avoids_cons {marks : List TokenKind} {k : TokenKind} (h : k ∉ marks) (ks : List TokenKind) :
    Avoids marks (k :: ks) :=
  fun _ hx => Option.some.inj hx ▸ h

theorem Avoids.append {marks ks ls : List TokenKind} (hk : Avoids marks ks) (hl : Avoids marks ls) :
    Avoids marks (ks ++ ls) := by
  cases ks with
  | nil => exact hl
  | cons k ks => exact hk

theorem Avoids.mono {marks more ks : List TokenKind} (h : Avoids more ks) (hsub : marks ⊆ more) :
    Avoids marks ks :=
  fun k hk hm => h k hk (hsub hm)

theorem Begins.avoids {marks ks : List TokenKind} (h : Begins marks ks) : Avoids marks ks := by
  obtain ⟨k, ks, rfl, hk⟩ := h
  exact avoids_cons hk _

theorem Begins.append {marks ks : List TokenKind} (h : Begins marks ks) (ls : List TokenKind) :
    Begins marks (ks ++ ls) := by
  obtain ⟨k, ks, rfl, hk⟩ := h
  exact ⟨k, ks ++ ls, rfl, hk⟩

theorem Begins.mono {marks more ks : List TokenKind} (h : Begins more ks) (hsub : marks ⊆ more) :
    Begins marks ks := by
  obtain ⟨k, ks, rfl, hk⟩ := h
  exact ⟨k, ks, rfl, fun hm => hk (hsub hm)⟩

namespace Parser

variable {α β γ : Type} {a : α} {b : β} {p : Parser α} {f : α → Parser β} {marks more : List TokenKind}
  {ks ls rest : List TokenKind}

def Reads (p : Parser α) (ks : List TokenKind) (a : α) (marks : List TokenKind) : Prop :=
  ∀ rest, Avoids marks rest → p (.bare (ks ++ rest)) = .ok (a, .bare rest)

theorem Reads.mono (h : Reads p ks a marks) (hsub : marks ⊆ more) : Reads p ks a more :=
  fun rest hrest => h rest (hrest.mono hsub)

theorem reads_pure (a : α) (marks : List TokenKind) : Reads (Pure.pure a) [] a marks :=
  fun _ _ => rfl

theorem bind_eq {c d : Cursor} (h : p c = .ok (a, d)) : (p >>= f) c = f a d := by
  change Parser.bind p f c = f a d
  rw [Parser.bind, h]

theorem Reads.seam (hp : Reads p ks a marks) (hf : Reads (f a) ls b more)
    (hseam : ∀ rest, Avoids more rest → Avoids marks (ls ++ rest)) :
    Reads (p >>= f) (ks ++ ls) b more := by
  intro rest hrest
  rw [List.append_assoc, bind_eq (hp _ (hseam rest hrest))]
  exact hf rest hrest

theorem Reads.bind (hp : Reads p ks a []) (hf : Reads (f a) ls b more) :
    Reads (p >>= f) (ks ++ ls) b more :=
  hp.seam hf fun _ _ => avoids_nil _

theorem Reads.cons {k : TokenKind} (hp : Reads p [k] a []) (hf : Reads (f a) ls b more) :
    Reads (p >>= f) (k :: ls) b more :=
  hp.bind hf

theorem Reads.before {k : TokenKind} (hp : Reads p ks a marks) (hf : Reads (f a) (k :: ls) b more)
    (hk : k ∉ marks) : Reads (p >>= f) (ks ++ k :: ls) b more :=
  hp.seam hf fun _ _ => avoids_cons hk _

theorem Reads.skip (hp : Reads p [] a marks) (hf : Reads (f a) ls b more) (hls : Begins marks ls) :
    Reads (p >>= f) ls b more :=
  hp.seam hf fun rest _ => (hls.append rest).avoids

theorem Reads.pure (hp : Reads p ks a marks) {g : α → β} :
    Reads (p >>= fun a => Pure.pure (g a)) ks (g a) marks := by
  intro rest hrest
  rw [bind_eq (hp rest hrest)]
  rfl

theorem Reads.located {p : Parser (Span → α)} {g : Span → α} (hp : Reads p ks g marks) :
    Reads (located p) ks (g .nowhere) marks := by
  intro rest hrest
  have hspan (ks : List TokenKind) : (Cursor.bare ks).headSpan = .nowhere := by cases ks <;> rfl
  rw [Parser.located, hp rest hrest]
  dsimp only
  rw [hspan]
  rfl

theorem reads_accept {k : TokenKind} {g : TokenKind → Option α} (wanted : Expectation)
    (hk : g k = some a) : Reads (accept wanted g) [k] a [] := by
  intro rest _
  change accept wanted g ⟨⟨k, .nowhere⟩ :: rest.map (⟨·, .nowhere⟩), .nowhere, ⟨0, 0, 0⟩⟩ = _
  rw [accept]
  dsimp only
  rw [hk]
  rfl

theorem reads_punct (m : Punct) : Reads (punct m) [.punct m] () [] :=
  reads_accept _ (if_pos (by simp [isPunct]))

theorem reads_keyword (text : String) : Reads (keyword text) [.name text] () [] :=
  reads_accept _ (if_pos (by simp [isKeyword]))

theorem reads_ident (text : String) : Reads ident [.name text] ⟨text, .nowhere⟩ [] :=
  fun _ _ => rfl

theorem ahead_bare {test : TokenKind → Bool} {k : TokenKind} (ks : List TokenKind) :
    ahead test (.bare (k :: ks)) = test k := rfl

theorem Reads.branch_true {test : TokenKind → Bool} {k : TokenKind} {q : Parser α}
    (hp : Reads p (k :: ks) a marks) (hk : test k = true) :
    Reads (branch test p q) (k :: ks) a marks :=
  fun rest hrest => (if_pos hk).trans (hp rest hrest)

theorem Reads.branch_false {test : TokenKind → Bool} {k : TokenKind} {q : Parser α}
    (hp : Reads p (k :: ks) a marks) (hk : test k = false) :
    Reads (branch test q p) (k :: ks) a marks :=
  fun rest hrest => (if_neg (Bool.eq_false_iff.mp hk)).trans (hp rest hrest)

theorem ahead_of_avoids {test : TokenKind → Bool} {m : TokenKind} (h : Avoids (m :: marks) ks)
    (htest : ∀ k, test k = true → k = m) : ahead test (.bare ks) = false := by
  cases ks with
  | nil => rfl
  | cons k ks =>
      exact Bool.eq_false_iff.mpr fun hk => h k rfl (htest k hk ▸ List.mem_cons_self ..)

theorem Reads.branch_else {test : TokenKind → Bool} {m : TokenKind} {q : Parser α}
    (hp : Reads p ks a marks) (htest : ∀ k, test k = true → k = m) (hks : Avoids [m] ks) :
    Reads (branch test q p) ks a (m :: marks) := by
  intro rest hrest
  have hnext : Avoids [m] (ks ++ rest) := hks.append (hrest.mono (by simp))
  refine Eq.trans (if_neg ?_) (hp rest (hrest.mono (List.subset_cons_self ..)))
  rw [ahead_of_avoids hnext htest]
  exact Bool.false_ne_true

theorem eq_punct_of_isPunct {m : Punct} {k : TokenKind} (h : isPunct m k = true) : k = .punct m := by
  simpa [isPunct] using h

theorem eq_name_of_isKeyword {text : String} {k : TokenKind} (h : isKeyword text k = true) :
    k = .name text := by
  simpa [isKeyword] using h

theorem reads_whenPunct_skip (m : Punct) (p : Parser α) (a : α) :
    Reads (whenPunct m p a) [] a [.punct m] :=
  (reads_pure a []).branch_else (fun _ => eq_punct_of_isPunct) (avoids_end _)

theorem Reads.whenPunct {m : Punct} {o : α} (hp : Reads p (.punct m :: ks) a marks) :
    Reads (whenPunct m p o) (.punct m :: ks) a marks :=
  hp.branch_true (by simp [isPunct])

variable {w : γ → List TokenKind} {g : γ → α} {as : List γ} {hi : Consumes p}

theorem loop_bare {test : Cursor → Bool} (hitem : ∀ x ∈ as, Reads p (w x) (g x) marks)
    (hseam : ∀ x ∈ as, ∀ ks, Avoids marks (w x ++ ks))
    (htest : ∀ x ∈ as, ∀ ks, test (.bare (w x ++ ks)) = true) (hrest : Avoids marks rest)
    (hstop : test (.bare rest) = false) :
    loop test p hi (.bare (as.flatMap w ++ rest)) = .ok (as.map g, .bare rest) := by
  induction as with
  | nil =>
      rw [List.flatMap_nil, List.nil_append, loop_step, hstop]
      rfl
  | cons x as ih =>
      rw [List.forall_mem_cons] at hitem hseam htest
      have hnext : Avoids marks (as.flatMap w ++ rest) := by
        cases as with
        | nil => exact hrest
        | cons y as =>
            rw [List.flatMap_cons, List.append_assoc]
            exact hseam.2 y (List.mem_cons_self ..) _
      rw [List.flatMap_cons, List.append_assoc, loop_step, htest.1, if_pos rfl, hitem.1 _ hnext]
      dsimp only
      rw [ih hitem.2 hseam.2 htest.2]
      rfl

def block (left right : Punct) (w : γ → List TokenKind) (as : List γ) : List TokenKind :=
  .punct left :: (as.flatMap w ++ [.punct right])

def block? (left right : Punct) (w : γ → List TokenKind) (as : List γ) : List TokenKind :=
  if as.isEmpty then [] else block left right w as

def joined (mark : Punct) (w : γ → List TokenKind) : List γ → List TokenKind
  | [] => []
  | x :: as => w x ++ as.flatMap fun y => .punct mark :: w y

theorem reads_until {right : Punct} (hitem : ∀ x ∈ as, Reads p (w x) (g x) marks)
    (hbegin : ∀ x ∈ as, Begins (.punct right :: marks) (w x)) (hright : .punct right ∉ marks)
    (rest : List TokenKind) :
    loop (fun c => !ahead (isPunct right) c) p hi (.bare (as.flatMap w ++ .punct right :: rest)) =
      .ok (as.map g, .bare (.punct right :: rest)) := by
  refine loop_bare hitem (fun x hx ks => ?_) (fun x hx ks => ?_) (avoids_cons hright _) ?_
  · exact ((hbegin x hx).mono (List.subset_cons_self ..)).append ks |>.avoids
  · obtain ⟨k, ls, hw, hk⟩ := hbegin x hx
    rw [hw, Bool.not_eq_true']
    refine Bool.eq_false_iff.mpr fun h => hk ?_
    obtain rfl : k = .punct right := eq_punct_of_isPunct h
    exact List.mem_cons_self ..
  · change (!isPunct right (.punct right)) = false
    simp [isPunct]

theorem reads_enclosed {left right : Punct} (hitem : ∀ x ∈ as, Reads p (w x) (g x) marks)
    (hbegin : ∀ x ∈ as, Begins (.punct right :: marks) (w x)) (hright : .punct right ∉ marks) :
    Reads (enclosed left right p hi) (block left right w as) (as.map g) [] := by
  refine (reads_punct left).cons fun rest _ => ?_
  rw [List.append_assoc, List.singleton_append, bind_eq (reads_until hitem hbegin hright rest)]
  exact (reads_punct right).pure rest (avoids_nil _)

theorem reads_enclosed1 {left right : Punct} (hitem : ∀ x ∈ as, Reads p (w x) (g x) marks)
    (hbegin : ∀ x ∈ as, Begins (.punct right :: marks) (w x)) (hright : .punct right ∉ marks)
    (hne : as ≠ []) :
    Reads (enclosed1 left right p hi) (block left right w as) (as.map g) [] := by
  obtain ⟨x, as, rfl⟩ := List.exists_cons_of_ne_nil hne
  rw [List.forall_mem_cons] at hitem hbegin
  refine (reads_punct left).cons fun rest _ => ?_
  have hnext : Avoids marks (as.flatMap w ++ .punct right :: rest) := by
    cases as with
    | nil => exact avoids_cons hright _
    | cons y as =>
        rw [List.flatMap_cons, List.append_assoc]
        exact ((hbegin.2 y (List.mem_cons_self ..)).mono (List.subset_cons_self ..)).append _ |>.avoids
  rw [List.flatMap_cons, List.append_assoc, List.append_assoc, List.singleton_append,
    bind_eq (hitem.1 _ hnext), bind_eq (reads_until hitem.2 hbegin.2 hright rest)]
  exact (reads_punct right).pure rest (avoids_nil _)

theorem reads_block? {left right : Punct} (hitem : ∀ x ∈ as, Reads p (w x) (g x) marks)
    (hbegin : ∀ x ∈ as, Begins (.punct right :: marks) (w x)) (hright : .punct right ∉ marks) :
    Reads (whenPunct left (enclosed1 left right p hi) []) (block? left right w as) (as.map g)
      [.punct left] := by
  unfold block?
  cases as with
  | nil => exact reads_whenPunct_skip left _ _
  | cons x as =>
      exact fun rest _ => (reads_enclosed1 hitem hbegin hright (List.cons_ne_nil _ _)).whenPunct rest
        (avoids_nil _)

theorem reads_while {mark : Punct} (hitem : ∀ x ∈ as, Reads p (w x) (g x) marks)
    (hbegin : ∀ x ∈ as, ∃ ls, w x = .punct mark :: ls) (hmark : .punct mark ∉ marks) :
    Reads (loop (ahead (isPunct mark)) p hi) (as.flatMap w) (as.map g) (.punct mark :: marks) := by
  intro rest hrest
  refine loop_bare hitem (fun x hx ks => ?_) (fun x hx ks => ?_)
    (hrest.mono (List.subset_cons_self ..)) (ahead_of_avoids hrest fun _ => eq_punct_of_isPunct)
  · obtain ⟨ls, hw⟩ := hbegin x hx
    rw [hw]
    exact avoids_cons hmark _
  · obtain ⟨ls, hw⟩ := hbegin x hx
    rw [hw]
    simp [ahead_bare, isPunct]

theorem reads_separated {mark : Punct} (hitem : ∀ x ∈ as, Reads p (w x) (g x) marks)
    (hbegin : ∀ x ∈ as, Begins [.punct mark] (w x)) (hmark : .punct mark ∉ marks) (hne : as ≠ []) :
    Reads (separated mark p hi) (joined mark w as) (as.map g) (.punct mark :: marks) := by
  obtain ⟨x, as, rfl⟩ := List.exists_cons_of_ne_nil hne
  rw [List.forall_mem_cons] at hitem hbegin
  have hitems : Reads (loop (ahead (isPunct mark)) (preceded mark p) (consumes_preceded hi.keeps))
      (as.flatMap fun y => .punct mark :: w y) (as.map g) (.punct mark :: marks) :=
    reads_while (fun y hy => (reads_punct mark).bind (hitem.2 y hy)) (fun _ _ => ⟨_, rfl⟩) hmark
  have hrest : Reads (p >>= fun first => loop (ahead (isPunct mark)) (preceded mark p)
      (consumes_preceded hi.keeps) >>= fun items => Pure.pure (first :: items))
      (joined mark w (x :: as)) ((x :: as).map g) (.punct mark :: marks) := by
    refine hitem.1.seam hitems.pure fun rest hrest => ?_
    cases as with
    | nil => exact hrest.mono (List.subset_cons_self ..)
    | cons y as => exact avoids_cons hmark _
  exact (reads_whenPunct_skip mark _ _).skip hrest (hbegin.1.append _)

end Parser

end SchemaGraph
