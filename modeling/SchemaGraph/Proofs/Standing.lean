import SchemaGraph.Proofs.ByteLexer

namespace SchemaGraph

open Text (Position byteAt? runEnd)

theorem Text.Position.after_of_notMem {cs : List Char} (h : '\n' ∉ cs) (p : Position) :
    p.after cs = ⟨p.offset + String.utf8Len cs, p.line, p.column + String.utf8Len cs⟩ := by
  induction cs generalizing p with
  | nil => rfl
  | cons c cs ih =>
      have hc : c ≠ '\n' := (List.ne_of_not_mem_cons h).symm
      rw [after_cons, ih (List.not_mem_of_not_mem_cons h), next, if_neg hc, String.utf8Len_cons]
      simp only [Nat.add_assoc, Nat.add_comm c.utf8Size]

namespace Lexer

open StringLiteral (leadByte)

section Tests

def Ascii (test : Char → Bool) : Prop := ∀ x : Char, 128 ≤ x.toNat → test x = false

variable {f g : Char → Bool}

theorem ascii_beq {c : Char} (h : c.toNat < 128) : Ascii (· == c) := by
  intro x hx
  refine beq_eq_false_iff_ne.mpr ?_
  rintro rfl
  exact absurd hx (Nat.not_le_of_lt h)

theorem Ascii.or (hf : Ascii f) (hg : Ascii g) : Ascii fun x => f x || g x := by
  intro x hx
  dsimp only
  rw [hf x hx, hg x hx]
  rfl

theorem ascii_isDigit : Ascii Char.isDigit := by
  intro x hx
  refine Bool.eq_false_iff.mpr fun h => ?_
  have hle : x.toNat ≤ 57 := of_decide_eq_true (Bool.and_eq_true_iff.mp h).2
  omega

theorem ascii_isAlpha : Ascii Char.isAlpha := by
  intro x hx
  refine Bool.eq_false_iff.mpr fun h => ?_
  rcases Bool.or_eq_true_iff.mp h with h | h
  · have hle : x.toNat ≤ 90 := (of_decide_eq_true h).2
    omega
  · have hle : x.toNat ≤ 122 := of_decide_eq_true (Bool.and_eq_true_iff.mp h).2
    omega

theorem ascii_isNameStart : Ascii isNameStart := (ascii_beq (by decide)).or ascii_isAlpha

theorem ascii_isNameChar : Ascii isNameChar :=
  (ascii_beq (by decide)).or (ascii_isAlpha.or ascii_isDigit)

theorem ascii_isBlank : Ascii isBlank :=
  (((ascii_beq (by decide)).or (ascii_beq (by decide))).or (ascii_beq (by decide))).or
    (ascii_beq (by decide))

theorem Ascii.leadByte (h : Ascii f) (c : Char) : f (leadByte c) = f c := Text.leadByte_congr h c

theorem leadByte_eq_iff {c x : Char} (hx : x.toNat < 128) : leadByte c = x ↔ c = x := by
  rw [← beq_iff_eq, (ascii_beq hx).leadByte c, beq_iff_eq]

theorem escaped?_leadByte (c : Char) :
    StringLiteral.escaped? (leadByte c) = StringLiteral.escaped? c := by
  refine Text.leadByte_congr (d := none) (fun x hx => ?_) c
  unfold StringLiteral.escaped?
  split
  all_goals first | rfl | exact absurd hx (by decide)

theorem ofChar?_leadByte (c : Char) : Punct.ofChar? (leadByte c) = Punct.ofChar? c := by
  refine Text.leadByte_congr (d := none) (fun x hx => ?_) c
  refine List.find?_eq_none.mpr fun p _ hp => ?_
  obtain rfl := beq_iff_eq.mp hp
  cases p <;> exact absurd hx (by decide)

end Tests

structure State.At (s : State) (source : String) (before cs : List Char) : Prop where
  text : source.toList = before ++ cs
  place : (⟨s.pos, s.line, s.column⟩ : Position) = Position.start.after before
  lineStart : s.lineStart ≤ s.pos

namespace State.At

variable {source : String} {s s' : State} {before cs t : List Char} {c : Char} {test : Char → Bool}

theorem start (source : String) : State.start.At source [] source.toList := ⟨rfl, rfl, Nat.le_refl 0⟩

theorem pos (h : s.At source before cs) : s.pos = String.utf8Len before := by
  rw [← Position.offset_start_after before, ← h.place]

theorem move (h : s.At source before (t ++ cs)) (ht : '\n' ∉ t) :
    (s.skip (String.utf8Len t)).At source (before ++ t) cs := by
  constructor
  · rw [h.text, List.append_assoc]
  · rw [Position.after_append, ← h.place, Position.after_of_notMem ht, Position.mk.injEq]
    have := h.lineStart
    simp only [skip, column, true_and]
    omega
  · exact h.lineStart.trans (Nat.le_add_right _ _)

theorem skip (h : s.At source before (c :: cs)) (hc : c ≠ '\n') :
    (s.skip c.utf8Size).At source (before ++ [c]) cs := by
  have := h.move (t := [c]) (by simpa using hc.symm)
  rwa [String.utf8Len_cons, String.utf8Len, Nat.zero_add] at this

theorem skipOne (h : s.At source before (c :: cs)) (hc : c.toNat < 128) (hn : c ≠ '\n') :
    (s.skip 1).At source (before ++ [c]) cs := by
  have hsize : c.utf8Size = 1 := by
    rw [← Text.length_charBytes, Text.charBytes_of_ascii hc]
    rfl
  have := h.skip hn
  rwa [hsize] at this

theorem newline (h : s.At source before ('\n' :: cs)) :
    s.newline.At source (before ++ ['\n']) cs := by
  constructor
  · rw [h.text, List.append_assoc]
    rfl
  · rw [Position.after_append, ← h.place]
    simp [State.newline, column, Position.next]
  · exact Nat.le_refl _

theorem pass (h : s.At source before (c :: cs)) : (s.pass c).At source (before ++ [c]) cs := by
  unfold State.pass
  split
  · rename_i hc
    subst hc
    exact h.newline
  · rename_i hc
    exact h.skip hc

theorem byteAt? (h : s.At source before cs) : byteAt? source s.pos = cs.head?.map leadByte := by
  rw [h.pos, Text.byteAt?_eq h.text]

theorem passes (h : s.At source before cs) (htest : Ascii test) :
    passes source test s.pos = cs.head?.elim false test := by
  rw [Lexer.passes, h.byteAt?]
  cases cs with
  | nil => rfl
  | cons c cs => exact htest.leadByte c

theorem cut (h : s.At source before (t ++ cs)) (h' : s'.At source (before ++ t) cs) :
    cut source s.pos s'.pos = .ok t := by
  rw [Lexer.cut, h.pos, h'.pos, Text.slice?_of_append h'.text]

theorem rest (h : s.At source before cs) : rest source s.pos = .ok cs := by
  have htext : source.toList = before ++ cs ++ [] := by rw [h.text, List.append_nil]
  have hend : source.utf8ByteSize = String.utf8Len (before ++ cs) := by
    rw [← h.text, String.utf8Len_toList]
  rw [Lexer.rest, Lexer.cut, h.pos, hend, Text.slice?_of_append htext]

theorem run (h : s.At source before cs) {d : Bool}
    (hd : ∀ x : Char, 128 ≤ x.toNat → test x = d) (hn : test '\n' = false) :
    State.At { s with pos := runEnd source test s.pos } source (before ++ cs.takeWhile test)
      (cs.dropWhile test) := by
  have hrun : { s with pos := runEnd source test s.pos } =
      s.skip (String.utf8Len (cs.takeWhile test)) := by
    rw [State.skip, h.pos, Text.runEnd_eq hd h.text, String.utf8Len_append]
  rw [hrun]
  refine State.At.move ?_ fun hmem => ?_
  · rwa [List.takeWhile_append_dropWhile]
  · exact absurd (List.mem_takeWhile_imp hmem) (by simp [hn])

end State.At

inductive Mirrors {α β : Type} (line column : Nat) (R : α → β → Prop) :
    Except Halt α → Except LexFault β → Prop
  | ok {a : α} {b : β} (h : R a b) : Mirrors line column R (.ok a) (.ok b)
  | error (fault : LexFault) : Mirrors line column R (refuse line column fault) (.error fault)

namespace Mirrors

variable {α β γ δ : Type} {line column : Nat} {R : α → β → Prop} {S : γ → δ → Prop}
  {m : Except Halt α} {x : Except LexFault β}

theorem bind (h : Mirrors line column R m x) {f : α → Except Halt γ} {g : β → Except LexFault δ}
    (hfg : ∀ a b, x = .ok b → R a b → Mirrors line column S (f a) (g b)) :
    Mirrors line column S (m >>= f) (x >>= g) := by
  cases h with
  | ok h => exact hfg _ _ rfl h
  | error fault => exact .error fault

theorem map (h : Mirrors line column R m x) {f : α → γ} {g : β → δ}
    (hfg : ∀ a b, R a b → S (f a) (g b)) : Mirrors line column S (m.map f) (x.map g) := by
  cases h with
  | ok h => exact .ok (hfg _ _ h)
  | error fault => exact .error fault

theorem mapRight (h : Mirrors line column R m x) {S : α → δ → Prop} {g : β → δ}
    (hg : ∀ a b, R a b → S a (g b)) : Mirrors line column S m (x.map g) := by
  cases h with
  | ok h => exact .ok (hg _ _ h)
  | error fault => exact .error fault

end Mirrors

end Lexer

end SchemaGraph
