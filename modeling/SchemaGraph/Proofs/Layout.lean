import SchemaGraph.Proofs.Lexeme

namespace SchemaGraph

inductive IsGap : List Char → Prop
  | nil : IsGap []
  | char {c : Char} {cs : List Char} (h : isIgnorable c = true) : IsGap cs → IsGap (c :: cs)
  | comment {body cs : List Char} (h : '\n' ∉ body) : IsGap cs → IsGap ('#' :: (body ++ '\n' :: cs))

def IsTail (cs : List Char) : Prop :=
  IsGap cs ∨ ∃ gap body, cs = gap ++ '#' :: body ∧ IsGap gap ∧ '\n' ∉ body

def Visible (c : Char) : Prop := isIgnorable c = false ∧ c ≠ '#'

theorem IsGap.append {a b : List Char} (ha : IsGap a) (hb : IsGap b) : IsGap (a ++ b) := by
  induction ha with
  | nil => exact hb
  | char h _ ih => exact .char h ih
  | comment h _ ih =>
      rw [List.cons_append, List.append_assoc, List.cons_append]
      exact .comment h ih

theorem IsGap.isTail {cs : List Char} (h : IsGap cs) : IsTail cs := Or.inl h

theorem IsTail.line {cs rest : List Char} (h : IsTail cs) (hr : IsGap rest) :
    IsGap (cs ++ '\n' :: rest) := by
  rcases h with h | ⟨gap, body, rfl, hg, hb⟩
  · exact h.append (.char rfl hr)
  · rw [List.append_assoc]
    exact hg.append (.comment hb hr)

theorem IsGap.append_isTail {a b : List Char} (ha : IsGap a) (hb : IsTail b) : IsTail (a ++ b) := by
  rcases hb with hb | ⟨gap, body, rfl, hg, hbody⟩
  · exact (ha.append hb).isTail
  · exact Or.inr ⟨a ++ gap, body, (List.append_assoc ..).symm, ha.append hg, hbody⟩

theorem isTail_or_visible (cs : List Char) :
    IsTail cs ∨ ∃ gap c r, cs = gap ++ c :: r ∧ IsGap gap ∧ Visible c := by
  induction hn : cs.length using Nat.strongRecOn generalizing cs with
  | _ n ih =>
      cases cs with
      | nil => exact Or.inl IsGap.nil.isTail
      | cons c cs =>
          subst hn
          -- what a gap `a` in front of a shorter text `b` makes of the whole
          have extend {a b : List Char} (ha : IsGap a) (hab : c :: cs = a ++ b)
              (hb : b.length < (c :: cs).length) : IsTail (c :: cs) ∨
                ∃ gap x r, c :: cs = gap ++ x :: r ∧ IsGap gap ∧ Visible x := by
            rw [hab]
            rcases ih _ hb b rfl with h | ⟨gap, x, r, rfl, hg, hx⟩
            · exact Or.inl (ha.append_isTail h)
            · exact Or.inr ⟨a ++ gap, x, r, (List.append_assoc ..).symm, ha.append hg, hx⟩
          by_cases hi : isIgnorable c = true
          · exact extend (.char hi .nil) rfl (Nat.lt_succ_self _)
          · by_cases hc : c = '#'
            · subst hc
              by_cases hm : '\n' ∈ cs
              · obtain ⟨body, r, rfl, hb⟩ := List.eq_append_cons_of_mem hm
                refine extend (.comment hb .nil) (b := r) (by simp) ?_
                simp only [List.length_cons, List.length_append]
                omega
              · exact Or.inl (Or.inr ⟨[], cs, rfl, .nil, hm⟩)
            · exact Or.inr ⟨[], c, cs, rfl, .nil, by simpa using hi, hc⟩

theorem splitGap_comment {body : List Char} (h : '\n' ∉ body) (cs : List Char) :
    splitGap true (body ++ '\n' :: cs) =
      (body ++ '\n' :: (splitGap false cs).1, (splitGap false cs).2) := by
  induction body with
  | nil => simp [splitGap]
  | cons c body ih =>
      rw [List.mem_cons, not_or] at h
      rw [List.cons_append, splitGap, if_pos rfl,
        show (c != '\n') = true from bne_iff_ne.mpr (Ne.symm h.1), ih h.2]
      rfl

theorem splitGap_of_not_mem {body : List Char} (h : '\n' ∉ body) : splitGap true body = (body, []) := by
  induction body with
  | nil => rfl
  | cons c body ih =>
      rw [List.mem_cons, not_or] at h
      rw [splitGap, if_pos rfl, show (c != '\n') = true from bne_iff_ne.mpr (Ne.symm h.1), ih h.2]

theorem splitGap_append_of_isGap {gap : List Char} (h : IsGap gap) (cs : List Char) :
    splitGap false (gap ++ cs) = (gap ++ (splitGap false cs).1, (splitGap false cs).2) := by
  induction h with
  | nil => rfl
  | char h _ ih =>
      rw [List.cons_append, splitGap, if_neg (by decide), if_pos h, ih]
      rfl
  | comment h _ ih =>
      rw [List.cons_append, splitGap, if_neg (by decide), if_neg (by decide), if_pos rfl,
        List.append_assoc, List.cons_append, splitGap_comment h, ih]
      simp

theorem splitGap_of_isTail {cs : List Char} (h : IsTail cs) : splitGap false cs = (cs, []) := by
  rcases h with h | ⟨gap, body, rfl, hg, hb⟩
  · have := splitGap_append_of_isGap h []
    rwa [List.append_nil, splitGap, List.append_nil] at this
  · rw [splitGap_append_of_isGap hg, splitGap, if_neg (by decide), if_neg (by decide), if_pos rfl,
      splitGap_of_not_mem hb]

theorem splitGap_of_visible {gap r : List Char} {c : Char} (h : IsGap gap) (hc : Visible c) :
    splitGap false (gap ++ c :: r) = (gap, c :: r) := by
  rw [splitGap_append_of_isGap h, splitGap, if_neg (by decide), if_neg (by simp [hc.1]),
    if_neg hc.2, List.append_nil]

theorem Token.visible_of_scan {c : Char} {cs : List Char} {l : Lexeme TokenKind}
    (h : scan c cs = .ok l) : Visible c := by
  have hc : ¬(isIgnorable c = true ∨ c = '#') := by
    intro hc
    simp only [isIgnorable, Bool.or_eq_true, beq_iff_eq] at hc
    rcases hc with (((((rfl | rfl) | rfl) | rfl) | rfl) | rfl) | rfl <;> cases h
  rw [not_or] at hc
  exact ⟨by simpa using hc.1, hc.2⟩

structure Piece where
  gap : List Char
  text : List Char
  kind : TokenKind

namespace Piece

def chars (p : Piece) : List Char := p.gap ++ p.text

def token (p : Piece) (pos : Text.Position) : Token :=
  ⟨p.kind, .between (pos.after p.gap) (pos.after p.chars)⟩

def allChars (ps : List Piece) : List Char := ps.flatMap chars

def tokens : Text.Position → List Piece → List Token
  | _, [] => []
  | pos, p :: ps => p.token pos :: tokens (pos.after p.chars) ps

@[simp] theorem allChars_nil : allChars [] = [] := rfl

@[simp] theorem allChars_cons (p : Piece) (ps : List Piece) :
    allChars (p :: ps) = p.chars ++ allChars ps := rfl

theorem allChars_append (ps qs : List Piece) : allChars (ps ++ qs) = allChars ps ++ allChars qs :=
  List.flatMap_append

theorem kinds_tokens (pos : Text.Position) (ps : List Piece) :
    (tokens pos ps).map Token.kind = ps.map kind := by
  induction ps generalizing pos with
  | nil => rfl
  | cons p ps ih => rw [tokens, List.map_cons, ih, token, List.map_cons]

end Piece

inductive Laid (rest : List Char) : List Piece → Prop
  | nil : Laid rest []
  | cons {p : Piece} {ps : List Piece} (gap : IsGap p.gap) (text : Token.Spells p.text p.kind)
      (stops : p.kind.Stops (Piece.allChars ps ++ rest).head?) : Laid rest ps → Laid rest (p :: ps)

variable {rest : List Char} {ps : List Piece} {pos : Text.Position}

theorem tokenizeFrom_step (pos : Text.Position) (cs : List Char) : tokenizeFrom pos cs =
    match splitGap false cs with
    | (gap, []) => .ok ⟨[], pos.after gap⟩
    | (gap, c :: r) =>
        match Token.scan c r with
        | .error fault => .error ⟨fault, pos.after gap⟩
        | .ok l => (tokenizeFrom ((pos.after gap).after l.text) l.rest).map fun ts =>
            { ts with items :=
              ⟨l.value, .between (pos.after gap) ((pos.after gap).after l.text)⟩ :: ts.items } := by
  rw [tokenizeFrom]
  dsimp only
  rw [show splitGap false cs = ((splitGap false cs).1, (splitGap false cs).2) from rfl]
  split
  · rename_i h
    rw [h]
  · rename_i c r h
    rw [h]
    dsimp only
    split
    · rename_i hs
      rw [hs]
    · rename_i hs
      rw [hs]

theorem tokenizeFrom_of_isTail (h : IsTail rest) : tokenizeFrom pos rest = .ok ⟨[], pos.after rest⟩ := by
  rw [tokenizeFrom_step, splitGap_of_isTail h]

theorem tokenizeFrom_of_error {gap r : List Char} {c : Char} {fault : LexFault} (hg : IsGap gap)
    (hc : Visible c) (h : Token.scan c r = .error fault) :
    tokenizeFrom pos (gap ++ c :: r) = .error ⟨fault, pos.after gap⟩ := by
  rw [tokenizeFrom_step, splitGap_of_visible hg hc]
  dsimp only
  rw [h]

theorem tokenizeFrom_of_scan {gap r : List Char} {c : Char} {l : Lexeme TokenKind} (hg : IsGap gap)
    (h : Token.scan c r = .ok l) :
    tokenizeFrom pos (gap ++ c :: r) = (tokenizeFrom (pos.after (gap ++ l.text)) l.rest).map fun ts =>
      { ts with items :=
        ⟨l.value, .between (pos.after gap) (pos.after (gap ++ l.text))⟩ :: ts.items } := by
  rw [tokenizeFrom_step, splitGap_of_visible hg (Token.visible_of_scan h)]
  dsimp only
  rw [h, Text.Position.after_append]

theorem tokenizeFrom_append_of_isGap {gap : List Char} (h : IsGap gap) (pos : Text.Position)
    (cs : List Char) : tokenizeFrom pos (gap ++ cs) = tokenizeFrom (pos.after gap) cs := by
  rw [tokenizeFrom_step, tokenizeFrom_step, splitGap_append_of_isGap h]
  rcases splitGap false cs with ⟨inner, rest⟩
  cases rest with
  | nil => simp
  | cons c r => simp

theorem tokenizeFrom_append (h : Laid rest ps) :
    tokenizeFrom pos (Piece.allChars ps ++ rest) =
      (tokenizeFrom (pos.after (Piece.allChars ps)) rest).map fun ts =>
        { ts with items := Piece.tokens pos ps ++ ts.items } := by
  induction h generalizing pos with
  | nil =>
      rw [Piece.allChars_nil, List.nil_append, Text.Position.after_nil]
      cases tokenizeFrom pos rest <;> rfl
  | @cons p ps hgap htext hstops _ ih =>
      obtain ⟨c, cs, ht, hscan⟩ := htext
      have hscan' : Token.scan c (cs ++ (Piece.allChars ps ++ rest)) =
          .ok ⟨p.kind, p.text, Piece.allChars ps ++ rest⟩ :=
        Token.scan_eq_ok_iff.mpr ⟨by rw [ht]; rfl, ⟨c, cs, ht, hscan⟩, hstops⟩
      have happ : Piece.allChars (p :: ps) ++ rest =
          p.gap ++ c :: (cs ++ (Piece.allChars ps ++ rest)) := by
        simp [Piece.chars, ht]
      rw [happ, tokenizeFrom_of_scan hgap hscan']
      dsimp only
      rw [← Piece.chars, ih, Piece.allChars_cons, Text.Position.after_append]
      cases tokenizeFrom ((pos.after p.chars).after (Piece.allChars ps)) rest <;> rfl

theorem exists_layout (cs : List Char) : ∃ ps rest, cs = Piece.allChars ps ++ rest ∧ Laid rest ps ∧
    (IsTail rest ∨ ∃ gap c r fault, rest = gap ++ c :: r ∧ IsGap gap ∧ Visible c ∧
      Token.scan c r = .error fault) := by
  induction hn : cs.length using Nat.strongRecOn generalizing cs with
  | _ n ih =>
      rcases isTail_or_visible cs with h | ⟨gap, c, r, rfl, hg, hc⟩
      · exact ⟨[], cs, rfl, .nil, Or.inl h⟩
      · cases hs : Token.scan c r with
        | error fault => exact ⟨[], _, rfl, .nil, Or.inr ⟨gap, c, r, fault, rfl, hg, hc, hs⟩⟩
        | ok l =>
            obtain ⟨kind, text, left⟩ := l
            have hlt := Token.length_rest_lt_of_scan hs
            obtain ⟨happ, htext, hstops⟩ := Token.scan_eq_ok_iff.mp hs
            have hleft : left.length < n := by
              rw [← hn, List.length_append]
              exact Nat.lt_add_left _ hlt
            obtain ⟨ps, rest, rfl, hlaid, hrest⟩ := ih _ hleft left rfl
            refine ⟨⟨gap, text, kind⟩ :: ps, rest, ?_, .cons hg htext hstops hlaid, hrest⟩
            rw [happ, Piece.allChars_cons, Piece.chars]
            simp only [List.append_assoc]

theorem tokenizeFrom_eq_ok_iff {cs : List Char} {ts : Tokens} : tokenizeFrom pos cs = .ok ts ↔
    ∃ ps rest, cs = Piece.allChars ps ++ rest ∧ Laid rest ps ∧ IsTail rest ∧
      ts = ⟨Piece.tokens pos ps, pos.after cs⟩ := by
  constructor
  · intro h
    obtain ⟨ps, rest, rfl, hlaid, ht | ⟨gap, c, r, fault, rfl, hg, hc, hs⟩⟩ := exists_layout cs
    · rw [tokenizeFrom_append hlaid, tokenizeFrom_of_isTail ht] at h
      refine ⟨ps, rest, rfl, hlaid, ht, (Except.ok.inj h).symm.trans ?_⟩
      simp
    · rw [tokenizeFrom_append hlaid, tokenizeFrom_of_error hg hc hs] at h
      exact nomatch h
  · rintro ⟨ps, rest, rfl, hlaid, ht, rfl⟩
    rw [tokenizeFrom_append hlaid, tokenizeFrom_of_isTail ht]
    simp [Except.map]

theorem exists_of_tokenizeFrom_error {cs : List Char} {e : LexError}
    (h : tokenizeFrom pos cs = .error e) :
    ∃ ps gap c r, cs = Piece.allChars ps ++ (gap ++ c :: r) ∧ Laid (gap ++ c :: r) ps ∧ IsGap gap ∧
      Visible c ∧ e.place = pos.after (Piece.allChars ps ++ gap) := by
  obtain ⟨ps, rest, rfl, hlaid, ht | ⟨gap, c, r, fault, rfl, hg, hc, hs⟩⟩ := exists_layout cs
  · rw [tokenizeFrom_append hlaid, tokenizeFrom_of_isTail ht] at h
    exact nomatch h
  · rw [tokenizeFrom_append hlaid, tokenizeFrom_of_error hg hc hs] at h
    refine ⟨ps, gap, c, r, rfl, hlaid, hg, hc, ?_⟩
    rw [← Except.error.inj h, Text.Position.after_append]

theorem Laid.swap {rest' : List Char} (h : Laid rest ps) (hr : rest'.head? = rest.head? ∨
    ∀ c ∈ rest'.head?, isIgnorable c = true ∨ c = '#') : Laid rest' ps := by
  induction h with
  | nil => exact .nil
  | @cons p ps hgap htext hstops _ ih =>
      refine .cons hgap htext ?_ ih
      rw [List.head?_append] at hstops ⊢
      cases hh : (Piece.allChars ps).head? with
      | some c => simpa [hh] using hstops
      | none =>
          rw [hh, Option.none_or] at hstops
          rw [Option.none_or]
          rcases hr with hr | hr
          · rwa [hr]
          · cases hr' : rest'.head? with
            | none => exact p.kind.stops_none
            | some c => exact p.kind.stops_of_ignorable (hr c hr')

end SchemaGraph
