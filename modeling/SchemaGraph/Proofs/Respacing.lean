import SchemaGraph.Proofs.FirstFault

namespace SchemaGraph

open Text (Span Position slice)

structure Spacing (n : Nat) (gaps : List (List Char)) (tail : List Char) : Prop where
  length : gaps.length = n
  gap : ∀ g ∈ gaps, IsGap g
  inner : ∀ g ∈ gaps.tail, g ≠ []
  tail : IsTail tail

def spaced (source : String) (gaps : List (List Char)) (ts : List Token) : List Char :=
  (gaps.zip ts).flatMap fun (gap, t) => gap ++ (slice source t.span.start t.span.stop).toList

def Tokens.respaced (ts : Tokens) (source : String) (gaps : List (List Char)) (tail : List Char) :
    String :=
  .ofList (spaced source gaps ts.items ++ tail)

def Ignored (c : Char) : Prop := isIgnorable c = true ∨ c = '#'

theorem IsGap.ignored {cs : List Char} (h : IsGap cs) : ∀ c ∈ cs.head?, Ignored c := by
  cases h with
  | nil => exact nofun
  | char hc _ => exact fun c h => Or.inl (Option.some.inj h ▸ hc)
  | comment _ _ => exact fun c h => Or.inr (Option.some.inj h).symm

theorem IsTail.ignored {cs : List Char} (h : IsTail cs) : ∀ c ∈ cs.head?, Ignored c := by
  rcases h with h | ⟨gap, body, rfl, hgap, -⟩
  · exact h.ignored
  · cases hgap with
    | nil => exact fun c h => Or.inr (Option.some.inj h).symm
    | char hc _ => exact fun c h => Or.inl (Option.some.inj h ▸ hc)
    | comment _ _ => exact fun c h => Or.inr (Option.some.inj h).symm

def Piece.regap (gap : List Char) (p : Piece) : Piece := { p with gap }

section Regap

variable {n : Nat} {gaps : List (List Char)} {tail rest : List Char} {ps : List Piece}

theorem kinds_regap (h : gaps.length = ps.length) :
    (List.zipWith Piece.regap gaps ps).map Piece.kind = ps.map Piece.kind := by
  induction gaps generalizing ps with
  | nil => rw [List.length_eq_zero_iff.mp h.symm]; rfl
  | cons gap gaps ih =>
      cases ps with
      | nil => exact nomatch h
      | cons p ps => rw [List.zipWith_cons_cons, List.map_cons, ih (Nat.succ.inj h)]; rfl

theorem laid_regap (hlaid : Laid rest ps) (hs : Spacing ps.length gaps tail) :
    Laid tail (List.zipWith Piece.regap gaps ps) := by
  induction hlaid generalizing gaps with
  | nil => rw [List.zipWith_nil_right]; exact .nil
  | @cons p ps _ text _ _ ih =>
      obtain ⟨gap, gaps, rfl⟩ := List.exists_cons_of_length_eq_add_one hs.length
      have hinner (g : List Char) (hg : g ∈ gaps) : IsGap g := hs.gap g (List.mem_cons_of_mem _ hg)
      rw [List.zipWith_cons_cons]
      refine .cons (hs.gap gap List.mem_cons_self) text ?_ (ih ⟨Nat.succ.inj hs.length, hinner,
        fun g hg => hs.inner g (List.mem_of_mem_tail hg), hs.tail⟩)
      have hignored : ∀ c ∈ (Piece.allChars (List.zipWith Piece.regap gaps ps) ++ tail).head?, Ignored c := by
        cases gaps with
        | nil => exact hs.tail.ignored
        | cons g gaps =>
            cases ps with
            | nil => exact hs.tail.ignored
            | cons q ps =>
                obtain ⟨c, cs, rfl⟩ := List.exists_cons_of_ne_nil (hs.inner g List.mem_cons_self)
                exact (hinner _ List.mem_cons_self).ignored
      change p.kind.Stops _
      cases hc : (Piece.allChars (List.zipWith Piece.regap gaps ps) ++ tail).head? with
      | none => exact p.kind.stops_none
      | some c => exact p.kind.stops_of_ignorable (hignored c hc)

theorem spaced_tokens {source : String} {a : List Char}
    (hs : source.toList = a ++ (Piece.allChars ps ++ rest)) (gaps : List (List Char)) :
    spaced source gaps (Piece.tokens (Position.start.after a) ps) =
      Piece.allChars (List.zipWith Piece.regap gaps ps) := by
  induction ps generalizing a gaps with
  | nil => rw [List.zipWith_nil_right, Piece.tokens, spaced, List.zip_nil_right]; rfl
  | cons p ps ih =>
      cases gaps with
      | nil => rfl
      | cons gap gaps =>
          have hnext : source.toList = (a ++ p.chars) ++ (Piece.allChars ps ++ rest) := by
            rw [hs, Piece.allChars_cons]
            simp only [List.append_assoc]
          have htext : slice source (p.token (Position.start.after a)).span.start
              (p.token (Position.start.after a)).span.stop = String.ofList p.text := by
            rw [Piece.start_token, Piece.stop_token, Position.offset_start_after,
              ← String.utf8Len_append, ← String.utf8Len_append, Piece.chars, ← List.append_assoc]
            refine Text.slice_of_append (b := Piece.allChars ps ++ rest) ?_
            rw [hnext, Piece.chars]
            simp only [List.append_assoc]
          rw [Piece.tokens, spaced, List.zip_cons_cons, List.flatMap_cons, List.zipWith_cons_cons,
            Piece.allChars_cons, ← ih hnext gaps, Position.after_append]
          dsimp only
          rw [htext, String.toList_ofList]
          rfl

end Regap

theorem exists_tokens_respaced {source : String} {ts : Tokens} {gaps : List (List Char)}
    {tail : List Char} (hs : tokenize source = .ok ts) (hspacing : Spacing ts.items.length gaps tail) :
    ∃ ts', tokenize (ts.respaced source gaps tail) = .ok ts' ∧ ts'.kinds = ts.kinds := by
  obtain ⟨ps, rest, happ, hlaid, -, rfl⟩ := tokenizeFrom_eq_ok_iff.mp hs
  have hlen : (Piece.tokens .start ps).length = ps.length := by
    rw [← List.length_map Token.kind, Piece.kinds_tokens, List.length_map]
  rw [hlen] at hspacing
  have htext : (⟨Piece.tokens .start ps, Position.start.after source.toList⟩ : Tokens).respaced
      source gaps tail = .ofList (Piece.allChars (List.zipWith Piece.regap gaps ps) ++ tail) := by
    rw [Tokens.respaced]
    exact congrArg (fun cs => String.ofList (cs ++ tail)) (spaced_tokens (a := []) happ gaps)
  refine ⟨_, tokenizeFrom_eq_ok_iff.mpr ⟨List.zipWith Piece.regap gaps ps, tail, ?_,
    laid_regap hlaid hspacing, hspacing.tail, rfl⟩, ?_⟩
  · rw [htext, String.toList_ofList]
  · rw [Tokens.kinds, Tokens.kinds, Piece.kinds_tokens, Piece.kinds_tokens, kinds_regap hspacing.length]

namespace Document

variable {source source' : String} {ts ts' : Tokens} {gaps : List (List Char)} {tail : List Char}

def ReadAlike (source : String) (ts : Tokens) (source' : String) (ts' : Tokens) : Prop :=
  match parse source, parse source' with
  | .ok d, .ok d' => d'.bare = d.bare
  | .error e, .error e' =>
      e'.fault = e.fault ∧ ∃ i ≤ ts.items.length, e.PointsAt ts i ∧ e'.PointsAt ts' i
  | _, _ => False

theorem readAlike_of_kinds (hs : tokenize source = .ok ts) (hs' : tokenize source' = .ok ts')
    (hks : ts'.kinds = ts.kinds) : ReadAlike source ts source' ts' := by
  unfold ReadAlike
  cases hrun : ofKinds ts.kinds with
  | ok d₀ =>
      have hd := parse_eq_ok_of_kinds hs rfl hrun
      have hd' := parse_eq_ok_of_kinds hs' hks hrun
      have hbare := parse_bare hs
      have hbare' := parse_bare hs'
      rw [hd] at hbare
      rw [hd'] at hbare'
      obtain ⟨c, hc⟩ := hbare
      obtain ⟨c', hc'⟩ := hbare'
      have hsame := hc.symm.trans ((congrArg (fun ks => Parser.document (.bare ks)) hks.symm).trans hc')
      rw [hd, hd']
      exact congrArg Document.mk (Prod.mk.inj (Except.ok.inj hsame)).1.symm
  | error e₀ =>
      obtain ⟨taken, rest, fault, hsplit, rfl, -, -⟩ := ofKinds_error hrun
      have hlen : taken.length ≤ ts.kinds.length := by
        rw [hsplit, List.length_append]
        exact Nat.le_add_right _ _
      obtain ⟨e, he, hfault, hpoints⟩ := parse_eq_error_of_kinds hs hlen hrun
      obtain ⟨e', he', hfault', hpoints'⟩ := parse_eq_error_of_kinds hs' (hks ▸ hlen) (hks ▸ hrun)
      rw [he, he']
      exact ⟨hfault'.trans hfault.symm, taken.length, ts.length_kinds ▸ hlen, hpoints, hpoints'⟩

theorem readAlike_respaced (hs : tokenize source = .ok ts)
    (hspacing : Spacing ts.items.length gaps tail) :
    ∃ ts', tokenize (ts.respaced source gaps tail) = .ok ts' ∧ ts'.kinds = ts.kinds ∧
      ReadAlike source ts (ts.respaced source gaps tail) ts' := by
  obtain ⟨ts', hs', hks⟩ := exists_tokens_respaced hs hspacing
  exact ⟨ts', hs', hks, readAlike_of_kinds hs hs' hks⟩

theorem readAlike_respaced_scalar : ∃ ts, tokenize "scalar Day@x" = .ok ts ∧
    Spacing ts.items.length [['#', 'a', '\n'], [','], ['\t'], ['#', '\n', ' ']] ['#', 'b'] ∧
    ∃ ts', tokenize "#a\nscalar,Day\t@#\n x#b" = .ok ts' ∧ ts'.kinds = ts.kinds ∧
      ReadAlike "scalar Day@x" ts "#a\nscalar,Day\t@#\n x#b" ts' := by
  have hcompute : (tokenize "scalar Day@x").toOption.map (fun ts => (ts.items.length,
      ts.respaced "scalar Day@x" [['#', 'a', '\n'], [','], ['\t'], ['#', '\n', ' ']] ['#', 'b'])) =
      some (4, "#a\nscalar,Day\t@#\n x#b") := by decide +kernel
  cases hs : tokenize "scalar Day@x" with
  | error e =>
      rw [hs] at hcompute
      cases hcompute
  | ok ts =>
      rw [hs] at hcompute
      obtain ⟨hlength, htext⟩ := Prod.mk.inj (Option.some.inj hcompute)
      have hspacing : Spacing ts.items.length
          [['#', 'a', '\n'], [','], ['\t'], ['#', '\n', ' ']] ['#', 'b'] := by
        refine ⟨hlength.symm, ?_, by decide, Or.inr ⟨[], ['b'], rfl, .nil, by decide⟩⟩
        simp only [List.forall_mem_cons]
        exact ⟨@IsGap.comment ['a'] [] (by decide) .nil, .char rfl .nil, .char rfl .nil,
          @IsGap.comment [] [' '] (by decide) (.char rfl .nil), List.forall_mem_nil _⟩
      have halike := readAlike_respaced hs hspacing
      rw [htext] at halike
      exact ⟨ts, rfl, hspacing, halike⟩

end Document

end SchemaGraph
