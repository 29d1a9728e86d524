import SchemaGraph.Proofs.Foresight

namespace SchemaGraph

open Text (Span Position)

theorem Laid.front {rest : List Char} {ps qs : List Piece} (h : Laid rest (ps ++ qs)) :
    Laid (Piece.allChars qs ++ rest) ps := by
  induction ps with
  | nil => exact .nil
  | cons p ps ih =>
      cases h with
      | cons gap text stops h =>
          refine .cons gap text ?_ (ih h)
          rwa [List.append_eq, Piece.allChars_append, List.append_assoc] at stops

theorem Laid.back {rest : List Char} {ps qs : List Piece} (h : Laid rest (ps ++ qs)) : Laid rest qs := by
  induction ps with
  | nil => exact h
  | cons p ps ih =>
      cases h with
      | cons _ _ _ h => exact ih h

theorem Laid.append {rest : List Char} {ps qs : List Piece} (h : Laid (Piece.allChars qs ++ rest) ps)
    (hqs : Laid rest qs) : Laid rest (ps ++ qs) := by
  induction h with
  | nil => exact hqs
  | cons gap text stops _ ih =>
      refine .cons gap text ?_ ih
      rwa [List.append_eq, Piece.allChars_append, List.append_assoc]

theorem exists_source_of_tokenize {source : String} {ts : Tokens} (hs : tokenize source = .ok ts)
    {taken rest more : List TokenKind} (hks : ts.kinds = taken ++ rest) (hmore : AllWritable more) :
    ∃ source' ts', tokenize source' = .ok ts' ∧ ts'.kinds = taken ++ more := by
  obtain ⟨ps, tail, happ, hlaid, htail, rfl⟩ := tokenizeFrom_eq_ok_iff.mp hs
  obtain ⟨qs, hqs, hlaid', hspace⟩ := exists_pieces hmore
  have hkinds : ps.map Piece.kind = taken ++ rest := by
    rw [← hks, Tokens.kinds, Piece.kinds_tokens]
  obtain ⟨front, back, rfl, hfront, -⟩ := List.map_eq_append_iff.mp hkinds
  have hnext : Laid (Piece.allChars qs ++ []) front := by
    refine hlaid.front.swap (Or.inr fun c hc => Or.inl ?_)
    rw [List.append_nil] at hc
    rw [hspace c hc]
    rfl
  refine ⟨String.ofList (Piece.allChars (front ++ qs)), _, tokenizeFrom_eq_ok_iff.mpr
    ⟨front ++ qs, [], ?_, hnext.append hlaid', IsGap.nil.isTail, rfl⟩, ?_⟩
  · rw [String.toList_ofList, List.append_nil]
  · rw [Tokens.kinds, Piece.kinds_tokens, List.map_append, hfront, hqs]

namespace Tokens

def AgreeOn (n : Nat) (ts ts' : Tokens) : Prop := ∀ j < n, ts'.marks[j]? = ts.marks[j]?

theorem getElem?_marks (ts : Tokens) (j : Nat) :
    ts.marks[j]? = if j ≤ ts.kinds.length then some ts.kinds[j]? else none := by
  unfold marks
  split
  · rename_i hle
    rcases hle.lt_or_eq with hlt | rfl
    · rw [List.getElem?_append_left (by rwa [List.length_map]), List.getElem?_map,
        List.getElem?_eq_getElem hlt]
      rfl
    · simp
  · rename_i hlt
    rw [List.getElem?_eq_none_iff, List.length_append, List.length_map, List.length_singleton]
    omega

variable {ts ts' : Tokens} {taken rest rest' : List TokenKind}

theorem agreeOn_append (hks : ts.kinds = taken ++ rest) (hks' : ts'.kinds = taken ++ rest') :
    AgreeOn taken.length ts ts' := by
  intro j hj
  rw [getElem?_marks, getElem?_marks, hks, hks', List.getElem?_append_left hj,
    List.getElem?_append_left hj, if_pos, if_pos]
  · rw [List.length_append]
    omega
  · rw [List.length_append]
    omega

theorem AgreeOn.exists_append (h : AgreeOn (taken.length + 1) ts ts') (hks : ts.kinds = taken ++ rest) :
    ∃ rest', ts'.kinds = taken ++ rest' ∧ rest'.head? = rest.head? := by
  have hat (j : Nat) (hj : j ≤ taken.length) :
      j ≤ ts'.kinds.length ∧ ts'.kinds[j]? = ts.kinds[j]? := by
    have hlen : j ≤ ts.kinds.length := by
      rw [hks, List.length_append]
      omega
    have hj := h j (Nat.lt_succ_of_le hj)
    rw [getElem?_marks, getElem?_marks, if_pos hlen] at hj
    split at hj
    · exact ⟨by assumption, Option.some.inj hj⟩
    · exact nomatch hj
  refine ⟨ts'.kinds.drop taken.length, ?_, ?_⟩
  · have htake : ts'.kinds.take taken.length = taken := by
      refine List.ext_getElem? fun j => ?_
      by_cases hj : j < taken.length
      · rw [List.getElem?_take_of_lt hj, (hat j hj.le).2, hks, List.getElem?_append_left hj]
      · rw [List.getElem?_eq_none, List.getElem?_eq_none]
        · omega
        · rw [List.length_take]
          omega
    conv_lhs => rw [← List.take_append_drop taken.length ts'.kinds, htake]
  · rw [List.head?_drop, (hat _ (Nat.le_refl _)).2, hks, List.getElem?_append_right (Nat.le_refl _),
      Nat.sub_self, List.head?_eq_getElem?]

end Tokens

namespace Document

variable {ks : List TokenKind} {e : SyntaxError}

theorem ofKinds_eq_ok {definitions : List Definition} {c : Cursor}
    (h : Parser.document (.numbered 0 .nowhere ks) = .ok (definitions, c)) :
    ofKinds ks = .ok ⟨definitions⟩ := by
  rw [ofKinds, h]
  rfl

theorem ofKinds_eq_error_iff :
    ofKinds ks = .error e ↔ Parser.document (.numbered 0 .nowhere ks) = .error e := by
  unfold ofKinds
  cases Parser.document (.numbered 0 .nowhere ks) <;> simp [Except.map]

theorem ofKinds_error (h : ofKinds ks = .error e) : ∃ taken rest fault, ks = taken ++ rest ∧
    e = ⟨fault, taken.length, taken.length⟩ ∧
    (∀ other, other.head? = rest.head? → ofKinds (taken ++ other) = .error e) ∧
    ∃ more d, AllWritable more ∧ ofKinds (taken ++ more) = .ok d := by
  have hdocument := Parser.predictive_document.foresees 0 .nowhere ks (Nat.le_refl _)
  obtain ⟨taken, rest, fault, hks, he, hsame, hmore⟩ := hdocument.error (ofKinds_eq_error_iff.mp h)
  rw [Nat.zero_add] at he
  have hcompletes : ∃ more, AllWritable more ∧
      Parser.Completes Set.univ Parser.document 0 .nowhere (taken ++ more) := by
    by_cases hne : taken = []
    · obtain ⟨more, -, hwritable, hmore⟩ := (Parser.predictive_document (n := 0)).starts 0 .nowhere
      exact ⟨more, hwritable, hne ▸ hmore⟩
    · exact hmore hne
  obtain ⟨more, hwritable, definitions, last, htake⟩ := hcompletes
  have hok := htake [] (clear_nil _)
  rw [List.append_nil] at hok
  exact ⟨taken, rest, fault, hks, he,
    fun other hother => ofKinds_eq_error_iff.mpr (hsame other hother), more, _, hwritable,
    ofKinds_eq_ok hok⟩

variable {source : String} {ts : Tokens}

theorem parse_eq_ok_of_kinds {ks : List TokenKind} {d : Document} (hs : tokenize source = .ok ts)
    (hks : ts.kinds = ks) (hd : ofKinds ks = .ok d) : parse source = .ok (ts.places.document d) := by
  rw [parse_of_tokenize hs, hks, hd]

theorem parse_eq_error_of_kinds {fault : SyntaxFault} {i : Nat} (hs : tokenize source = .ok ts)
    (hi : i ≤ ts.kinds.length) (he : ofKinds ts.kinds = .error ⟨fault, i, i⟩) :
    ∃ e, parse source = .error e ∧ e.fault = fault ∧ e.PointsAt ts i := by
  refine ⟨_, ?_, rfl, SyntaxError.pointsAt_place hi fault⟩
  rw [parse_of_tokenize hs, he]

structure BlamesFirst (e : SyntaxError) (ts : Tokens) (i : Nat) : Prop where
  place : e.PointsAt ts i
  impossible : ∀ source' ts', tokenize source' = .ok ts' → ts.AgreeOn (i + 1) ts' →
    ∃ e', parse source' = .error e' ∧ e'.fault = e.fault ∧ e'.PointsAt ts' i
  possible : ∃ source' ts' d, tokenize source' = .ok ts' ∧ ts.AgreeOn i ts' ∧ parse source' = .ok d

theorem blamesFirst_of_parse (hs : tokenize source = .ok ts) (he : parse source = .error e) :
    ∃ i ≤ ts.items.length, BlamesFirst e ts i := by
  cases hks : ofKinds ts.kinds with
  | ok d => exact nomatch he.symm.trans (parse_eq_ok_of_kinds hs rfl hks)
  | error e₀ =>
      obtain ⟨taken, rest, fault, hsplit, rfl, hsame, more, d, hwritable, hd⟩ := ofKinds_error hks
      have hlen {ts' : Tokens} {rest' : List TokenKind} (h : ts'.kinds = taken ++ rest') :
          taken.length ≤ ts'.kinds.length := by
        rw [h, List.length_append]
        exact Nat.le_add_right _ _
      obtain ⟨e₁, he₁, rfl, hpoints⟩ := parse_eq_error_of_kinds hs (hlen hsplit) hks
      obtain rfl := Except.error.inj (he.symm.trans he₁)
      refine ⟨taken.length, ts.length_kinds ▸ hlen hsplit, hpoints, fun source' ts' hs' hagree => ?_, ?_⟩
      · obtain ⟨rest', hsplit', hnext⟩ := hagree.exists_append hsplit
        refine parse_eq_error_of_kinds hs' (hlen hsplit') ?_
        rw [hsplit', hsame rest' hnext]
      · obtain ⟨source', ts', hs', hsplit'⟩ := exists_source_of_tokenize hs hsplit hwritable
        exact ⟨source', ts', _, hs', Tokens.agreeOn_append hsplit hsplit',
          parse_eq_ok_of_kinds hs' hsplit' hd⟩

theorem blamesFirst_of_parse_place : ∃ ts, tokenize "directive @d on FIELD | Cat type" = .ok ts ∧
    parse "directive @d on FIELD | Cat type" = .error ⟨.unknownLocation "Cat", 1, 25⟩ ∧
    ∃ i ≤ ts.items.length, BlamesFirst ⟨.unknownLocation "Cat", 1, 25⟩ ts i := by
  have hs : (tokenize "directive @d on FIELD | Cat type").isOk = true := by decide +kernel
  have hfault : (match parse "directive @d on FIELD | Cat type" with
      | .error e => some e
      | .ok _ => none) = some ⟨.unknownLocation "Cat", 1, 25⟩ := by decide +kernel
  cases hts : tokenize "directive @d on FIELD | Cat type" with
  | error e => exact nomatch hts ▸ hs
  | ok ts =>
      cases he : parse "directive @d on FIELD | Cat type" with
      | ok d => exact nomatch (he ▸ hfault : none = some _)
      | error e =>
          rw [he] at hfault
          obtain rfl := Option.some.inj hfault
          exact ⟨ts, rfl, rfl, blamesFirst_of_parse hts he⟩

end Document

end SchemaGraph
