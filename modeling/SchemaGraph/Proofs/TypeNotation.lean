import SchemaGraph.Builtin.Types
import SchemaGraph.Proofs.FirstFault
import SchemaGraph.Proofs.Scope
import SchemaGraph.Proofs.Source

namespace SchemaGraph

theorem Token.spells_punct (p : Punct) : Token.Spells [p.char] (.punct p) := by
  refine ⟨p.char, [], rfl, ?_⟩
  rw [scan, Punct.ofChar?_char]

namespace TypeExpr

def markPiece (p : Punct) : Piece := ⟨[], [p.char], .punct p⟩

def pieces : TypeExpr Ident → List Piece
  | .named name => [⟨[], name.text.toList, .name name.text⟩]
  | .list t => markPiece .bracketLeft :: (t.pieces ++ [markPiece .bracketRight])
  | .nonNull t => t.pieces ++ [markPiece .bang]

theorem allChars_pieces (t : TypeExpr Ident) : Piece.allChars t.pieces = t.chars Ident.text := by
  induction t with
  | named name => simp [pieces, chars, Piece.chars]
  | list t ih => simp [pieces, chars, Piece.allChars_append, ih, markPiece, Piece.chars, Punct.char]
  | nonNull t ih => simp [pieces, chars, Piece.allChars_append, ih, markPiece, Piece.chars, Punct.char]

theorem written_list (t : TypeExpr Ident) : (TypeExpr.list t).written =
    .punct .bracketLeft :: (t.written ++ [.punct .bracketRight]) := by
  simp [written, depth, closing, leaf, List.replicate_succ]

theorem written_nonNull (t : TypeExpr Ident) :
    (TypeExpr.nonNull t).written = t.written ++ [.punct .bang] := by
  simp [written, depth, closing, leaf]

theorem kinds_pieces (t : TypeExpr Ident) : t.pieces.map Piece.kind = t.written := by
  induction t with
  | named name => rfl
  | list t ih => simp [pieces, written_list, ih, markPiece]
  | nonNull t ih => simp [pieces, written_nonNull, ih, markPiece]

theorem laid_markPiece (p : Punct) (rest : List Char) : Laid rest [markPiece p] :=
  .cons .nil (Token.spells_punct p) trivial .nil

theorem head_markPiece (p : Punct) (rest : List Char) (hp : isNameChar p.char = false) :
    ∀ c ∈ (Piece.allChars [markPiece p] ++ rest).head?, isNameChar c = false := by
  intro c hc
  exact Option.some.inj hc ▸ hp

theorem laid_pieces {t : TypeExpr Ident} (h : IsName t.leaf.text) {rest : List Char}
    (hrest : ∀ c ∈ rest.head?, isNameChar c = false) : Laid rest t.pieces := by
  induction t generalizing rest with
  | named name => exact .cons .nil (Token.spells_name h) hrest .nil
  | list t ih =>
      have hinner : Laid rest (t.pieces ++ [markPiece .bracketRight]) := by
        apply Laid.append _ (laid_markPiece _ _)
        exact ih h (head_markPiece .bracketRight rest (by decide))
      exact .cons .nil (Token.spells_punct _) trivial hinner
  | nonNull t ih =>
      apply Laid.append _ (laid_markPiece _ _)
      exact ih h (head_markPiece .bang rest (by decide))

theorem exists_tokenize {t : TypeExpr Ident} (h : IsName t.leaf.text) :
    ∃ ts, tokenize (t.render Ident.text) = .ok ts ∧ ts.items.map Token.kind = t.written := by
  have hlaid : Laid [] t.pieces := laid_pieces h nofun
  refine ⟨_, hlaid.tokenize_append IsGap.nil.isTail ?_, ?_⟩
  · rw [render, String.toList_ofList, allChars_pieces, List.append_nil]
  · rw [Piece.kinds_tokens, kinds_pieces]

theorem exists_typeExpr {t : TypeExpr Ident} (h : t.IsSimple) {ts : Tokens}
    (hk : ts.items.map Token.kind = t.written) :
    ∃ u c, Parser.typeExpr ⟨ts.items, .nowhere, ts.finish⟩ = .ok (u, c) ∧ c.rest = [] ∧
      u.map Relocation.erase.ident = t.map Relocation.erase.ident := by
  have hbare := Parser.reads_typeExpr h [] (avoids_end _)
  rw [List.append_nil] at hbare
  have hrun := Parser.carries_typeExpr (Parser.follows_bare ts)
  rw [hk, hbare] at hrun
  cases hrun' : Parser.typeExpr ⟨ts.items, .nowhere, ts.finish⟩ with
  | error e =>
      rw [hrun'] at hrun
      cases hrun with
      | error he => exact nomatch he trivial
  | ok p =>
      obtain ⟨u, c⟩ := p
      rw [hrun'] at hrun
      cases hrun with
      | ok hu hc =>
          have hrest : [] = c.rest.map Relocation.erase.token ++ [] := hc.rest
          exact ⟨u, c, rfl, by simpa using hrest, hu.symm⟩

theorem marks_of_isName {text : String} (h : IsName text) :
    text.toList.getLast? ≠ some '!' ∧ text.toList.head? ≠ some '[' := by
  have hall : ∀ c ∈ text.toList, isNameChar c = true := by
    obtain ⟨c, cs, htext, hc, hcs⟩ := h
    rw [htext]
    exact List.forall_mem_cons.mpr ⟨Token.isNameChar_of_isNameStart hc, hcs⟩
  constructor
  · intro hl
    exact absurd (hall _ (List.mem_of_getLast? hl)) (by decide)
  · intro hh
    exact absurd (hall _ (List.mem_of_mem_head? hh)) (by decide)

theorem ofCharsWithin_chars {t : TypeExpr Ident} (h : IsName t.leaf.text) {n : Nat}
    (hn : (t.chars Ident.text).length ≤ n) :
    ofCharsWithin n (t.chars Ident.text) = t.map Relocation.erase.ident := by
  induction t generalizing n with
  | named name =>
      have hname : TypeExpr.named ⟨String.ofList name.text.toList, .nowhere⟩ =
          (TypeExpr.named name).map Relocation.erase.ident := by
        rw [String.ofList_toList]
        rfl
      have hmarks : name.text.toList.getLast? ≠ some '!' ∧ name.text.toList.head? ≠ some '[' :=
        marks_of_isName h
      rw [chars, ← hname]
      cases n with
      | zero => rfl
      | succ n => rw [ofCharsWithin, if_neg hmarks.1, if_neg fun hc => hmarks.2 hc.1]
  | list t ih =>
      simp only [chars, List.length_cons, List.length_append] at hn
      obtain ⟨n, rfl⟩ : ∃ m, n = m + 1 := ⟨n - 1, by omega⟩
      have hlast : ('[' :: (t.chars Ident.text ++ [']'])).getLast? = some ']' := by
        rw [← List.cons_append, List.getLast?_append]
        rfl
      have hopen : ('[' :: (t.chars Ident.text ++ [']'])).head? = some '[' ∧
          ('[' :: (t.chars Ident.text ++ [']'])).tail.getLast? = some ']' := by simp
      rw [chars, ofCharsWithin, hlast, if_neg (by decide), if_pos hopen, List.tail_cons,
        List.dropLast_concat, ih h (by omega), map]
  | nonNull t ih =>
      simp only [chars, List.length_append] at hn
      obtain ⟨n, rfl⟩ : ∃ m, n = m + 1 := ⟨n - 1, by simp at hn; omega⟩
      have hlast : (t.chars Ident.text ++ ['!']).getLast? = some '!' := by simp
      have hlen : (t.chars Ident.text).length ≤ n := by simpa using hn
      rw [chars, ofCharsWithin, if_pos hlast, List.dropLast_concat, ih h hlen, map]

theorem ofText_render {t : TypeExpr Ident} (h : IsName t.leaf.text) :
    ofText (t.render Ident.text) = t.map Relocation.erase.ident := by
  rw [ofText, render, String.toList_ofList]
  exact ofCharsWithin_chars h (Nat.le_refl _)

end TypeExpr

namespace Scope

theorem renderType_map {α : Type} (f : α → Ref) (t : TypeExpr α) :
    renderType (t.map f) = t.render fun a => (f a).name := by
  rw [renderType, TypeExpr.render, TypeExpr.chars_map]
  rfl

theorem knows_of_resolve {s : Scope} {name : String} {r : Ref} (h : s.resolve name = .ok r) :
    s.knows name = true ∧ s.ref name = r := by
  rw [resolve_eq_guard, guard_eq_ok_iff] at h
  exact ⟨h.1 name (by simp), h.2⟩

theorem rebindType_of_knows {s : Scope} {u : TypeExpr Ref} (h : s.knows u.leaf.name = true) :
    ∃ v, s.rebindType u = .ok v ∧ v.leaf.name = u.leaf.name ∧ renderType v = renderType u := by
  refine ⟨u.map s.move, ?_, ?_, ?_⟩
  · rw [rebindType_eq_guard]
    exact s.guard_of_known (by simpa using h) _
  · rw [TypeExpr.leaf_map, name_move]
  · rw [renderType_map]
    rfl

theorem rebindTypes_of_knows {later : List Scope} {u : TypeExpr Ref}
    (h : ∀ s ∈ later, s.knows u.leaf.name = true) :
    ∃ v, later.foldlM (fun x s => s.rebindType x) u = .ok v ∧ renderType v = renderType u := by
  induction later generalizing u with
  | nil => exact ⟨u, rfl, rfl⟩
  | cons s later ih =>
      rw [List.forall_mem_cons] at h
      obtain ⟨v, hv, hname, htext⟩ := rebindType_of_knows h.1
      obtain ⟨w, hw, hrender⟩ := ih (u := v) (hname ▸ h.2)
      refine ⟨w, ?_, hrender.trans htext⟩
      rw [List.foldlM_cons, hv]
      exact hw

end Scope

theorem TypeExpr.one_notation {t : TypeExpr Ident} (h : t.WellFormed) :
    (∃ ts u c, tokenize (t.render Ident.text) = .ok ts ∧
      Parser.typeExpr ⟨ts.items, .nowhere, ts.finish⟩ = .ok (u, c) ∧ c.rest = [] ∧
        u.map Relocation.erase.ident = t.map Relocation.erase.ident) ∧
    ofText (t.render Ident.text) = t.map Relocation.erase.ident ∧
    ∀ (s : Scope) (r : Ref), s.resolve t.leaf.text = .ok r →
      ∃ u, s.resolveType t = .ok u ∧ u.leaf = r ∧ renderType u = t.render Ident.text ∧
        ∀ later : List Scope, (∀ s' ∈ later, ∃ r', s'.resolve t.leaf.text = .ok r') →
          ∃ v, later.foldlM (fun x s' => s'.rebindType x) u = .ok v ∧
            renderType v = t.render Ident.text := by
  refine ⟨?_, ofText_render h.leaf, ?_⟩
  · obtain ⟨ts, hs, hk⟩ := exists_tokenize h.leaf
    obtain ⟨u, c, hu, hc, he⟩ := exists_typeExpr h.simple hk
    exact ⟨ts, u, c, hs, hu, hc, he⟩
  · intro s r hr
    obtain ⟨hknows, rfl⟩ := Scope.knows_of_resolve hr
    have htext : renderType (t.map s.place) = t.render Ident.text := Scope.renderType_map _ _
    refine ⟨t.map s.place, ?_, leaf_map _ _, htext, ?_⟩
    · rw [Scope.resolveType_eq_guard]
      exact s.guard_of_known (by simpa using hknows) _
    · intro later hlater
      rw [← htext]
      apply Scope.rebindTypes_of_knows
      intro s' hs'
      obtain ⟨r', hr'⟩ := hlater s' hs'
      rw [leaf_map]
      exact (Scope.knows_of_resolve hr').1

namespace TypeExpr

def visits : TypeExpr Ident := .nonNull (.list (.list (.nonNull (.named ⟨"Visit", ⟨2, 7, 1, 3⟩⟩))))

theorem wellFormed_visits : visits.WellFormed := ⟨by decide, rfl, rfl, trivial⟩

theorem visits_keep_their_text : visits.WellFormed ∧
    (∃ ts u c, tokenize "[[Visit!]]!" = .ok ts ∧
      Parser.typeExpr ⟨ts.items, .nowhere, ts.finish⟩ = .ok (u, c) ∧ c.rest = [] ∧
        u.map Relocation.erase.ident = visits.map Relocation.erase.ident) ∧
    ofText "[[Visit!]]!" = visits.map Relocation.erase.ident ∧
    ∃ u, Scope.resolveType ⟨["Pet", "Visit"], .generation 0⟩ visits = .ok u ∧
      renderType u = "[[Visit!]]!" ∧
        ∃ v, [(⟨["Visit"], .generation 1⟩ : Scope), ⟨["Vet", "Visit"], .generation 2⟩].foldlM
          (fun x s => s.rebindType x) u = .ok v ∧ renderType v = "[[Visit!]]!" := by
  have htext : visits.render Ident.text = "[[Visit!]]!" := by decide
  obtain ⟨hparse, hcompact, hresolve⟩ := one_notation wellFormed_visits
  rw [htext] at hparse hcompact hresolve
  obtain ⟨u, hu, -, hrender, hlater⟩ := hresolve ⟨["Pet", "Visit"], .generation 0⟩ _ rfl
  refine ⟨wellFormed_visits, hparse, hcompact, u, hu, hrender, hlater _ ?_⟩
  simp only [List.forall_mem_cons]
  exact ⟨⟨_, rfl⟩, ⟨_, rfl⟩, nofun⟩

end TypeExpr

end SchemaGraph
