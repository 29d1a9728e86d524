import Mathlib.Data.List.DropRight
import Mathlib.Data.String.Basic
import SchemaGraph.Proofs.Layout

namespace SchemaGraph

namespace Text

def slice (source : String) (i j : Nat) : String := String.Pos.Raw.extract source ⟨i⟩ ⟨j⟩

def IsBoundary (source : String) (i : Nat) : Prop := String.Pos.Raw.IsValid source ⟨i⟩

def Position.ofPrefix (before : List Char) : Position :=
  ⟨String.utf8Len before, before.count '\n' + 1,
    String.utf8Len (before.rtakeWhile (· != '\n')) + 1⟩

def Position.at (source : String) (offset : Nat) : Position :=
  .ofPrefix (slice source 0 offset).toList

theorem utf8Size_newline : '\n'.utf8Size = 1 := rfl

theorem Position.start_after (before : List Char) : start.after before = ofPrefix before := by
  induction before using List.reverseRecOn with
  | nil => rfl
  | append_singleton cs c ih =>
      rw [after_append, ih, after_cons, after_nil, next, ofPrefix, ofPrefix, List.rtakeWhile_concat,
        String.utf8Len_append, List.count_append]
      by_cases hc : c = '\n'
      · subst hc
        simp [String.utf8Len, utf8Size_newline]
      · simp only [bne_iff_ne, ne_eq, hc, not_false_eq_true, if_true,
          String.utf8Len_append, List.count_singleton, beq_iff_eq, if_false]
        simp [String.utf8Len, Nat.add_right_comm]

theorem Position.offset_after (p : Position) (cs : List Char) :
    (p.after cs).offset = p.offset + String.utf8Len cs := by
  induction cs generalizing p with
  | nil => rfl
  | cons c cs ih =>
      rw [after_cons, ih, String.utf8Len_cons, next]
      split
      · rename_i hc
        subst hc
        rw [utf8Size_newline]
        dsimp only
        omega
      · dsimp only
        omega

theorem slice_of_append {source : String} {a t b : List Char} (h : source.toList = a ++ t ++ b) :
    slice source (String.utf8Len a) (String.utf8Len (a ++ t)) = String.ofList t := by
  rw [slice, ← String.ofList_toList (s := source), h, String.utf8Len_append]
  exact String.extract_of_valid a t b

theorem slice_zero_of_append {source : String} {a b : List Char} (h : source.toList = a ++ b) :
    slice source 0 (String.utf8Len a) = String.ofList a :=
  slice_of_append (a := []) h

theorem isBoundary_of_append {source : String} {a b : List Char} (h : source.toList = a ++ b) :
    IsBoundary source (String.utf8Len a) := by
  refine String.Pos.Raw.isValid_iff_exists_append.mpr ⟨String.ofList a, String.ofList b, ?_, ?_⟩
  · rw [← String.ofList_append, ← h, String.ofList_toList]
  · rw [String.rawEndPos, String.utf8ByteSize_ofList]

theorem Position.at_of_append {source : String} {a b : List Char} (h : source.toList = a ++ b) :
    Position.at source (String.utf8Len a) = start.after a := by
  rw [Position.at, slice_zero_of_append h, String.toList_ofList, start_after]

theorem Position.offset_start_after (a : List Char) : (start.after a).offset = String.utf8Len a := by
  rw [start_after]
  rfl

end Text

open Text (Position slice IsBoundary)

namespace Piece

variable {pos : Position} {ps : List Piece} {t : Token}

theorem exists_of_mem_tokens (h : t ∈ tokens pos ps) :
    ∃ qs p rs, ps = qs ++ p :: rs ∧ t = p.token (pos.after (allChars qs)) := by
  induction ps generalizing pos with
  | nil => exact absurd h List.not_mem_nil
  | cons q ps ih =>
      rcases List.mem_cons.mp h with rfl | h
      · exact ⟨[], q, ps, rfl, rfl⟩
      · obtain ⟨qs, p, rs, rfl, rfl⟩ := ih h
        refine ⟨q :: qs, p, rs, rfl, ?_⟩
        rw [allChars_cons, Position.after_append]

theorem start_token (p : Piece) (pos : Position) :
    (p.token pos).span.start = pos.offset + String.utf8Len p.gap :=
  Position.offset_after _ _

theorem stop_token (p : Piece) (pos : Position) :
    (p.token pos).span.stop = pos.offset + String.utf8Len p.chars :=
  Position.offset_after _ _

theorem bounds_of_mem_tokens (h : t ∈ tokens pos ps) :
    pos.offset ≤ t.span.start ∧ t.span.stop ≤ (pos.after (allChars ps)).offset := by
  obtain ⟨qs, p, rs, rfl, rfl⟩ := exists_of_mem_tokens h
  rw [start_token, stop_token, Position.offset_after, Position.offset_after, allChars_append,
    allChars_cons, String.utf8Len_append, String.utf8Len_append]
  omega

theorem pairwise_tokens (pos : Position) (ps : List Piece) :
    (tokens pos ps).Pairwise fun t u => t.span.stop ≤ u.span.start := by
  induction ps generalizing pos with
  | nil => exact .nil
  | cons p ps ih => exact .cons (fun t ht => (bounds_of_mem_tokens ht).1) (ih _)

theorem getLastD_stops (pos : Position) (ps : List Piece) :
    ((tokens pos ps).map fun t => t.span.stop).getLastD pos.offset =
      (pos.after (allChars ps)).offset := by
  induction ps generalizing pos with
  | nil => rfl
  | cons p ps ih =>
      rw [tokens, List.map_cons, List.getLastD_cons, allChars_cons, Position.after_append]
      exact ih _

end Piece

namespace Laid

variable {rest : List Char} {ps qs rs : List Piece} {p : Piece}

theorem of_mem (h : Laid rest ps) (hp : p ∈ ps) : IsGap p.gap ∧ Token.Spells p.text p.kind := by
  induction h with
  | nil => exact absurd hp List.not_mem_nil
  | cons gap text _ _ ih =>
      rcases List.mem_cons.mp hp with rfl | hp
      · exact ⟨gap, text⟩
      · exact ih hp

theorem gaps (h : Laid rest ps) {source : String} {a : List Char}
    (hs : source.toList = a ++ (Piece.allChars ps ++ rest)) :
    ∀ x ∈ (String.utf8Len a ::
        (Piece.tokens (Position.start.after a) ps).map (fun t => t.span.stop)).zip
          ((Piece.tokens (Position.start.after a) ps).map fun t => t.span.start),
      IsGap (slice source x.1 x.2).toList := by
  induction h generalizing a with
  | nil => exact nofun
  | @cons p ps gap _ _ _ ih =>
      intro x hx
      rw [Piece.tokens, List.map_cons, List.map_cons, List.zip_cons_cons] at hx
      rcases List.mem_cons.mp hx with rfl | hx
      · dsimp only
        rw [Piece.start_token, Position.offset_start_after, ← String.utf8Len_append,
          Text.slice_of_append (b := p.text ++ (Piece.allChars ps ++ rest)), String.toList_ofList]
        · exact gap
        · rw [hs, Piece.allChars_cons, Piece.chars]
          simp only [List.append_assoc]
      · refine ih (a := a ++ p.chars) ?_ x ?_
        · rw [hs, Piece.allChars_cons]
          simp only [List.append_assoc]
        · rwa [Position.after_append, String.utf8Len_append, ← Position.offset_start_after a,
            ← Piece.stop_token]

theorem tokenize_append (h : Laid rest ps) (hr : IsTail rest) {source : String}
    (hs : source.toList = Piece.allChars ps ++ rest) :
    tokenize source = .ok ⟨Piece.tokens .start ps, Position.start.after source.toList⟩ :=
  tokenizeFrom_eq_ok_iff.mpr ⟨ps, rest, hs, h, hr, rfl⟩

end Laid

theorem Token.Spells.tokenize {text : List Char} {kind : TokenKind} (h : Token.Spells text kind) :
    ∃ ts, tokenize (String.ofList text) = .ok ts ∧ ts.items.map Token.kind = [kind] := by
  have hlaid : Laid [] [⟨[], text, kind⟩] := .cons .nil h kind.stops_none .nil
  exact ⟨_, hlaid.tokenize_append IsGap.nil.isTail (by simp [Piece.chars]), rfl⟩

structure Token.Stands (t : Token) (source : String) (before text behind : List Char) : Prop where
  around : source.toList = before ++ text ++ behind
  spells : Spells text t.kind
  start : t.span.start = String.utf8Len before
  stop : t.span.stop = String.utf8Len (before ++ text)
  place : (⟨t.span.start, t.span.line, t.span.column⟩ : Position) = Position.start.after before

theorem Laid.exists_stands {rest : List Char} {ps : List Piece} (h : Laid rest ps) {source : String}
    (hs : source.toList = Piece.allChars ps ++ rest) {t : Token} (ht : t ∈ Piece.tokens .start ps) :
    ∃ before text behind, t.Stands source before text behind := by
  obtain ⟨qs, p, rs, rfl, rfl⟩ := Piece.exists_of_mem_tokens ht
  refine ⟨Piece.allChars qs ++ p.gap, p.text, Piece.allChars rs ++ rest, ?_,
    (h.of_mem (List.mem_append_right qs List.mem_cons_self)).2, ?_, ?_, ?_⟩
  · rw [hs, Piece.allChars_append, Piece.allChars_cons, Piece.chars]
    simp only [List.append_assoc]
  · rw [Piece.start_token, Position.offset_start_after, String.utf8Len_append]
  · rw [Piece.stop_token, Position.offset_start_after, List.append_assoc, ← Piece.chars,
      String.utf8Len_append]
  · rw [Position.after_append]
    rfl

namespace Token.Stands

variable {t : Token} {source : String} {before text behind : List Char}

theorem start_lt_stop (h : t.Stands source before text behind) : t.span.start < t.span.stop := by
  obtain ⟨c, cs, htext, -⟩ := h.spells
  have hc := c.utf8Size_pos
  rw [h.start, h.stop, htext, String.utf8Len_append, String.utf8Len_cons]
  omega

theorem isBoundary (h : t.Stands source before text behind) :
    IsBoundary source t.span.start ∧ IsBoundary source t.span.stop := by
  rw [h.start, h.stop]
  refine ⟨Text.isBoundary_of_append (b := text ++ behind) ?_, Text.isBoundary_of_append h.around⟩
  rw [h.around, List.append_assoc]

theorem located (h : t.Stands source before text behind) :
    ⟨t.span.start, t.span.line, t.span.column⟩ = Position.at source t.span.start := by
  rw [h.place, h.start, Position.at_of_append (b := text ++ behind)]
  rw [h.around, List.append_assoc]

theorem alone (h : t.Stands source before text behind) :
    ∃ ts, tokenize (slice source t.span.start t.span.stop) = .ok ts ∧
      ts.items.map Token.kind = [t.kind] := by
  rw [h.start, h.stop, Text.slice_of_append h.around]
  exact h.spells.tokenize

end Token.Stands

namespace Tokens

def spans (ts : Tokens) : List Text.Span := ts.items.map Token.span ++ [ts.endSpan]

theorem forall_mem_spans {ts : Tokens} {P : Text.Span → Prop} :
    (∀ x ∈ ts.spans, P x) ↔ (∀ t ∈ ts.items, P t.span) ∧ P ts.endSpan := by
  rw [spans, List.forall_mem_append, List.forall_mem_map, List.forall_mem_singleton]

/-- How the tokens of a source lie in it. The span behind the last one stands for the end. -/
structure Covers (ts : Tokens) (source : String) : Prop where
  ordered : ts.spans.Pairwise fun a b => a.stop ≤ b.start
  nonempty : ∀ t ∈ ts.items, t.span.start < t.span.stop
  finish : ts.endSpan.start = source.utf8ByteSize ∧ ts.endSpan.stop = source.utf8ByteSize
  boundary : ∀ x ∈ ts.spans, IsBoundary source x.start ∧ IsBoundary source x.stop
  located : ∀ x ∈ ts.spans, ⟨x.start, x.line, x.column⟩ = Position.at source x.start
  gaps : ∀ x ∈ (0 :: ts.items.map fun t => t.span.stop).zip (ts.items.map fun t => t.span.start),
    IsGap (slice source x.1 x.2).toList
  tail : IsTail (slice source ((ts.items.map fun t => t.span.stop).getLastD 0)
    source.utf8ByteSize).toList
  alone : ∀ t ∈ ts.items, ∃ ts', tokenize (slice source t.span.start t.span.stop) = .ok ts' ∧
    ts'.items.map Token.kind = [t.kind]

end Tokens

structure LexError.Marks (e : LexError) (source : String) : Prop where
  boundary : IsBoundary source e.place.offset
  located : e.place = Position.at source e.place.offset
  visible : ∃ c ∈ (slice source e.place.offset source.utf8ByteSize).toList.head?, Visible c
  before : ∃ ts, tokenize (slice source 0 e.place.offset) = .ok ts

theorem covers_of_layout {source : String} {ps : List Piece} {rest : List Char}
    (hs : source.toList = Piece.allChars ps ++ rest) (hlaid : Laid rest ps) (hr : IsTail rest) :
    (⟨Piece.tokens .start ps, Position.start.after source.toList⟩ : Tokens).Covers source := by
  have hend : (Position.start.after source.toList).offset = source.utf8ByteSize := by
    rw [Position.offset_start_after, String.utf8Len_toList]
  have hwhole : source.toList = source.toList ++ [] := (List.append_nil _).symm
  have hstands {t : Token} (ht : t ∈ Piece.tokens .start ps) :
      ∃ before text behind, t.Stands source before text behind := hlaid.exists_stands hs ht
  constructor
  · refine List.pairwise_append.mpr ⟨?_, List.pairwise_singleton _ _, ?_⟩
    · exact List.pairwise_map.mpr (Piece.pairwise_tokens _ _)
    · intro x hx y hy
      obtain ⟨t, ht, rfl⟩ := List.mem_map.mp hx
      obtain rfl := List.mem_singleton.mp hy
      refine (Piece.bounds_of_mem_tokens ht).2.trans ?_
      change _ ≤ (Position.start.after source.toList).offset
      rw [hs, Position.offset_start_after, Position.offset_start_after, String.utf8Len_append]
      exact Nat.le_add_right _ _
  · intro t ht
    obtain ⟨_, _, _, h⟩ := hstands ht
    exact h.start_lt_stop
  · exact ⟨hend, hend⟩
  · rw [Tokens.forall_mem_spans]
    constructor
    · intro t ht
      obtain ⟨_, _, _, h⟩ := hstands ht
      exact h.isBoundary
    · have hb : IsBoundary source (Position.start.after source.toList).offset := by
        rw [Position.offset_start_after]
        exact Text.isBoundary_of_append hwhole
      exact ⟨hb, hb⟩
  · rw [Tokens.forall_mem_spans]
    constructor
    · intro t ht
      obtain ⟨_, _, _, h⟩ := hstands ht
      exact h.located
    · change Position.start.after source.toList =
        Position.at source (Position.start.after source.toList).offset
      rw [Position.offset_start_after, Position.at_of_append hwhole]
  · exact hlaid.gaps (a := []) hs
  · have hlast := Piece.getLastD_stops .start ps
    rw [Position.offset_start_after] at hlast
    have hslice := Text.slice_of_append (t := rest) (b := []) (by rw [List.append_nil, hs])
    rw [← hs, String.utf8Len_toList] at hslice
    change IsTail (slice source (List.getLastD _ Position.start.offset) _).toList
    rw [hlast, hslice, String.toList_ofList]
    exact hr
  · intro t ht
    obtain ⟨_, _, _, h⟩ := hstands ht
    exact h.alone

theorem marks_of_layout {source : String} {ps : List Piece} {gap r : List Char} {c : Char}
    {e : LexError} (hs : source.toList = Piece.allChars ps ++ (gap ++ c :: r))
    (hlaid : Laid (gap ++ c :: r) ps) (hg : IsGap gap) (hc : Visible c)
    (he : e.place = Position.start.after (Piece.allChars ps ++ gap)) : e.Marks source := by
  have happ : source.toList = (Piece.allChars ps ++ gap) ++ c :: r := by
    rw [hs, List.append_assoc]
  have hoffset : e.place.offset = String.utf8Len (Piece.allChars ps ++ gap) := by
    rw [he, Position.offset_start_after]
  constructor
  · rw [hoffset]
    exact Text.isBoundary_of_append happ
  · rw [hoffset, Position.at_of_append happ, he]
  · refine ⟨c, ?_, hc⟩
    have hslice := Text.slice_of_append (t := c :: r) (b := []) (by rw [List.append_nil, happ])
    rw [← happ, String.utf8Len_toList] at hslice
    rw [hoffset, hslice, String.toList_ofList]
    rfl
  · -- without what follows the gap, the last token may end at the end
    have hswap : Laid gap ps := by
      refine hlaid.swap ?_
      cases gap with
      | nil => exact Or.inr nofun
      | cons x xs => exact Or.inl rfl
    rw [hoffset, Text.slice_zero_of_append happ]
    exact ⟨_, hswap.tokenize_append hg.isTail (String.toList_ofList ..)⟩

theorem covers_of_tokenize {source : String} {ts : Tokens} (h : tokenize source = .ok ts) :
    ts.Covers source := by
  obtain ⟨ps, rest, hs, hlaid, hr, rfl⟩ := tokenizeFrom_eq_ok_iff.mp h
  exact covers_of_layout hs hlaid hr

theorem marks_of_tokenize {source : String} {e : LexError} (h : tokenize source = .error e) :
    e.Marks source := by
  obtain ⟨ps, gap, c, r, hs, hlaid, hg, hc, he⟩ := exists_of_tokenizeFrom_error h
  exact marks_of_layout hs hlaid hg hc he

end SchemaGraph
