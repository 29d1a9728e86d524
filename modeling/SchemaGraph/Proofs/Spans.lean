import SchemaGraph.Proofs.FirstFault
import SchemaGraph.Proofs.Spelled

namespace SchemaGraph

open Text (Span Position slice)

structure Token.Sorted (ts : List Token) : Prop where
  ordered : ts.Pairwise fun t u => t.span.stop ≤ u.span.start
  nonempty : ∀ t ∈ ts, t.span.start < t.span.stop

namespace Token.Sorted

variable {ts us vs : List Token}

theorem sublist (h : Sorted ts) (hs : us.Sublist ts) : Sorted us :=
  ⟨h.ordered.sublist hs, fun t ht => h.nonempty t (hs.subset ht)⟩

theorem apart (h : Sorted ts) : Apart ts := by
  refine List.Pairwise.map Token.span (S := (· ≠ ·)) (fun t u htu => htu) ?_
  refine h.ordered.imp_of_mem fun {t u} ht _ htu he => ?_
  have := h.nonempty t ht
  rw [he] at htu this
  omega

theorem stop_le_start (h : Sorted (us ++ vs)) {t u : Token} (ht : t ∈ us) (hu : u ∈ vs) :
    t.span.stop ≤ u.span.start :=
  (List.pairwise_append.mp h.ordered).2.2 t ht u hu

end Token.Sorted

theorem exists_lastSpan (t : Token) (ts : List Token) : ∃ u ∈ t :: ts, lastSpan t.span ts = u.span ∧
    (t :: ts).getLast? = some u := by
  induction ts generalizing t with
  | nil => exact ⟨t, List.mem_cons_self, rfl, rfl⟩
  | cons u ts ih =>
      obtain ⟨v, hv, hlast, hget⟩ := ih u
      exact ⟨v, List.mem_cons_of_mem t hv, hlast, by rw [List.getLast?_cons_cons, hget]⟩

theorem stop_lastSpan (last : Span) (ts : List Token) :
    (lastSpan last ts).stop = (ts.map fun t => t.span.stop).getLastD last.stop := by
  induction ts generalizing last with
  | nil => rfl
  | cons t ts ih =>
      rw [List.map_cons, List.getLastD_cons, ← ih t.span]
      rfl

theorem exists_ends {ts : List Token} (hne : ts ≠ []) : ∃ t ∈ ts, ∃ u ∈ ts, ts.head? = some t ∧
    ts.getLast? = some u ∧ spanning ts = t.span.through u.span := by
  cases ts with
  | nil => exact absurd rfl hne
  | cons t ts =>
      obtain ⟨u, hu, hlast, hget⟩ := exists_lastSpan t ts
      exact ⟨t, List.mem_cons_self, u, hu, rfl, hget, by rw [spanning, hlast]⟩

theorem Token.Sorted.bounds {ts : List Token} (h : Token.Sorted ts) {v : Token} (hv : v ∈ ts) :
    (spanning ts).start ≤ v.span.start ∧ v.span.stop ≤ (spanning ts).stop := by
  obtain ⟨t, ht, u, hu, hhead, hlast, hspan⟩ := exists_ends (List.ne_nil_of_mem hv)
  have hvt := h.nonempty v hv
  rw [hspan]
  constructor
  · change t.span.start ≤ v.span.start
    obtain ⟨us, rfl⟩ := List.head?_eq_some_iff.mp hhead
    rcases List.mem_cons.mp hv with rfl | hv
    · exact Nat.le_refl _
    · have hle := (List.pairwise_cons.mp h.ordered).1 v hv
      have hlt := h.nonempty t ht
      omega
  · change v.span.stop ≤ u.span.stop
    obtain ⟨us, rfl⟩ := List.getLast?_eq_some_iff.mp hlast
    rcases List.mem_append.mp hv with hv | hv
    · have hle := h.stop_le_start hv (List.mem_singleton_self u)
      have hlt := h.nonempty u hu
      omega
    · rw [List.mem_singleton.mp hv]

structure SyntaxNode.Exact (source : String) (ts : List Token) (n : SyntaxNode) : Prop where
  tokens : ∃ seg first last, seg <:+: ts ∧ n.Spelled seg ∧ seg.head? = some first ∧
    seg.getLast? = some last ∧ n.span = first.span.through last.span
  nonempty : n.span.start < n.span.stop
  located : ⟨n.span.start, n.span.line, n.span.column⟩ = Position.at source n.span.start
  inside : ∀ m ∈ n.children, n.span.start ≤ m.span.start ∧ m.span.stop ≤ n.span.stop
  siblings : n.children.Pairwise fun a b => a.span.stop ≤ b.span.start

namespace SyntaxNode.Spelled

variable {ts : List Token} {n : SyntaxNode}

theorem ends (h : n.Spelled ts) (hts : Token.Sorted ts) : ∃ t ∈ ts, ∃ u ∈ ts, ts.head? = some t ∧
    ts.getLast? = some u ∧ n.span = t.span.through u.span := by
  have hfits := h.fits hts.apart
  rw [hfits.span]
  exact exists_ends hfits.nonempty

end SyntaxNode.Spelled

namespace Lies

variable {ts : List Token} {ns : List SyntaxNode} {n : SyntaxNode}

theorem ends_of_mem (h : Lies ts ns) (hts : Token.Sorted ts) (hn : n ∈ ns) :
    ∃ t ∈ ts, ∃ u ∈ ts, n.span = t.span.through u.span := by
  obtain ⟨seg, hseg, hspelled⟩ := h.exists_of_mem hn
  obtain ⟨t, ht, u, hu, -, -, hspan⟩ := hspelled.ends (hts.sublist hseg.sublist)
  exact ⟨t, hseg.subset ht, u, hseg.subset hu, hspan⟩

theorem inside (h : Lies ts ns) (hts : Token.Sorted ts) (hn : n ∈ ns) :
    (spanning ts).start ≤ n.span.start ∧ n.span.stop ≤ (spanning ts).stop := by
  obtain ⟨t, ht, u, hu, hspan⟩ := h.ends_of_mem hts hn
  rw [hspan]
  exact ⟨(hts.bounds ht).1, (hts.bounds hu).2⟩

theorem pairwise (h : Lies ts ns) (hts : Token.Sorted ts) :
    ns.Pairwise fun a b => a.span.stop ≤ b.span.start := by
  induction h with
  | nil => exact .nil
  | @cons n ns seg post pre hn hns ih =>
      have hrest : Token.Sorted (seg ++ post) := hts.sublist (List.sublist_append_right pre _)
      have hpost := hrest.sublist (List.sublist_append_right seg post)
      refine .cons (fun m hm => ?_) (ih hpost)
      obtain ⟨_, _, u, hu, _, _, hspan⟩ := hn.ends (hrest.sublist (List.sublist_append_left seg post))
      obtain ⟨t, ht, _, _, hspan'⟩ := hns.ends_of_mem hpost hm
      rw [hspan, hspan']
      exact hrest.stop_le_start hu ht

end Lies

theorem Tokens.Covers.sorted {ts : Tokens} {source : String} (h : ts.Covers source) :
    Token.Sorted ts.items :=
  ⟨List.pairwise_map.mp (List.pairwise_append.mp h.ordered).1, h.nonempty⟩

theorem SyntaxNode.Spelled.exact {ts : Tokens} {source : String} {seg : List Token} {n : SyntaxNode}
    (h : n.Spelled seg) (hts : ts.Covers source) (hseg : seg <:+: ts.items) :
    n.Exact source ts.items := by
  have hsorted := hts.sorted.sublist hseg.sublist
  have hfits := h.fits hsorted.apart
  obtain ⟨t, ht, u, hu, hhead, hlast, hspan⟩ := h.ends hsorted
  constructor
  · exact ⟨seg, t, u, hseg, h, hhead, hlast, hspan⟩
  · have hlt := hsorted.nonempty t ht
    have hle := (hsorted.bounds ht).2
    rw [← hfits.span] at hle
    rw [hspan] at hle ⊢
    exact Nat.lt_of_lt_of_le hlt hle
  · rw [hspan]
    exact hts.located t.span (List.mem_append_left _ (List.mem_map_of_mem (hseg.subset ht)))
  · intro m hm
    rw [hfits.span]
    exact hfits.children.inside hsorted hm
  · exact hfits.children.pairwise hsorted

namespace Parser

variable {c c' : Cursor} {xs : List Definition} {x : Definition} {seg : List Token}

theorem rows_document (hc : Token.Apart c.rest) (h : document c = .ok (xs, c')) :
    Rows (fun seg x => (SyntaxNode.definition x).Spelled seg) c.rest xs := by
  induction hn : c.rest.length using Nat.strongRecOn generalizing c xs with
  | _ n ih =>
      rw [document, loop_step] at h
      split at h
      · split at h
        · cases h
        · rename_i x d hd
          split at h
          · cases h
          · rename_i as e hl
            obtain ⟨rfl, rfl⟩ := Prod.mk.inj (Except.ok.inj h)
            have hlt := consumes_definition c x d hd
            obtain ⟨seg, hseg, -, hgives, -⟩ := (fits_definition hc).gives x d hd
            rw [hseg] at hc ⊢
            exact .cons hgives (ih _ (hn ▸ hlt) (hc.sublist (List.sublist_append_right seg _)) hl rfl)
      · rename_i hr
        obtain ⟨rfl, rfl⟩ := Prod.mk.inj (Except.ok.inj h)
        have hnil : c.rest = [] := by simpa using hr
        rw [hnil]
        exact .nil

theorem document_eq_ok (h : (SyntaxNode.definition x).Spelled seg) (hne : seg ≠ []) (last : Span)
    (finish : Position) : ∃ d, document ⟨seg, last, finish⟩ = .ok ([x], d) := by
  have hx : definition ⟨seg, last, finish⟩ = .ok (x, ⟨[], lastSpan last seg, finish⟩) := h last finish
  rw [document, loop_step, if_pos (by simpa using hne), hx]
  dsimp only
  rw [loop_step]
  exact ⟨_, rfl⟩

end Parser

section Gaps

theorem mem_zip_append {us vs : List Token} (last : Span) {x : Nat × Nat}
    (h : x ∈ ((lastSpan last us).stop :: vs.map fun t => t.span.stop).zip
      (vs.map fun t => t.span.start)) :
    x ∈ (last.stop :: (us ++ vs).map fun t => t.span.stop).zip
      ((us ++ vs).map fun t => t.span.start) := by
  induction us generalizing last with
  | nil => exact h
  | cons t us ih => exact List.mem_cons_of_mem _ (ih t.span h)

theorem stop_spanning {us : List Token} (hne : us ≠ []) (last : Span) :
    (spanning us).stop = (lastSpan last us).stop := by
  cases us with
  | nil => exact absurd rfl hne
  | cons t us => rfl

variable {ts : List Token} {xs : List Definition}

theorem mem_zip_of_rows (h : Parser.Rows (fun seg x => (SyntaxNode.definition x).Spelled seg) ts xs)
    (hts : Token.Apart ts) (last : Span) {x : Nat × Nat}
    (hx : x ∈ (last.stop :: xs.map fun x => x.span.stop).zip (xs.map fun x => x.span.start)) :
    x ∈ (last.stop :: ts.map fun t => t.span.stop).zip (ts.map fun t => t.span.start) := by
  induction h generalizing last with
  | nil => exact hx
  | @cons us vs y ys hy _ ih =>
      have hfits := hy.fits (hts.sublist (List.sublist_append_left us vs))
      have hspan : y.span = spanning us := hfits.span
      rw [List.map_cons, List.map_cons, List.zip_cons_cons] at hx
      -- what is in front of a definition is in front of its first token
      rcases List.mem_cons.mp hx with rfl | hx
      · rw [hspan]
        cases us with
        | nil => exact absurd rfl hfits.nonempty
        | cons t us => exact List.mem_cons_self
      · rw [hspan, stop_spanning hfits.nonempty last] at hx
        exact mem_zip_append last (ih (hts.sublist (List.sublist_append_right us vs)) _ hx)

theorem getLastD_of_rows (h : Parser.Rows (fun seg x => (SyntaxNode.definition x).Spelled seg) ts xs)
    (hts : Token.Apart ts) (last : Span) :
    (xs.map fun x => x.span.stop).getLastD last.stop = (lastSpan last ts).stop := by
  induction h generalizing last with
  | nil => rfl
  | @cons us vs y ys hy _ ih =>
      have hfits := hy.fits (hts.sublist (List.sublist_append_left us vs))
      have hspan : y.span = spanning us := hfits.span
      rw [List.map_cons, List.getLastD_cons, hspan, stop_spanning hfits.nonempty last,
        ih (hts.sublist (List.sublist_append_right us vs)), lastSpan_append]

end Gaps

namespace Piece

variable {pos : Position} {ps : List Piece} {us vs : List Token}

theorem exists_of_tokens_eq_append (h : tokens pos ps = us ++ vs) :
    ∃ qs rs, ps = qs ++ rs ∧ tokens pos qs = us ∧ tokens (pos.after (allChars qs)) rs = vs := by
  induction us generalizing pos ps with
  | nil => exact ⟨[], ps, rfl, rfl, h⟩
  | cons u us ih =>
      cases ps with
      | nil => exact nomatch h
      | cons p ps =>
          obtain ⟨hp, hps⟩ := List.cons.inj h
          obtain ⟨qs, rs, rfl, rfl, rfl⟩ := ih hps
          exact ⟨p :: qs, rs, rfl, hp ▸ rfl, by rw [allChars_cons, Position.after_append]⟩

theorem start_spanning (pos : Position) (p : Piece) (ps : List Piece) :
    (spanning (tokens pos (p :: ps))).start = pos.offset + String.utf8Len p.gap :=
  p.start_token pos

theorem stop_spanning (pos : Position) (p : Piece) (ps : List Piece) :
    (spanning (tokens pos (p :: ps))).stop = (pos.after (allChars (p :: ps))).offset := by
  rw [← getLastD_stops, tokens, spanning, List.map_cons, List.getLastD_cons]
  exact stop_lastSpan _ _

end Piece

theorem slice_spanning {source : String} {front back : List Piece} {p : Piece} {ps : List Piece}
    {rest : List Char} (hs : source.toList = Piece.allChars (front ++ (p :: ps ++ back)) ++ rest) :
    let span := spanning (Piece.tokens (Position.start.after (Piece.allChars front)) (p :: ps))
    slice source span.start span.stop = String.ofList (p.text ++ Piece.allChars ps) := by
  dsimp only
  rw [Piece.start_spanning, Piece.stop_spanning, ← Position.after_append, Position.offset_start_after,
    Position.offset_start_after, ← String.utf8Len_append, Piece.allChars_cons, Piece.chars,
    List.append_assoc, ← List.append_assoc]
  refine Text.slice_of_append (b := Piece.allChars back ++ rest) ?_
  rw [hs, Piece.allChars_append, Piece.allChars_append, Piece.allChars_cons, Piece.chars]
  simp only [List.append_assoc]

theorem exists_tokenize_slice {source : String} {ts : Tokens} (hs : tokenize source = .ok ts)
    {seg : List Token} (hseg : seg <:+: ts.items) (hne : seg ≠ []) :
    ∃ us, tokenize (slice source (spanning seg).start (spanning seg).stop) = .ok us ∧
      us.kinds = seg.map Token.kind := by
  obtain ⟨ps, rest, happ, hlaid, -, rfl⟩ := tokenizeFrom_eq_ok_iff.mp hs
  obtain ⟨pre, post, hitems⟩ := hseg
  rw [List.append_assoc] at hitems
  obtain ⟨front, more, rfl, rfl, hmore⟩ := Piece.exists_of_tokens_eq_append hitems.symm
  obtain ⟨mid, back, rfl, rfl, rfl⟩ := Piece.exists_of_tokens_eq_append hmore
  cases mid with
  | nil => exact absurd rfl hne
  | cons p mid =>
      -- the gap in front of the first piece is not under the span
      have hends : Laid [] (p :: mid) := hlaid.back.front.swap (Or.inr nofun)
      have hmid : Laid [] (⟨[], p.text, p.kind⟩ :: mid) := by
        cases hends with
        | cons gap text stops h => exact .cons .nil text stops h
      rw [slice_spanning happ]
      refine ⟨_, hmid.tokenize_append IsGap.nil.isTail (by simp [Piece.chars]), ?_⟩
      rw [Tokens.kinds, Piece.kinds_tokens, Piece.kinds_tokens, List.map_cons, List.map_cons]

namespace Document

theorem exists_parse_slice {source : String} {ts : Tokens} (hs : tokenize source = .ok ts)
    {seg : List Token} (hseg : seg <:+: ts.items) {x : Definition}
    (hx : (SyntaxNode.definition x).Spelled seg) (hfits : (SyntaxNode.definition x).Fits seg) :
    ∃ d, parse (slice source x.span.start x.span.stop) = .ok d ∧ d.bare = (Document.mk [x]).bare := by
  obtain ⟨us, hus, hkinds⟩ := exists_tokenize_slice hs hseg hfits.nonempty
  obtain ⟨c, hc⟩ := Parser.document_eq_ok hx hfits.nonempty .nowhere .start
  have hspelled := ofTokens_bare ⟨seg, .start⟩
  have hcut := parse_bare hus
  rw [← Tokens.kinds, hkinds] at hcut
  rw [ofTokens, hc] at hspelled
  obtain ⟨e, he⟩ := hspelled
  have hspan : x.span = spanning seg := hfits.span
  rw [hspan]
  rw [he] at hcut
  cases hd : parse (slice source (spanning seg).start (spanning seg).stop) with
  | error e =>
      rw [hd] at hcut
      cases hcut
  | ok d =>
      rw [hd] at hcut
      obtain ⟨_, hd'⟩ := hcut
      exact ⟨d, rfl, congrArg Document.mk (Prod.mk.inj (Except.ok.inj hd')).1.symm⟩

structure Exact (d : Document) (source : String) (ts : Tokens) : Prop where
  ordered : d.definitions.Pairwise fun x y => x.span.stop ≤ y.span.start
  gaps : ∀ x ∈ (0 :: d.definitions.map fun x => x.span.stop).zip
    (d.definitions.map fun x => x.span.start), IsGap (slice source x.1 x.2).toList
  tail : IsTail (slice source ((d.definitions.map fun x => x.span.stop).getLastD 0)
    source.utf8ByteSize).toList
  alone : ∀ x ∈ d.definitions, ∃ d', parse (slice source x.span.start x.span.stop) = .ok d' ∧
    d'.bare = (Document.mk [x]).bare
  nodes : ∀ n ∈ d.nodes, n.Exact source ts.items
  records : ∀ v, .record v ∈ d.nodes → ∃ t,
    (.type t ∈ d.definitions ∨ .typeExtension t ∈ d.definitions) ∧ t.body = .data [v] ∧ v.name = t.name

theorem exact_of_rows {source : String} {ts : Tokens} {d : Document} (hs : tokenize source = .ok ts)
    (hts : ts.Covers source)
    (h : Parser.Rows (fun seg x => (SyntaxNode.definition x).Spelled seg) ts.items d.definitions) :
    d.Exact source ts := by
  have hapart := hts.sorted.apart
  have hlies : Lies ts.items (d.definitions.map .definition) := by
    rw [List.map_eq_flatMap]
    exact .of_rows h fun _ _ => .single
  have hseg {x : Definition} (hx : x ∈ d.definitions) :
      ∃ seg, seg <:+: ts.items ∧ (SyntaxNode.definition x).Spelled seg :=
    hlies.exists_of_mem (List.mem_map_of_mem hx)
  constructor
  · exact List.pairwise_map.mp (hlies.pairwise hts.sorted)
  · exact fun x hx => hts.gaps x (mem_zip_of_rows h hapart .nowhere hx)
  · rw [show (0 : Nat) = Span.nowhere.stop from rfl, getLastD_of_rows h hapart, stop_lastSpan]
    exact hts.tail
  · intro x hx
    obtain ⟨seg, hinfix, hspelled⟩ := hseg hx
    exact exists_parse_slice hs hinfix hspelled (hspelled.fits (hapart.sublist hinfix.sublist))
  · intro n hn
    obtain ⟨x, hx, hn⟩ := List.mem_flatMap.mp hn
    obtain ⟨seg, hinfix, hspelled⟩ := hseg hx
    obtain ⟨seg', hinfix', hspelled'⟩ :=
      hspelled.exists_of_mem_tree (hapart.sublist hinfix.sublist) hn
    exact hspelled'.exact hts (hinfix'.trans hinfix)
  · exact fun v hv => record_of_mem_nodes hv

theorem exact_of_parse {source : String} {d : Document} (h : parse source = .ok d) :
    ∃ ts, tokenize source = .ok ts ∧ d.Exact source ts := by
  obtain ⟨ts, c, hs, hd⟩ := parse_eq_ok_iff.mp h
  have hts : ts.Covers source := covers_of_tokenize hs
  exact ⟨ts, hs, exact_of_rows hs hts (Parser.rows_document hts.sorted.apart hd)⟩

def litter : String :=
  "# cats\n\"one\" data Cat @own { tag: [Tag!] = { id: [E] } } # é\nextend schema { query: Q } #"

theorem exact_of_parse_litter : ∃ d ts, parse litter = .ok d ∧ tokenize litter = .ok ts ∧
    d.Exact litter ts := by
  have hok : (parse litter).isOk = true := by decide +kernel
  cases hd : parse litter with
  | error e => exact nomatch hd ▸ hok
  | ok d =>
      obtain ⟨ts, hs, hexact⟩ := exact_of_parse hd
      exact ⟨d, ts, rfl, hs, hexact⟩

end Document

end SchemaGraph
