import SchemaGraph.Proofs.ByteLiterals

namespace SchemaGraph.Lexer

open Text (Position Span runEnd)
open StringLiteral (leadByte)

section Tokens

variable {source : String} {s : State} {before cs r : List Char} {c : Char} {line column : Nat}

theorem mirrors_readName (h : s.At source before (c :: cs)) (hc : isNameStart c = true) :
    Mirrors line column (Reads source before) (readName source s)
      (.ok ⟨.name (String.ofList (c :: cs.takeWhile isNameChar)), c :: cs.takeWhile isNameChar,
        cs.dropWhile isNameChar⟩) := by
  have hrun := h.run ascii_isNameChar (by decide)
  have hname := Token.isNameChar_of_isNameStart hc
  rw [List.takeWhile_cons_of_pos hname, List.dropWhile_cons_of_pos hname] at hrun
  have hcut : cut source s.pos (runEnd source isNameChar s.pos) =
      .ok (c :: cs.takeWhile isNameChar) := by
    refine State.At.cut ?_ hrun
    rwa [List.cons_append, List.takeWhile_append_dropWhile]
  rw [readName, hcut]
  exact .ok ⟨rfl, hrun⟩

theorem mirrors_scanString (h : s.At source before ('"' :: cs)) :
    Mirrors line column (Reads source before)
      (if ['"', '"', '"'] <+: '"' :: cs then readBlock source line column "" (s.skip 3)
        else readString source line column "" (s.skip 1))
      (Token.scanString ('"' :: cs)) := by
  by_cases hopen : ['"', '"', '"'] <+: '"' :: cs
  · rw [if_pos hopen]
    obtain ⟨r, hr⟩ := hopen
    obtain rfl := (List.cons.inj hr).2
    have hinside := State.At.move (t := ['"', '"', '"']) h (by decide)
    refine (mirrors_readBlock hinside "").mapRight ?_
    rintro q ⟨v, t, r⟩ ⟨hkind, hat⟩
    rw [List.append_assoc] at hat
    exact ⟨by simp [hkind], hat⟩
  · rw [if_neg hopen, Token.scanString.eq_2]
    · refine (mirrors_readString (h.skipOne (by decide) (by decide)) "").mapRight ?_
      rintro q ⟨v, t, r⟩ ⟨hkind, hat⟩
      rw [List.append_assoc] at hat
      exact ⟨by simp [hkind], hat⟩
    · rintro r - rfl
      exact hopen ⟨r, rfl⟩

theorem mirrors_readToken (h : s.At source before (c :: cs)) :
    Mirrors line column (Reads source before) (readToken source line column (leadByte c) s)
      (Token.scan c cs) := by
  unfold readToken Token.scan
  rw [ofChar?_leadByte]
  cases hp : Punct.ofChar? c with
  | some p =>
      obtain rfl := Punct.char_of_ofChar? hp
      have hascii : p.char.toNat < 128 ∧ p.char ≠ '\n' := by cases p <;> decide
      exact .ok ⟨rfl, h.skipOne hascii.1 hascii.2⟩
  | none =>
      dsimp only
      rw [if_congr (leadByte_eq_iff (by decide)) rfl rfl, h.rest,
        if_congr (or_congr (leadByte_eq_iff (by decide)) (by rw [ascii_isDigit.leadByte])) rfl rfl,
        ascii_isNameStart.leadByte]
      split
      · rename_i hc
        subst hc
        exact mirrors_scanString h
      · split
        · exact mirrors_readNumber h
        · split
          · rename_i hc
            exact mirrors_readName h hc
          · exact .error _

end Tokens

section Gaps

variable {source : String} {s : State} {before cs : List Char} {c : Char}

theorem skipIgnored_nil (h : s.At source before []) : skipIgnored source s = .ok s := by
  have hbyte := h.byteAt?
  rw [skipIgnored]
  split
  · rfl
  · rename_i hb
    cases hb.symm.trans hbyte

theorem skipIgnored_cons (h : s.At source before (c :: cs)) : skipIgnored source s =
    if isBlank c then skipIgnored source (s.skip 1)
    else if c = '\uFEFF' then skipIgnored source (s.skip 3)
    else if c = '\n' then skipIgnored source s.newline
    else if c = '#' then skipIgnored source { s with pos := runEnd source (· != '\n') s.pos }
    else .ok s := by
  have hbyte := h.byteAt?
  conv_lhs => rw [skipIgnored]
  split
  · rename_i hb
    cases hb.symm.trans hbyte
  · rename_i b hb
    obtain rfl := Option.some.inj (hb.symm.trans hbyte)
    simp only [h.rest, ascii_isBlank.leadByte, leadByte_eq_iff (show '\n'.toNat < 128 by decide),
      leadByte_eq_iff (show '#'.toNat < 128 by decide), List.head?_cons, Option.some.injEq]
    by_cases hmark : c = '\uFEFF'
    · subst hmark
      rfl
    · rw [if_neg hmark, if_neg hmark]
      by_cases hlead : leadByte c = '\xEF'
      · -- another character of the mark's first byte
        have hstop {x : Char} (hx : x.toNat < 128) : c ≠ x := by
          rintro rfl
          rw [(leadByte_eq_iff hx).mpr rfl] at hlead
          exact absurd hx (by rw [hlead]; decide)
        rw [if_pos hlead, if_neg (hstop (by decide)), if_neg (hstop (by decide))]
      · rw [if_neg hlead]
        rfl

theorem splitGap_true (cs : List Char) : splitGap true cs =
    (cs.takeWhile (· != '\n') ++ (splitGap false (cs.dropWhile (· != '\n'))).1,
      (splitGap false (cs.dropWhile (· != '\n'))).2) := by
  induction cs with
  | nil => rfl
  | cons c cs ih =>
      by_cases hc : c = '\n'
      · subst hc
        rfl
      · have hne : (c != '\n') = true := bne_iff_ne.mpr hc
        simp only [splitGap, List.takeWhile_cons, List.dropWhile_cons, hne, if_true, ih,
          List.cons_append]

theorem splitGap_hash (cs : List Char) : splitGap false ('#' :: cs) =
    (('#' :: cs).takeWhile (· != '\n') ++
      (splitGap false (('#' :: cs).dropWhile (· != '\n'))).1,
      (splitGap false (('#' :: cs).dropWhile (· != '\n'))).2) := by
  have hhash : splitGap false ('#' :: cs) = splitGap true ('#' :: cs) := rfl
  rw [hhash, splitGap_true]

theorem bne_newline (x : Char) (hx : 128 ≤ x.toNat) : (x != '\n') = true :=
  bne_iff_ne.mpr (beq_eq_false_iff_ne.mp (ascii_beq (by decide) x hx))

theorem skipIgnored_of_ignorable (h : s.At source before (c :: cs)) (hc : isIgnorable c = true) :
    ∃ s', skipIgnored source s = skipIgnored source s' ∧ s'.At source (before ++ [c]) cs := by
  rw [skipIgnored_cons h]
  simp only [isIgnorable, Bool.or_eq_true, beq_iff_eq, or_assoc] at hc
  rcases hc with rfl | rfl | rfl | rfl | rfl | rfl
  · exact ⟨_, rfl, h.skip (by decide)⟩
  · exact ⟨_, rfl, h.skip (by decide)⟩
  · exact ⟨_, rfl, h.skip (by decide)⟩
  · exact ⟨_, rfl, h.skip (by decide)⟩
  · exact ⟨_, rfl, h.newline⟩
  · exact ⟨_, rfl, h.skip (by decide)⟩

theorem skipIgnored_of_visible (h : s.At source before (c :: cs)) (hc : Visible c) :
    skipIgnored source s = .ok s := by
  have hblank : isIgnorable c = (isBlank c || c == '\n' || c == '\uFEFF') := rfl
  obtain ⟨hgap, hhash⟩ := hc
  rw [hblank, Bool.or_eq_false_iff, Bool.or_eq_false_iff, beq_eq_false_iff_ne,
    beq_eq_false_iff_ne] at hgap
  rw [skipIgnored_cons h, hgap.1.1, if_neg Bool.false_ne_true, if_neg hgap.2, if_neg hgap.1.2,
    if_neg hhash]

theorem exists_skipIgnored (h : s.At source before cs) : ∃ s', skipIgnored source s = .ok s' ∧
    s'.At source (before ++ (splitGap false cs).1) (splitGap false cs).2 := by
  induction hn : cs.length using Nat.strong_induction_on generalizing s before cs with
  | _ n ih =>
      cases cs with
      | nil => exact ⟨s, skipIgnored_nil h, by rwa [splitGap, List.append_nil]⟩
      | cons c cs =>
          by_cases hc : isIgnorable c = true
          · obtain ⟨s', hs', hat⟩ := skipIgnored_of_ignorable h hc
            obtain ⟨s'', hs'', hat'⟩ := ih cs.length (hn ▸ Nat.lt_succ_self _) hat rfl
            refine ⟨s'', hs'.trans hs'', ?_⟩
            rw [List.append_assoc] at hat'
            rwa [splitGap, if_neg Bool.false_ne_true, if_pos hc]
          · by_cases hhash : c = '#'
            · subst hhash
              have hshort : (cs.dropWhile (· != '\n')).length ≤ cs.length :=
                (List.dropWhile_sublist _).length_le
              obtain ⟨s', hs', hat⟩ := ih _ (hn ▸ Nat.lt_succ_of_le hshort)
                (h.run bne_newline (by decide)) rfl
              refine ⟨s', (skipIgnored_cons h).trans hs', ?_⟩
              rwa [splitGap_hash, ← List.append_assoc]
            · have hvisible : Visible c := ⟨Bool.eq_false_iff.mpr hc, hhash⟩
              have hgap : splitGap false (c :: cs) = ([], c :: cs) :=
                splitGap_of_visible .nil hvisible
              exact ⟨s, skipIgnored_of_visible h hvisible, by rwa [hgap, List.append_nil]⟩

end Gaps

section Runs

variable {source : String} {s : State} {before cs : List Char}

def Halt.of (e : LexError) : Halt := .refused e.fault e.place.line e.place.column

theorem nextToken_nil {s' : State} (hskip : skipIgnored source s = .ok s')
    (h : s'.At source before []) :
    nextToken source s = .ok (none, ⟨s'.pos, s'.pos, s'.line, s'.column⟩, s') := by
  have hbyte := h.byteAt?
  rw [nextToken, hskip]
  simp only [bind, Except.bind, hbyte, List.head?_nil, Option.map_none]
  rfl

theorem nextToken_cons {s' : State} {c : Char} (hskip : skipIgnored source s = .ok s')
    (h : s'.At source before (c :: cs)) :
    nextToken source s = (readToken source s'.line s'.column (leadByte c) s').map fun p =>
      (some p.1, ⟨s'.pos, p.2.pos, s'.line, s'.column⟩, p.2) := by
  have hbyte := h.byteAt?
  rw [nextToken, hskip]
  simp only [bind, Except.bind, hbyte, List.head?_cons, Option.map_some]
  cases readToken source s'.line s'.column (leadByte c) s' <;> rfl

theorem tokenizeFrom_step (source : String) (s : State) : tokenizeFrom source s =
    match nextToken source s with
    | .error e => .error e
    | .ok (none, span, _) => .ok ⟨[], ⟨span.start, span.line, span.column⟩⟩
    | .ok (some kind, span, s') => (tokenizeFrom source s').map fun ts =>
        { ts with items := ⟨kind, span⟩ :: ts.items } := by
  conv_lhs => rw [tokenizeFrom]
  split <;> simp [*]

theorem tokenizeFrom_eq (h : s.At source before cs) : tokenizeFrom source s =
    (SchemaGraph.tokenizeFrom (Position.start.after before) cs).mapError Halt.of := by
  induction hn : cs.length using Nat.strong_induction_on generalizing s before cs with
  | _ n ih =>
      obtain ⟨s', hskip, hat⟩ := exists_skipIgnored h
      have happ := congrArg List.length (splitGap_append false cs)
      rw [List.length_append] at happ
      rw [tokenizeFrom_step, SchemaGraph.tokenizeFrom_step]
      obtain ⟨gap, rest, hgap⟩ : ∃ gap rest, splitGap false cs = (gap, rest) := ⟨_, _, rfl⟩
      rw [hgap] at hat happ ⊢
      dsimp only at hat happ
      cases rest with
      | nil =>
          dsimp only
          rw [nextToken_nil hskip hat, ← Position.after_append, ← hat.place]
          rfl
      | cons c r =>
          dsimp only
          rw [nextToken_cons hskip hat, ← Position.after_append]
          have hread : Mirrors s'.line s'.column (Reads source (before ++ gap))
            (readToken source s'.line s'.column (leadByte c) s') (Token.scan c r) :=
              mirrors_readToken hat
          generalize readToken source s'.line s'.column (leadByte c) s' = m at hread
          generalize hscan : Token.scan c r = x at hread
          cases hread with
          | error fault =>
              rw [← hat.place]
              rfl
          | @ok q l hread =>
              obtain ⟨kind, u⟩ := q
              obtain ⟨rfl, hu⟩ := hread
              have hshort := Token.length_rest_lt_of_scan hscan
              have htail := ih l.rest.length (by omega) hu rfl
              have hspan : (⟨s'.pos, u.pos, s'.line, s'.column⟩ : Span) =
                  .between (Position.start.after (before ++ gap))
                    (Position.start.after (before ++ gap ++ l.text)) := by
                rw [← hu.place, ← hat.place]
                rfl
              change (tokenizeFrom source u).map _ = (Except.map _ (SchemaGraph.tokenizeFrom
                ((Position.start.after (before ++ gap)).after l.text) l.rest)).mapError Halt.of
              rw [← Position.after_append, htail, hspan]
              cases SchemaGraph.tokenizeFrom
                (Position.start.after (before ++ gap ++ l.text)) l.rest <;> rfl

theorem tokenize_eq (source : String) :
    tokenize source = (SchemaGraph.tokenize source).mapError Halt.of :=
  tokenizeFrom_eq (State.At.start source)

theorem tokenize_ok_iff {source : String} {ts : Tokens} :
    tokenize source = .ok ts ↔ SchemaGraph.tokenize source = .ok ts := by
  rw [tokenize_eq]
  cases SchemaGraph.tokenize source <;> simp [Except.mapError]

theorem tokenize_lossless (source : String) :
    tokenize source = (SchemaGraph.tokenize source).mapError Halt.of ∧
    match tokenize source with
    | .ok ts => ts.Covers source ∧ ∀ t ∈ ts.items,
        ∃ ts', tokenize (Text.slice source t.span.start t.span.stop) = .ok ts' ∧
          ts'.items.map Token.kind = [t.kind]
    | .error halt => ∃ e : LexError, halt = .of e ∧ e.Marks source ∧
        ∃ ts, tokenize (Text.slice source 0 e.place.offset) = .ok ts := by
  refine ⟨tokenize_eq source, ?_⟩
  rw [tokenize_eq]
  cases h : SchemaGraph.tokenize source with
  | ok ts =>
      have hcovers := covers_of_tokenize h
      refine ⟨hcovers, fun t ht => ?_⟩
      obtain ⟨ts', hts', hkind⟩ := hcovers.alone t ht
      exact ⟨ts', tokenize_ok_iff.mpr hts', hkind⟩
  | error e =>
      have hmarks := marks_of_tokenize h
      obtain ⟨ts, hts⟩ := hmarks.before
      exact ⟨e, rfl, hmarks, ts, tokenize_ok_iff.mpr hts⟩

end Runs

end SchemaGraph.Lexer
