import SchemaGraph.Proofs.Joining
import SchemaGraph.Proofs.Lines

namespace SchemaGraph

open Text (Position Span breakLines breakLines_append breakLines_newline breakLines_char
  breakLines_of_notMem slice)

abbrev crlf (cs : List Char) : List Char := breakLines ['\r', '\n'] cs

def Unbroken (cs : List Char) : Prop := ∀ c ∈ cs, c ≠ '\n' ∧ c ≠ '\r'

variable {c : Char} {cs t r : List Char} {k : TokenKind}

theorem Unbroken.crlf (h : Unbroken cs) : crlf cs = cs :=
  breakLines_of_notMem fun hc => (h _ hc).1 rfl

theorem Unbroken.append {ds : List Char} (hc : Unbroken cs) (hd : Unbroken ds) : Unbroken (cs ++ ds) :=
  List.forall_mem_append.mpr ⟨hc, hd⟩

theorem unbroken_of_forall {p : Char → Bool} (hn : p '\n' = false) (hr : p '\r' = false)
    (h : ∀ c ∈ cs, p c = true) : Unbroken cs := by
  intro c hc
  constructor <;> rintro rfl
  · exact nomatch hn.symm.trans (h _ hc)
  · exact nomatch hr.symm.trans (h _ hc)

theorem exists_of_crlf_eq_append (ht : Unbroken t) (h : crlf cs = t ++ r) :
    ∃ s, cs = t ++ s ∧ r = crlf s := by
  induction t generalizing cs with
  | nil => exact ⟨cs, rfl, h.symm⟩
  | cons x t ih =>
      obtain ⟨hx, htail⟩ := List.forall_mem_cons.mp ht
      cases cs with
      | nil => cases h
      | cons c cs =>
          by_cases hc : c = '\n'
          · subst hc
            exact absurd (List.cons.inj h).1.symm hx.2
          · rw [crlf, breakLines_char hc] at h
            obtain ⟨rfl, hrest⟩ := List.cons.inj h
            obtain ⟨s, rfl, hr⟩ := ih htail hrest
            exact ⟨s, rfl, hr⟩

theorem prefix_of_crlf (ht : Unbroken t) (h : t <+: crlf cs) : t <+: cs := by
  obtain ⟨r, hr⟩ := h
  obtain ⟨s, rfl, -⟩ := exists_of_crlf_eq_append ht hr.symm
  exact List.prefix_append t s

theorem head?_crlf (cs : List Char) :
    (crlf cs).head? = cs.head? ∨ cs.head? = some '\n' ∧ (crlf cs).head? = some '\r' := by
  cases cs with
  | nil => exact Or.inl rfl
  | cons c cs =>
      by_cases hc : c = '\n'
      · subst hc
        exact Or.inr ⟨rfl, rfl⟩
      · rw [crlf, breakLines_char hc]
        exact Or.inl rfl

theorem TokenKind.stops_crlf (k : TokenKind) (cs : List Char) :
    k.Stops (crlf cs).head? ↔ k.Stops cs.head? := by
  rcases head?_crlf cs with h | ⟨h, h'⟩
  · rw [h]
  · rw [h, h']
    exact iff_of_true (k.stops_of_ignorable (Or.inl rfl)) (k.stops_of_ignorable (Or.inl rfl))

theorem IsGap.crlf {gap : List Char} (h : IsGap gap) : IsGap (crlf gap) := by
  induction h with
  | nil => exact .nil
  | @char c cs hi _ ih =>
      by_cases hc : c = '\n'
      · subst hc
        exact .char rfl (.char rfl ih)
      · rw [SchemaGraph.crlf, breakLines_char hc]
        exact .char hi ih
  | @comment body cs hb _ ih =>
      have hbody : '\n' ∉ body ++ ['\r'] := by simpa using hb
      have hcomment := IsGap.comment hbody ih
      rw [List.append_assoc] at hcomment
      rw [SchemaGraph.crlf, breakLines_char (by decide), breakLines_append, breakLines_of_notMem hb]
      exact hcomment

theorem IsTail.crlf {tail : List Char} (h : IsTail tail) : IsTail (crlf tail) := by
  rcases h with h | ⟨gap, body, rfl, hg, hb⟩
  · exact h.crlf.isTail
  · refine Or.inr ⟨_, body, ?_, hg.crlf, hb⟩
    rw [SchemaGraph.crlf, breakLines_append, breakLines_char (by decide), breakLines_of_notMem hb]

namespace StringLiteral

theorem unbroken_of_hexValue? {n : Nat} (h : hexValue? c = some n) : c ≠ '\n' ∧ c ≠ '\r' := by
  constructor <;> rintro rfl <;> cases h

theorem unbroken_of_unicode? {a b d x : Char} (h : unicode? a b c d = some x) :
    Unbroken [a, b, c, d] := by
  obtain ⟨_, ha, h⟩ := Option.bind_eq_some_iff.mp h
  obtain ⟨_, hb, h⟩ := Option.bind_eq_some_iff.mp h
  obtain ⟨_, hc, h⟩ := Option.bind_eq_some_iff.mp h
  obtain ⟨_, hd, -⟩ := Option.bind_eq_some_iff.mp h
  simp only [Unbroken, List.forall_mem_cons]
  exact ⟨unbroken_of_hexValue? ha, unbroken_of_hexValue? hb, unbroken_of_hexValue? hc,
    unbroken_of_hexValue? hd, List.forall_mem_nil _⟩

theorem unbroken_of_escaped? {x : Char} (h : escaped? c = some x) : c ≠ '\n' ∧ c ≠ '\r' := by
  constructor <;> rintro rfl <;> cases h

theorem unbroken_of_read {l : Lexeme (List Char)} (h : read cs = .ok l) : Unbroken l.text := by
  fun_induction read cs generalizing l with
  | case2 s =>
      obtain rfl := Except.ok.inj h
      exact List.forall_mem_singleton.mpr (by decide)
  | case6 a b c d s x hx ih =>
      obtain ⟨l', hl', -, ht, -⟩ := exists_of_map_grow h
      rw [ht]
      have hu : Unbroken ['\\', 'u'] := by simp [Unbroken]
      exact (hu.append (unbroken_of_unicode? hx)).append (ih hl')
  | case9 e s _ _ x hx ih =>
      obtain ⟨l', hl', -, ht, -⟩ := exists_of_map_grow h
      rw [ht]
      exact List.forall_mem_cons.mpr ⟨by decide, List.forall_mem_cons.mpr
        ⟨unbroken_of_escaped? hx, ih hl'⟩⟩
  | case11 c s hq hn hr _ _ _ _ ih =>
      obtain ⟨l', hl', -, ht, -⟩ := exists_of_map_grow h
      rw [ht]
      exact List.forall_mem_cons.mpr ⟨⟨hn, hr⟩, ih hl'⟩
  | _ => cases h

theorem readBlock_crlf (cs : List Char) : readBlock (crlf cs) =
    (readBlock cs).map fun l => ⟨crlf l.value, crlf l.text, crlf l.rest⟩ := by
  fun_induction readBlock cs with
  | case1 => rfl
  | case2 r => rfl
  | case3 r ih =>
      change (readBlock (crlf r)).map (Lexeme.grow ['"', '"', '"'] ['\\', '"', '"', '"']) = _
      rw [ih]
      cases readBlock r <;> rfl
  | case4 c r hq hb ih =>
      by_cases hc : c = '\n'
      · subst hc
        have hreturn : readBlock ('\r' :: '\n' :: crlf r) =
            ((readBlock (crlf r)).map (.grow ['\n'] ['\n'])).map (.grow ['\r'] ['\r']) := by
          rw [readBlock_plain (by simp) (by simp), readBlock_plain (by simp) (by simp)]
        refine hreturn.trans ?_
        rw [ih]
        cases readBlock r <;> rfl
      · have hquotes (t : List Char) (ht : Unbroken t) (h : t <+: c :: crlf r) : t <+: c :: r := by
          refine prefix_of_crlf ht ?_
          rwa [crlf, breakLines_char hc]
        rw [crlf, breakLines_char hc, readBlock_plain, ih]
        · have hgrow (v : List Char) : crlf (c :: v) = c :: crlf v := breakLines_char hc v
          cases readBlock r with
          | error e => rfl
          | ok l => simp [Except.map, Lexeme.grow, hgrow]
        · intro h
          obtain ⟨s, hs⟩ := hquotes _ (by simp [Unbroken]) h
          obtain ⟨rfl, rfl⟩ := List.cons.inj hs
          exact hq s rfl rfl
        · intro h
          obtain ⟨s, hs⟩ := hquotes _ (by simp [Unbroken]) h
          obtain ⟨rfl, rfl⟩ := List.cons.inj hs
          exact hb s rfl rfl

end StringLiteral

namespace Numeral

theorem unbroken_of_isDigits (h : IsDigits cs) : Unbroken cs :=
  unbroken_of_forall (p := Char.isDigit) rfl rfl h.2

theorem unbroken_text {n : Numeral} (h : n.Valid) : Unbroken n.text := by
  have hsign : Unbroken (if n.negative then ['-'] else []) := by
    cases n.negative <;> simp [Unbroken]
  have hwhole : Unbroken n.whole := by
    rcases h.whole with hzero | ⟨hdigits, -⟩
    · rw [hzero]
      simp [Unbroken]
    · exact unbroken_of_isDigits hdigits
  have hfraction : Unbroken (n.fraction.elim [] ('.' :: ·)) := by
    cases hf : n.fraction with
    | none => exact List.forall_mem_nil _
    | some ds => exact List.forall_mem_cons.mpr ⟨by decide, unbroken_of_isDigits (h.fraction ds hf)⟩
  have hexponent : Unbroken (n.exponent.elim [] Exponent.text) := by
    cases he : n.exponent with
    | none => exact List.forall_mem_nil _
    | some e =>
        obtain ⟨hmark, hmarkSign, hdigits⟩ := h.exponent e he
        refine List.forall_mem_cons.mpr ⟨?_, Unbroken.append (fun c hc => ?_)
          (unbroken_of_isDigits hdigits)⟩
        · rcases hmark with hm | hm <;> rw [hm] <;> decide
        · rcases hmarkSign c (Option.mem_toList.mp hc) with rfl | rfl <;> decide
  exact ((hsign.append hwhole).append hfraction).append hexponent

end Numeral

namespace Token

theorem unbroken_of_scan (h : scan c cs = .ok ⟨k, t, r⟩) (hblock : ¬['"', '"', '"'] <+: c :: cs) :
    Unbroken t := by
  unfold scan at h
  split at h
  · rename_i p hp
    obtain ⟨-, rfl, -⟩ := Lexeme.mk.inj (Except.ok.inj h)
    rw [← Punct.char_of_ofChar? hp]
    exact List.forall_mem_singleton.mpr (by cases p <;> decide)
  split at h
  · rename_i hq
    subst hq
    unfold scanString at h
    split at h
    · rename_i s heq
      exact absurd ⟨s, heq.symm⟩ hblock
    · rename_i x s _ heq
      obtain ⟨rfl, rfl⟩ := List.cons.inj heq
      obtain ⟨l, hl, he⟩ := exists_of_map_eq_ok h
      obtain ⟨-, rfl, -⟩ := Lexeme.mk.inj he
      exact List.forall_mem_cons.mpr ⟨by decide, StringLiteral.unbroken_of_read hl⟩
    · cases h
  split at h
  · obtain ⟨n, hr, -, rfl⟩ := scanNumber_eq_ok_iff.mp h
    exact Numeral.unbroken_text (Numeral.read_eq_ok_iff.mp hr).2.1
  split at h
  · rename_i hstart
    obtain ⟨-, rfl, -⟩ := Lexeme.mk.inj (Except.ok.inj h)
    refine List.forall_mem_cons.mpr ⟨?_, unbroken_of_forall rfl rfl
      (List.all_eq_true.mp List.all_takeWhile)⟩
    constructor <;> rintro rfl <;> cases hstart
  · cases h

theorem scan_block (cs : List Char) : scan '"' ('"' :: '"' :: cs) =
    (StringLiteral.readBlock cs).map fun l =>
      ⟨.blockString (String.ofList (Text.dedent l.value)), '"' :: '"' :: '"' :: l.text, l.rest⟩ := rfl

theorem scan_crlf (h : scan c cs = .ok ⟨k, t, r⟩) : scan c (crlf cs) = .ok ⟨k, crlf t, crlf r⟩ := by
  have hc : c ≠ '\n' := by
    rintro rfl
    cases h
  -- block strings are the only tokens that hold line breaks
  by_cases hblock : ['"', '"', '"'] <+: c :: cs
  · obtain ⟨s, hs⟩ := hblock
    obtain ⟨rfl, rfl⟩ := List.cons.inj hs
    obtain ⟨l, hl, he⟩ := exists_of_map_eq_ok ((scan_block s).symm.trans h)
    obtain ⟨rfl, rfl, rfl⟩ := Lexeme.mk.inj he
    have hread := (StringLiteral.readBlock_crlf s).trans (congrArg (Except.map _) hl)
    have hvalue : Text.dedent (crlf l.value) = Text.dedent l.value := by
      rw [Text.dedent_eq, Text.bareLines_crlf, ← Text.dedent_eq]
    refine (scan_block (crlf s)).trans ((congrArg (Except.map _) hread).trans ?_)
    dsimp only [Except.map]
    rw [hvalue]
    rfl
  · obtain ⟨happ, hspells, hstops⟩ := scan_eq_ok_iff.mp h
    have ht := unbroken_of_scan h hblock
    refine scan_eq_ok_iff.mpr ⟨?_, ht.crlf.symm ▸ hspells, (k.stops_crlf r).mpr hstops⟩
    rw [← breakLines_append, ← happ, breakLines_char hc]

theorem exists_of_scan_crlf {l : Lexeme TokenKind} (hc : c ≠ '\n') (h : scan c (crlf cs) = .ok l) :
    ∃ l', scan c cs = .ok l' := by
  obtain ⟨k, t, r⟩ := l
  by_cases hblock : ['"', '"', '"'] <+: c :: cs
  · obtain ⟨s, hs⟩ := hblock
    obtain ⟨rfl, rfl⟩ := List.cons.inj hs
    obtain ⟨l, hl, -⟩ := exists_of_map_eq_ok ((scan_block (crlf s)).symm.trans h)
    obtain ⟨l', hl', -⟩ := exists_of_map_eq_ok ((StringLiteral.readBlock_crlf s).symm.trans hl)
    exact ⟨_, (scan_block s).trans (congrArg (Except.map _) hl')⟩
  · have hcons : crlf (c :: cs) = c :: crlf cs := breakLines_char hc cs
    have ht := unbroken_of_scan h fun hp => hblock (prefix_of_crlf (by simp [Unbroken]) (hcons ▸ hp))
    obtain ⟨happ, hspells, hstops⟩ := scan_eq_ok_iff.mp h
    obtain ⟨s, hs, rfl⟩ := exists_of_crlf_eq_append ht (hcons.trans happ)
    exact ⟨_, scan_eq_ok_iff.mpr ⟨hs, hspells, (k.stops_crlf s).mp hstops⟩⟩

end Token

def withCrlf (source : String) : String := .ofList (crlf source.toList)

def Relocation.returns (source : String) : Relocation :=
  ⟨fun i => i + (slice source 0 i).toList.count '\n', fun i => i + (slice source 0 i).toList.count '\n',
    id, id⟩

theorem Text.Position.shift_after_crlf (p : Position) (n : Nat) (cs : List Char) :
    (p.shift n 0).after (crlf cs) = (p.after cs).shift (n + cs.count '\n') 0 := by
  induction cs generalizing p n with
  | nil => rfl
  | cons c cs ih =>
      by_cases hc : c = '\n'
      · subst hc
        have hnext : ((p.shift n 0).next '\r').next '\n' = (p.next '\n').shift (n + 1) 0 := by
          change (⟨p.offset + n + 1 + 1, p.line + 1, 1⟩ : Position) =
            ⟨p.offset + 1 + (n + 1), p.line + 1, 1⟩
          rw [Nat.add_right_comm p.offset n 1, Nat.add_assoc]
        rw [crlf, breakLines_newline, List.cons_append, List.singleton_append, after_cons, after_cons,
          hnext, ih, after_cons, List.count_cons_self, Nat.add_right_comm, Nat.add_assoc]
      · have hnext : (p.shift n 0).next c = (p.next c).shift n 0 := p.shift_after n 0 [c]
        rw [crlf, breakLines_char hc, after_cons, after_cons, List.count_cons_of_ne hc, hnext, ih]

namespace Relocation

def position (r : Relocation) (p : Position) : Position :=
  ⟨r.start p.offset, r.line p.line, r.column p.column⟩

def tokens (r : Relocation) (ts : Tokens) : Tokens := ⟨ts.items.map r.token, r.position ts.finish⟩

variable {source : String} {a b : List Char}

theorem position_returns (h : source.toList = a ++ b) :
    (returns source).position (Position.start.after a) = Position.start.after (crlf a) := by
  have hcount : (returns source).start (String.utf8Len a) = String.utf8Len a + a.count '\n' := by
    dsimp only [returns]
    rw [Text.slice_zero_of_append h, String.toList_ofList]
  have hcrlf := Position.start.shift_after_crlf 0 a
  rw [Nat.zero_add] at hcrlf
  rw [position, Position.offset_start_after, hcount, ← Position.offset_start_after]
  exact hcrlf.symm

theorem position_returns_after (h : source.toList = a ++ (b ++ cs)) :
    (returns source).position ((Position.start.after a).after b) =
      (Position.start.after (crlf a)).after (crlf b) := by
  rw [← Position.after_append, ← Position.after_append, ← breakLines_append]
  exact position_returns (h.trans (List.append_assoc a b cs).symm)

end Relocation

inductive SameTokens (source : String) : Except LexError Tokens → Except LexError Tokens → Prop
  | ok (ts : Tokens) : SameTokens source (.ok ts) (.ok ((Relocation.returns source).tokens ts))
  | error {e e' : LexError} (h : e'.place = (Relocation.returns source).position e.place) :
      SameTokens source (.error e) (.error e')

theorem SameTokens.cons {source : String} {x y : Except LexError Tokens} (h : SameTokens source x y)
    (k : TokenKind) (p q : Position) : SameTokens source
      (x.map fun ts => { ts with items := ⟨k, .between p q⟩ :: ts.items })
      (y.map fun ts => { ts with items := ⟨k, .between ((Relocation.returns source).position p)
        ((Relocation.returns source).position q)⟩ :: ts.items }) := by
  cases h with
  | ok ts => exact .ok ⟨⟨k, .between p q⟩ :: ts.items, ts.finish⟩
  | error he => exact .error he

theorem sameTokens_from {source : String} {a : List Char} (h : source.toList = a ++ cs) :
    SameTokens source (tokenizeFrom (Position.start.after a) cs)
      (tokenizeFrom (Position.start.after (crlf a)) (crlf cs)) := by
  -- by induction on what is left: both runs pass the same gap and then read the same token, or neither
  -- reads any
  induction hn : cs.length using Nat.strongRecOn generalizing a cs with
  | _ n ih =>
      rcases isTail_or_visible cs with ht | ⟨gap, c, r, rfl, hg, hc⟩
      · have hplace := Relocation.position_returns_after (h.trans (by rw [List.append_nil]))
        rw [tokenizeFrom_of_isTail ht, tokenizeFrom_of_isTail ht.crlf, ← hplace]
        exact .ok _
      · have hline : c ≠ '\n' := by
          rintro rfl
          exact nomatch hc.1
        have hplace := Relocation.position_returns_after h
        have hcrlf : crlf (gap ++ c :: r) = crlf gap ++ c :: crlf r := by
          rw [crlf, breakLines_append, breakLines_char hline]
        rw [hcrlf]
        cases hs : Token.scan c r with
        | error fault =>
            cases hs' : Token.scan c (crlf r) with
            | error fault' =>
                rw [tokenizeFrom_of_error hg hc hs, tokenizeFrom_of_error hg.crlf hc hs']
                exact .error hplace.symm
            | ok l =>
                obtain ⟨l', hl'⟩ := Token.exists_of_scan_crlf hline hs'
                exact nomatch hs.symm.trans hl'
        | ok l =>
            obtain ⟨k, t, left⟩ := l
            have happ : t ++ left = c :: r := (Token.scan_append hs).1
            have hlt : left.length < n := by
              rw [← hn, List.length_append]
              exact Nat.lt_add_left _ (Token.length_rest_lt_of_scan hs)
            have htext : source.toList = a ++ ((gap ++ t) ++ left) := by rw [h, ← happ, List.append_assoc]
            have hstop := Relocation.position_returns_after htext
            have hrest := ih left.length hlt (htext.trans (List.append_assoc ..).symm) rfl
            rw [crlf, breakLines_append, Position.after_append,
              Position.after_append _ (breakLines _ a)] at hrest
            have hcons := hrest.cons k ((Position.start.after a).after gap)
              ((Position.start.after a).after (gap ++ t))
            rw [hplace, hstop] at hcons
            rw [tokenizeFrom_of_scan hg hs, tokenizeFrom_of_scan hg.crlf (Token.scan_crlf hs),
              ← breakLines_append]
            exact hcons

theorem sameTokens_tokenize (source : String) :
    SameTokens source (tokenize source) (tokenize (withCrlf source)) := by
  have hall : source.toList = [] ++ source.toList := rfl
  rw [tokenize, tokenize, withCrlf, String.toList_ofList]
  exact sameTokens_from hall

namespace Document

theorem ofTokens_returns (source : String) (ts : Tokens) :
    ofTokens ((Relocation.returns source).tokens ts) =
      match ofTokens ts with
      | .ok d => .ok ((Relocation.returns source).document d)
      | .error e => .error e := by
  have hf : Parser.Follows ⟨.returns source, [], nofun, ((Relocation.returns source).tokens ts).finish,
      True, fun _ => rfl⟩ 0 ⟨ts.items, .nowhere, ts.finish⟩
      ⟨((Relocation.returns source).tokens ts).items, .nowhere,
        ((Relocation.returns source).tokens ts).finish⟩ :=
    ⟨(List.append_nil _).symm, nofun, rfl, fun _ => rfl⟩
  have hrun := Parser.carries_document trivial hf
  unfold ofTokens
  generalize Parser.document ⟨ts.items, .nowhere, ts.finish⟩ = x at hrun ⊢
  generalize Parser.document ⟨((Relocation.returns source).tokens ts).items, .nowhere,
    ((Relocation.returns source).tokens ts).finish⟩ = y at hrun ⊢
  cases hrun with
  | error he => rw [he trivial]; rfl
  | ok hab hf' => rw [hab]; rfl

theorem parse_withCrlf (source : String) :
    (match tokenize source, tokenize (withCrlf source) with
    | .ok ts, .ok ts' => ts' = (Relocation.returns source).tokens ts
    | .error e, .error e' => e'.place = (Relocation.returns source).position e.place
    | _, _ => False) ∧
    match parse source, parse (withCrlf source) with
    | .ok d, .ok d' => d' = (Relocation.returns source).document d
    | .error e, .error e' => e'.line = e.line ∧ e'.column = e.column ∧
        (e' = e ∨ ∃ fault fault', e.fault = .lexical fault ∧ e'.fault = .lexical fault')
    | _, _ => False := by
  have hsame := sameTokens_tokenize source
  unfold parse
  generalize tokenize source = x at hsame
  generalize tokenize (withCrlf source) = y at hsame
  cases hsame with
  | @error e e' h =>
      have hline := congrArg Position.line h
      have hcolumn := congrArg Position.column h
      exact ⟨h, hline, hcolumn, Or.inr ⟨e.fault, e'.fault, rfl, rfl⟩⟩
  | ok ts =>
      refine ⟨rfl, ?_⟩
      dsimp only
      rw [ofTokens_returns]
      cases ofTokens ts with
      | ok d => rfl
      | error e => exact ⟨rfl, rfl, Or.inl rfl⟩

end Document

end SchemaGraph
