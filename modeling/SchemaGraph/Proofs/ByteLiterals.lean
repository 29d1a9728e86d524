import SchemaGraph.Proofs.Standing

namespace SchemaGraph.Lexer

open StringLiteral (leadByte)

section Numbers

variable {source : String} {s : State} {before cs : List Char} {line column : Nat}

theorem eq_cons_or (c : Char) (cs : List Char) :
    (∃ r, cs = c :: r) ∨ cs.head?.elim false (· == c) = false ∧ ∀ r, cs ≠ c :: r := by
  cases cs with
  | nil => exact Or.inr ⟨rfl, fun r => (List.cons_ne_nil c r).symm⟩
  | cons x xs =>
      by_cases hx : x = c
      · exact Or.inl ⟨xs, by rw [hx]⟩
      · exact Or.inr ⟨beq_eq_false_iff_ne.mpr hx, fun r h => hx (List.cons.inj h).1⟩

theorem mirrors_expectDigits (h : s.At source before cs) :
    Mirrors line column (fun s' p => s'.At source (before ++ p.1) p.2)
      (expectDigits source line column s) (Numeral.readDigits cs) := by
  have hrun := h.run ascii_isDigit (by decide)
  rw [expectDigits, h.passes ascii_isDigit, Numeral.readDigits]
  cases cs with
  | nil => exact .error _
  | cons c cs =>
      cases hc : c.isDigit with
      | true =>
          rw [List.takeWhile_cons_of_pos hc] at hrun ⊢
          rw [List.head?_cons, Option.elim_some, if_pos hc]
          exact .ok hrun
      | false =>
          rw [List.takeWhile_cons_of_neg (by simp [hc]), List.head?_cons, Option.elim_some, hc]
          exact .error _

theorem at_readSign (h : s.At source before cs) :
    (readSign source s).At source
      (before ++ if (Numeral.readSign cs).1 then ['-'] else []) (Numeral.readSign cs).2 := by
  rw [readSign, h.passes (ascii_beq (by decide))]
  rcases eq_cons_or '-' cs with ⟨r, rfl⟩ | ⟨hhead, hne⟩
  · exact State.At.skip h (by decide)
  · rw [hhead, Numeral.readSign.eq_2 cs hne, if_neg Bool.false_ne_true, if_neg Bool.false_ne_true,
      List.append_nil]
    exact h

theorem mirrors_readWhole (h : s.At source before cs) :
    Mirrors line column (fun s' p => s'.At source (before ++ p.1) p.2)
      (readWhole source line column s) (Numeral.readWhole cs) := by
  rw [readWhole, h.passes (ascii_beq (by decide))]
  rcases eq_cons_or '0' cs with ⟨r, rfl⟩ | ⟨hhead, hne⟩
  · have hnext := State.At.skip h (by decide)
    rw [show s.pos + 1 = (s.skip '0'.utf8Size).pos from rfl, hnext.passes ascii_isDigit,
      Numeral.readWhole, List.head?_cons, Option.elim_some, if_pos (beq_self_eq_true '0')]
    cases r.head?.elim false Char.isDigit with
    | true => exact .error _
    | false => exact .ok hnext
  · rw [hhead, Numeral.readWhole.eq_2 cs hne, if_neg Bool.false_ne_true]
    exact mirrors_expectDigits h

theorem mirrors_readFraction (h : s.At source before cs) :
    Mirrors line column
      (fun q p => q.1 = p.1.isSome ∧ q.2.At source (before ++ p.1.elim [] ('.' :: ·)) p.2)
      (readFraction source line column s) (Numeral.readFraction cs) := by
  rw [readFraction, h.passes (ascii_beq (by decide))]
  rcases eq_cons_or '.' cs with ⟨r, rfl⟩ | ⟨hhead, hne⟩
  · refine (mirrors_expectDigits (State.At.skip h (by decide))).map ?_
    rintro s' ⟨ds, r⟩ hs'
    rw [List.append_assoc] at hs'
    exact ⟨rfl, hs'⟩
  · rw [hhead, Numeral.readFraction.eq_2 cs hne, if_neg Bool.false_ne_true]
    exact .ok ⟨rfl, by rwa [Option.elim_none, List.append_nil]⟩

theorem at_readExponentSign (h : s.At source before cs) :
    (readExponentSign source s).At source (before ++ (Numeral.readExponentSign cs).1.toList)
      (Numeral.readExponentSign cs).2 := by
  rw [readExponentSign, h.passes ((ascii_beq (by decide)).or (ascii_beq (by decide)))]
  rcases eq_cons_or '+' cs with ⟨r, rfl⟩ | ⟨hplus, hneplus⟩
  · exact State.At.skip h (by decide)
  · rcases eq_cons_or '-' cs with ⟨r, rfl⟩ | ⟨hminus, hneminus⟩
    · exact State.At.skip h (by decide)
    · have hhead : cs.head?.elim false (fun b => b == '+' || b == '-') = false := by
        cases cs with
        | nil => rfl
        | cons c cs => exact Bool.or_eq_false_iff.mpr ⟨hplus, hminus⟩
      rw [hhead, Numeral.readExponentSign.eq_3 cs hneplus hneminus, Option.toList_none,
        List.append_nil]
      exact h

theorem mirrors_readExponent (h : s.At source before cs) :
    Mirrors line column
      (fun q p => q.1 = p.1.isSome ∧ q.2.At source (before ++ p.1.elim [] Exponent.text) p.2)
      (readExponent source line column s) (Numeral.readExponent cs) := by
  rw [readExponent, h.passes ((ascii_beq (by decide)).or (ascii_beq (by decide)))]
  have hstay : s.At source (before ++ (none : Option Exponent).elim [] Exponent.text) cs := by
    rwa [Option.elim_none, List.append_nil]
  cases cs with
  | nil => exact .ok ⟨rfl, hstay⟩
  | cons c cs =>
      rw [List.head?_cons, Option.elim_some, Numeral.readExponent]
      by_cases hc : c = 'e' ∨ c = 'E'
      · have hmark : s.skip c.utf8Size = s.skip 1 ∧ c ≠ '\n' := by
          rcases hc with rfl | rfl
          · exact ⟨rfl, by decide⟩
          · exact ⟨rfl, by decide⟩
        have hnext := h.skip hmark.2
        rw [hmark.1] at hnext
        rw [if_pos (by simpa using hc), if_pos hc]
        refine (mirrors_expectDigits (at_readExponentSign hnext)).map ?_
        rintro s' ⟨ds, r⟩ hs'
        rw [List.append_assoc, List.append_assoc] at hs'
        exact ⟨rfl, hs'⟩
      · rw [if_neg (by simpa using hc), if_neg hc]
        exact .ok ⟨rfl, hstay⟩

theorem mirrors_readNumeral (h : s.At source before cs) :
    Mirrors line column
      (fun q p => q.1 = p.1.isFloat ∧ q.2.At source (before ++ p.1.text) p.2)
      (readNumeral source line column s) (Numeral.read cs) := by
  refine (mirrors_readWhole (at_readSign h)).bind ?_
  rintro s₁ ⟨whole, r₁⟩ - h₁
  refine (mirrors_readFraction h₁).bind ?_
  rintro ⟨hasFraction, s₂⟩ ⟨fraction, r₂⟩ - ⟨hf, h₂⟩
  refine (mirrors_readExponent h₂).bind ?_
  rintro ⟨hasExponent, s₃⟩ ⟨exponent, r₃⟩ - ⟨he, h₃⟩
  dsimp only at hf he h₁ h₂ h₃ ⊢
  have hends : Lexer.passes source (fun b => b == '_' || b.isAlpha || b == '.') s₃.pos =
      !Numeral.endsNumber r₃ := by
    rw [h₃.passes (((ascii_beq (by decide)).or ascii_isAlpha).or (ascii_beq (by decide)))]
    cases r₃ with
    | nil => rfl
    | cons c r₃ => exact (Bool.not_not _).symm
  rw [hends]
  cases Numeral.endsNumber r₃ with
  | false => exact .error _
  | true =>
      refine .ok ⟨?_, ?_⟩
      · rw [hf, he]
        rfl
      · change s₃.At source
          (before ++ Numeral.text ⟨(Numeral.readSign cs).1, whole, fraction, exponent⟩) r₃
        simpa only [Numeral.text, List.append_assoc] using h₃

def Reads (source : String) (before : List Char) (q : TokenKind × State) (l : Lexeme TokenKind) :
    Prop :=
  q.1 = l.value ∧ q.2.At source (before ++ l.text) l.rest

theorem parse_text {n : Numeral} (hn : n.Valid) :
    (if n.isFloat then parseFloat n.text else parseInt n.text) = Token.ofNumeral n := by
  unfold Token.ofNumeral
  cases hfloat : n.isFloat with
  | true =>
      have hread : Numeral.read n.text = .ok (n, []) :=
        Numeral.read_eq_ok_iff.mpr ⟨(List.append_nil _).symm, hn, by simp [Numeral.Ends]⟩
      rw [if_pos rfl, if_pos rfl, parseFloat, hread]
      rfl
  | false =>
      rw [if_neg Bool.false_ne_true, if_neg Bool.false_ne_true, parseInt,
        hn.decimalValue_text hfloat]

theorem mirrors_readNumber (h : s.At source before cs) :
    Mirrors line column (Reads source before) (readNumber source line column s)
      (Token.scanNumber cs) := by
  refine (mirrors_readNumeral h).bind ?_
  rintro ⟨isFloat, t⟩ ⟨n, r⟩ hread ⟨hfloat, ht⟩
  dsimp only at hfloat ht ⊢
  obtain ⟨rfl, hn, -⟩ := Numeral.read_eq_ok_iff.mp hread
  rw [h.cut ht, hfloat]
  change Mirrors line column _ (settle line column t
    (if n.isFloat then parseFloat n.text else parseInt n.text)) _
  rw [parse_text hn]
  cases Token.ofNumeral n with
  | error fault => exact .error fault
  | ok kind => exact .ok ⟨rfl, ht⟩

end Numbers

section Strings

open StringLiteral (unicode? unicodeFault escaped?)

variable {source : String} {s : State} {before cs r t : List Char} {a b c d x : Char}
  {line column : Nat}

theorem toNat_of_hexValue? {n : Nat} (h : StringLiteral.hexValue? c = some n) : c.toNat < 128 := by
  refine Nat.lt_of_not_le fun hc => ?_
  have hle {y : Char} (hy : c ≤ y) : c.toNat ≤ y.toNat := hy
  unfold StringLiteral.hexValue? at h
  rw [ascii_isDigit c hc, if_neg Bool.false_ne_true] at h
  split at h
  · rename_i hlow
    exact absurd (hc.trans (hle hlow.2)) (by decide)
  · split at h
    · rename_i hup
      exact absurd (hc.trans (hle hup.2)) (by decide)
    · cases h

theorem text_of_unicode? (h : unicode? a b c d = some x) :
    String.utf8Len [a, b, c, d] = 4 ∧ '\n' ∉ [a, b, c, d] := by
  obtain ⟨na, ha, h⟩ := Option.bind_eq_some_iff.mp h
  obtain ⟨nb, hb, h⟩ := Option.bind_eq_some_iff.mp h
  obtain ⟨nc, hc, h⟩ := Option.bind_eq_some_iff.mp h
  obtain ⟨nd, hd, -⟩ := Option.bind_eq_some_iff.mp h
  have hsize {y : Char} {n : Nat} (hy : StringLiteral.hexValue? y = some n) : y.utf8Size = 1 := by
    rw [← Text.length_charBytes, Text.charBytes_of_ascii (toNat_of_hexValue? hy)]
    rfl
  have hline {y : Char} {n : Nat} (hy : StringLiteral.hexValue? y = some n) : '\n' ≠ y := by
    rintro rfl
    have hnone : StringLiteral.hexValue? '\n' = none := by decide
    rw [hnone] at hy
    cases hy
  constructor
  · simp [String.utf8Len, hsize ha, hsize hb, hsize hc, hsize hd]
  · simp [hline ha, hline hb, hline hc, hline hd]

theorem readUnicode_of_some (h : s.At source before (a :: b :: c :: d :: r))
    (hx : unicode? a b c d = some x) :
    readUnicode source line column s = .ok (x, s.skip 4) := by
  have htake : StringLiteral.takeBytes 4 (a :: b :: c :: d :: r) = some [a, b, c, d] :=
    Text.takeBytes_eq_some_iff.mpr ⟨⟨r, rfl⟩, (text_of_unicode? hx).1⟩
  rw [readUnicode, h.pos, Text.slice?_eq_takeBytes h.text, htake]
  dsimp only
  rw [hx]

theorem readUnicode_of_none (h : s.At source before cs)
    (hx : ∀ a b c d r, cs = a :: b :: c :: d :: r → unicode? a b c d = none) :
    readUnicode source line column s = refuse line column (unicodeFault cs) := by
  rw [readUnicode, unicodeFault, h.pos, Text.slice?_eq_takeBytes h.text]
  cases htake : StringLiteral.takeBytes 4 cs with
  | none => rfl
  | some hex =>
      obtain ⟨⟨r, rfl⟩, -⟩ := Text.takeBytes_eq_some_iff.mp htake
      dsimp only
      split
      · rw [hx _ _ _ _ r rfl]
      · rfl

theorem ascii_of_escaped? {e : Char} (h : escaped? e = some x) : e.toNat < 128 ∧ e ≠ '\n' := by
  unfold escaped? at h
  split at h
  all_goals first | decide | cases h

theorem readEscape_nil (h : s.At source before []) :
    readEscape source line column s = refuse line column .unterminated := by
  rw [readEscape, h.byteAt?]
  rfl

theorem readEscape_cons (h : s.At source before (c :: cs)) :
    readEscape source line column s =
      if c = 'u' then readUnicode source line column (s.skip 1)
      else (escaped? c).elim (refuse line column (.badEscape (leadByte c)))
        fun x => .ok (x, s.skip 1) := by
  rw [readEscape, h.byteAt?, List.head?_cons, Option.map_some]
  dsimp only
  rw [if_congr (leadByte_eq_iff (by decide)) rfl rfl, escaped?_leadByte]
  cases escaped? c <;> rfl

theorem readString_nil (h : s.At source before []) (value : String) :
    readString source line column value s = refuse line column .unterminated := by
  have hrest := h.rest
  rw [readString]
  split
  · rename_i hrest'
    cases hrest'.symm.trans hrest
  · rfl
  · rename_i hrest'
    cases hrest'.symm.trans hrest

theorem readString_cons (h : s.At source before (c :: cs)) (value : String) :
    readString source line column value s =
      if c = '"' then .ok (.string value, s.skip 1)
      else if c = '\n' ∨ c = '\r' then refuse line column .unterminated
      else if c = '\\' then
        readEscape source line column (s.skip 1) >>= fun p =>
          readString source line column (value.push p.1) p.2
      else readString source line column (value.push c) (s.skip c.utf8Size) := by
  have hrest := h.rest
  rw [readString]
  split
  · rename_i hrest'
    cases hrest'.symm.trans hrest
  · rename_i hrest'
    cases hrest'.symm.trans hrest
  · rename_i c' cs' hrest'
    obtain ⟨rfl, rfl⟩ := List.cons.inj (Except.ok.inj (hrest'.symm.trans hrest))
    congr 3
    split
    · rename_i e he
      simp [he, bind, Except.bind]
    · rename_i x s' he
      simp [he, bind, Except.bind]

theorem readString_escape (h : s.At source before ('\\' :: cs)) (value : String) :
    readString source line column value s = readEscape source line column (s.skip 1) >>= fun p =>
      readString source line column (value.push p.1) p.2 := by
  rw [readString_cons h, if_neg (by decide), if_neg (by decide), if_pos rfl]

theorem readString_of_unicode (h : s.At source before ('\\' :: 'u' :: r))
    (hx : ∀ a b c d r', r = a :: b :: c :: d :: r' → unicode? a b c d = none) (value : String) :
    readString source line column value s = refuse line column (unicodeFault r) := by
  have hescape := h.skipOne (by decide) (by decide)
  rw [readString_escape h, readEscape_cons hescape, if_pos rfl,
    readUnicode_of_none (hescape.skipOne (by decide) (by decide)) hx]
  rfl

theorem readBlock_eq (h : s.At source before cs) (raw : String) :
    readBlock source line column raw s =
      if ['"', '"', '"'] <+: cs then
        .ok (.blockString (String.ofList (Text.dedent raw.toList)), s.skip 3)
      else if ['\\', '"', '"', '"'] <+: cs then
        readBlock source line column (raw ++ "\"\"\"") (s.skip 4)
      else match cs with
        | [] => refuse line column .unterminated
        | c :: _ => readBlock source line column (raw.push c) (s.pass c) := by
  have hrest := h.rest
  rw [readBlock]
  split
  · rename_i hrest'
    cases hrest'.symm.trans hrest
  · rename_i cs' hrest'
    obtain rfl := Except.ok.inj (hrest.symm.trans hrest')
    by_cases hclose : ['"', '"', '"'] <+: cs
    · rw [if_pos hclose, if_pos hclose]
    · rw [if_neg hclose, if_neg hclose]
      by_cases hquote : ['\\', '"', '"', '"'] <+: cs
      · rw [dif_pos hquote, if_pos hquote]
      · rw [dif_neg hquote, if_neg hquote]
        cases cs <;> rfl

def Gathers (source : String) (before : List Char) (make : String → TokenKind) (value : String)
    (q : TokenKind × State) (l : Lexeme (List Char)) : Prop :=
  q.1 = make (value ++ String.ofList l.value) ∧ q.2.At source (before ++ l.text) l.rest

variable {make : String → TokenKind} {value : String}

theorem Gathers.last {cs : List Char} (h : s.At source (before ++ t) cs) :
    Gathers source before make value (make value, s) ⟨[], t, cs⟩ :=
  ⟨by simp, h⟩

theorem Mirrors.grow {m : Except Halt (TokenKind × State)}
    {y : Except LexFault (Lexeme (List Char))} {v : List Char}
    (h : Mirrors line column (Gathers source (before ++ t) make (value ++ String.ofList v)) m y) :
    Mirrors line column (Gathers source before make value) m (y.map (.grow v t)) := by
  refine h.mapRight ?_
  rintro q ⟨v', t', r⟩ ⟨hkind, hat⟩
  refine ⟨?_, ?_⟩
  · rw [hkind, Lexeme.grow, String.ofList_append, String.append_assoc]
  · rwa [List.append_assoc] at hat

theorem Mirrors.push {m : Except Halt (TokenKind × State)}
    {y : Except LexFault (Lexeme (List Char))}
    (h : Mirrors line column (Gathers source (before ++ t) make (value.push x)) m y) :
    Mirrors line column (Gathers source before make value) m (y.map (.grow [x] t)) := by
  rw [String.push_eq_append] at h
  exact .grow h

theorem mirrors_readString (h : s.At source before cs) (value : String) :
    Mirrors line column (Gathers source before .string value)
      (readString source line column value s) (StringLiteral.read cs) := by
  fun_induction StringLiteral.read cs generalizing before s value with
  | case1 =>
      rw [readString_nil h]
      exact .error _
  | case2 r =>
      rw [readString_cons h]
      exact .ok (.last (h.skipOne (by decide) (by decide)))
  | case3 =>
      rw [readString_cons h]
      exact .error _
  | case4 =>
      rw [readString_cons h]
      exact .error _
  | case5 =>
      rw [readString_escape h, readEscape_nil (h.skipOne (by decide) (by decide))]
      exact .error _
  | case6 a b c d r x hx ih =>
      have hescape := h.skipOne (by decide) (by decide)
      have hhex := hescape.skipOne (by decide) (by decide)
      have hrest := State.At.move (t := [a, b, c, d]) hhex (text_of_unicode? hx).2
      rw [(text_of_unicode? hx).1, List.append_assoc, List.append_assoc] at hrest
      rw [readString_escape h, readEscape_cons hescape, if_pos rfl, readUnicode_of_some hhex hx]
      exact .push (ih hrest (value.push x))
  | case7 a b c d r hx =>
      rw [readString_of_unicode h]
      · exact .error _
      · intro a' b' c' d' r' heq
        simp only [List.cons.injEq] at heq
        obtain ⟨rfl, rfl, rfl, rfl, -⟩ := heq
        exact hx
  | case8 r hshort =>
      rw [readString_of_unicode h]
      · exact .error _
      · exact fun a b c d r' heq => absurd heq (hshort a b c d r')
  | case9 e r hlong hu x hx ih =>
      have hescape := h.skipOne (by decide) (by decide)
      have he := ascii_of_escaped? hx
      have hrest := hescape.skipOne he.1 he.2
      rw [List.append_assoc] at hrest
      rw [readString_escape h, readEscape_cons hescape, if_neg (fun he => hu he), hx]
      exact .push (ih hrest (value.push x))
  | case10 e r hlong hu hx =>
      rw [readString_escape h, readEscape_cons (h.skipOne (by decide) (by decide)),
        if_neg (fun he => hu he), hx]
      exact .error _
  | case11 c r hquote hnewline hreturn hlast hlong hshort hescape ih =>
      have hslash : c ≠ '\\' := by
        cases r with
        | nil => exact fun hc => hlast hc rfl
        | cons e r => exact fun hc => hescape e r hc rfl
      rw [readString_cons h, if_neg hquote, if_neg (not_or.mpr ⟨hnewline, hreturn⟩), if_neg hslash]
      exact .push (ih (h.skip hnewline) (value.push c))

theorem mirrors_readBlock (h : s.At source before cs) (raw : String) :
    Mirrors line column
      (Gathers source before (fun raw => .blockString (String.ofList (Text.dedent raw.toList))) raw)
      (readBlock source line column raw s) (StringLiteral.readBlock cs) := by
  fun_induction StringLiteral.readBlock cs generalizing before s raw with
  | case1 =>
      rw [readBlock_eq h, if_neg (by decide), if_neg (by decide)]
      exact .error _
  | case2 r =>
      rw [readBlock_eq h, if_pos ⟨r, rfl⟩]
      exact .ok (.last (State.At.move (t := ['"', '"', '"']) h (by decide)))
  | case3 r ih =>
      have hrest := State.At.move (t := ['\\', '"', '"', '"']) h (by decide)
      rw [readBlock_eq h, if_neg (by simp), if_pos ⟨r, rfl⟩]
      exact .grow (ih hrest (raw ++ "\"\"\""))
  | case4 c r hclose hquote ih =>
      rw [readBlock_eq h, if_neg, if_neg]
      · exact .push (ih h.pass (raw.push c))
      · rintro ⟨r', hr'⟩
        obtain ⟨hc, hr⟩ := List.cons.inj hr'
        exact hquote r' hc.symm hr.symm
      · rintro ⟨r', hr'⟩
        obtain ⟨hc, hr⟩ := List.cons.inj hr'
        exact hclose r' hc.symm hr.symm

end Strings

end SchemaGraph.Lexer
