import Mathlib.Computability.RegularExpressions
import SchemaGraph.Proofs.Lossless
import SchemaGraph.Proofs.Spelling

namespace SchemaGraph

open RegularExpression

namespace Numeral

def oneOf (cs : List Char) : RegularExpression Char := cs.foldr (fun c e => char c + e) 0

def optional (e : RegularExpression Char) : RegularExpression Char := 1 + e

def digitExpr : RegularExpression Char := oneOf ['0', '1', '2', '3', '4', '5', '6', '7', '8', '9']

def digitsExpr : RegularExpression Char := digitExpr * digitExpr.star

def wholeExpr : RegularExpression Char :=
  char '0' + oneOf ['1', '2', '3', '4', '5', '6', '7', '8', '9'] * digitExpr.star

def integerExpr : RegularExpression Char := optional (char '-') * wholeExpr

def fractionExpr : RegularExpression Char := char '.' * digitsExpr

def exponentExpr : RegularExpression Char :=
  oneOf ['e', 'E'] * (optional (oneOf ['+', '-']) * digitsExpr)

def numberExpr : RegularExpression Char :=
  integerExpr * (optional fractionExpr * optional exponentExpr)

variable {cs t : List Char} {e : RegularExpression Char}

theorem mem_char {c : Char} : t ∈ (char c).matches' ↔ t = [c] := Iff.rfl

theorem mem_add {e' : RegularExpression Char} :
    t ∈ (e + e').matches' ↔ t ∈ e.matches' ∨ t ∈ e'.matches' := Iff.rfl

theorem mem_mul {e' : RegularExpression Char} :
    t ∈ (e * e').matches' ↔ ∃ a ∈ e.matches', ∃ b ∈ e'.matches', a ++ b = t := Language.mem_mul

theorem mem_oneOf : t ∈ (oneOf cs).matches' ↔ ∃ c ∈ cs, t = [c] := by
  induction cs with
  | nil => exact ⟨nofun, nofun⟩
  | cons c cs ih =>
      rw [List.exists_mem_cons_iff, ← ih]
      exact Iff.rfl

theorem mem_optional : t ∈ (optional e).matches' ↔ t = [] ∨ t ∈ e.matches' := Iff.rfl

theorem mem_optional_elim {α : Type} {f : α → List Char} {P : α → Prop}
    (he : ∀ {t}, t ∈ e.matches' ↔ ∃ a, P a ∧ f a = t) :
    t ∈ (optional e).matches' ↔ ∃ o : Option α, (∀ a ∈ o, P a) ∧ o.elim [] f = t := by
  rw [mem_optional, he]
  constructor
  · rintro (rfl | ⟨a, ha, rfl⟩)
    · exact ⟨none, nofun, rfl⟩
    · exact ⟨some a, fun x hx => Option.some.inj hx ▸ ha, rfl⟩
  · rintro ⟨_ | a, ha, rfl⟩
    · exact Or.inl rfl
    · exact Or.inr ⟨a, ha a rfl, rfl⟩

theorem isDigit_iff_mem {c : Char} :
    c.isDigit = true ↔ c ∈ ['0', '1', '2', '3', '4', '5', '6', '7', '8', '9'] := by
  constructor
  · intro h
    have hc : 48 ≤ c.toNat ∧ c.toNat ≤ 57 := by
      rw [Char.isDigit, Bool.and_eq_true] at h
      exact ⟨of_decide_eq_true h.1, of_decide_eq_true h.2⟩
    have hall : ∀ d < 10,
        Char.ofNat (48 + d) ∈ ['0', '1', '2', '3', '4', '5', '6', '7', '8', '9'] := by
      decide
    have := hall (c.toNat - 48) (by omega)
    rwa [Nat.add_sub_cancel' hc.1, Char.ofNat_toNat] at this
  · have hall : ['0', '1', '2', '3', '4', '5', '6', '7', '8', '9'].all Char.isDigit = true := rfl
    exact List.all_eq_true.mp hall c

theorem mem_digitExpr : t ∈ digitExpr.matches' ↔ ∃ c, c.isDigit = true ∧ t = [c] := by
  rw [digitExpr, mem_oneOf]
  exact exists_congr fun c => and_congr_left' isDigit_iff_mem.symm

theorem mem_star_digitExpr : t ∈ digitExpr.star.matches' ↔ ∀ c ∈ t, c.isDigit = true := by
  rw [matches'_star, Language.mem_kstar]
  simp only [mem_digitExpr]
  constructor
  · rintro ⟨ts, rfl, hts⟩ c hc
    obtain ⟨u, hu, hc⟩ := List.mem_flatten.mp hc
    obtain ⟨d, hd, rfl⟩ := hts u hu
    rwa [List.mem_singleton.mp hc]
  · intro h
    refine ⟨t.map fun c => [c], ?_, ?_⟩
    · rw [← List.flatMap_def, List.flatMap_singleton']
    · rw [List.forall_mem_map]
      exact fun c hc => ⟨c, h c hc, rfl⟩

theorem mem_digitsExpr : t ∈ digitsExpr.matches' ↔ IsDigits t := by
  rw [digitsExpr, mem_mul]
  simp only [mem_digitExpr, mem_star_digitExpr]
  constructor
  · rintro ⟨a, ⟨c, hc, rfl⟩, b, hb, rfl⟩
    refine ⟨List.cons_ne_nil _ _, ?_⟩
    rw [List.singleton_append, List.forall_mem_cons]
    exact ⟨hc, hb⟩
  · rintro ⟨hne, h⟩
    obtain ⟨c, cs, rfl⟩ := List.exists_cons_of_ne_nil hne
    rw [List.forall_mem_cons] at h
    exact ⟨[c], ⟨c, h.1, rfl⟩, cs, h.2, rfl⟩

theorem mem_wholeExpr : t ∈ wholeExpr.matches' ↔ IsWhole t := by
  rw [wholeExpr, mem_add, mem_char, mem_mul, IsWhole]
  simp only [mem_oneOf, mem_star_digitExpr]
  apply or_congr_right
  constructor
  · rintro ⟨a, ⟨c, hc, rfl⟩, b, hb, rfl⟩
    have hdigit : c.isDigit = true := by
      rw [isDigit_iff_mem]
      exact List.mem_cons_of_mem _ hc
    refine ⟨⟨List.cons_ne_nil _ _, ?_⟩, ?_⟩
    · rw [List.singleton_append, List.forall_mem_cons]
      exact ⟨hdigit, hb⟩
    · intro hzero
      rw [Option.some.inj hzero] at hc
      exact absurd hc (by decide)
  · rintro ⟨⟨hne, h⟩, hzero⟩
    obtain ⟨c, cs, rfl⟩ := List.exists_cons_of_ne_nil hne
    rw [List.forall_mem_cons, isDigit_iff_mem] at h
    have hc : c ≠ '0' := fun hc => hzero (congrArg some hc)
    exact ⟨[c], ⟨c, (List.mem_cons.mp h.1).resolve_left hc, rfl⟩, cs, h.2, rfl⟩

theorem mem_integerExpr : t ∈ integerExpr.matches' ↔
    ∃ (negative : Bool) (whole : List Char), IsWhole whole ∧
      (if negative then ['-'] else []) ++ whole = t := by
  rw [integerExpr, mem_mul]
  simp only [mem_wholeExpr]
  constructor
  · rintro ⟨a, rfl | rfl, b, hb, rfl⟩
    · exact ⟨false, b, hb, rfl⟩
    · exact ⟨true, b, hb, rfl⟩
  · rintro ⟨negative, whole, hw, rfl⟩
    refine ⟨_, ?_, whole, hw, rfl⟩
    cases negative with
    | false => exact Or.inl rfl
    | true => exact Or.inr rfl

theorem mem_fractionExpr :
    t ∈ fractionExpr.matches' ↔ ∃ ds, IsDigits ds ∧ '.' :: ds = t := by
  rw [fractionExpr, mem_mul]
  simp only [mem_digitsExpr]
  constructor
  · rintro ⟨a, rfl, ds, hds, rfl⟩
    exact ⟨ds, hds, rfl⟩
  · rintro ⟨ds, hds, rfl⟩
    exact ⟨['.'], rfl, ds, hds, rfl⟩

theorem mem_signExpr : t ∈ (optional (oneOf ['+', '-'])).matches' ↔
    ∃ sign : Option Char, (∀ c ∈ sign, c = '+' ∨ c = '-') ∧ sign.toList = t := by
  have h : ∀ {t}, t ∈ (oneOf ['+', '-']).matches' ↔ ∃ c, (c = '+' ∨ c = '-') ∧ [c] = t := by
    intro t
    rw [mem_oneOf]
    constructor
    · rintro ⟨c, hc, rfl⟩
      exact ⟨c, by simpa using hc, rfl⟩
    · rintro ⟨c, hc, rfl⟩
      exact ⟨c, by simpa using hc, rfl⟩
  rw [mem_optional_elim h]
  constructor
  · rintro ⟨sign, hsign, rfl⟩
    exact ⟨sign, hsign, by cases sign <;> rfl⟩
  · rintro ⟨sign, hsign, rfl⟩
    exact ⟨sign, hsign, by cases sign <;> rfl⟩

theorem mem_exponentExpr : t ∈ exponentExpr.matches' ↔
    ∃ x : Exponent, ((x.mark = 'e' ∨ x.mark = 'E') ∧ (∀ c ∈ x.sign, c = '+' ∨ c = '-') ∧
      IsDigits x.digits) ∧ x.text = t := by
  rw [exponentExpr, mem_mul]
  simp only [mem_oneOf, mem_mul, mem_signExpr, mem_digitsExpr]
  constructor
  · rintro ⟨a, ⟨mark, hmark, rfl⟩, b, ⟨s, ⟨sign, hsign, rfl⟩, ds, hds, rfl⟩, rfl⟩
    exact ⟨⟨mark, sign, ds⟩, ⟨by simpa using hmark, hsign, hds⟩, rfl⟩
  · rintro ⟨⟨mark, sign, ds⟩, ⟨hmark, hsign, hds⟩, rfl⟩
    exact ⟨[mark], ⟨mark, by simpa using hmark, rfl⟩, _, ⟨_, ⟨sign, hsign, rfl⟩, ds, hds, rfl⟩, rfl⟩

theorem mem_numberExpr : t ∈ numberExpr.matches' ↔ ∃ n : Numeral, n.Valid ∧ n.text = t := by
  rw [numberExpr, mem_mul]
  simp only [mem_integerExpr, mem_mul, mem_optional_elim mem_fractionExpr,
    mem_optional_elim mem_exponentExpr]
  constructor
  · rintro ⟨a, ⟨negative, whole, hw, rfl⟩, b,
      ⟨f, ⟨fraction, hfraction, rfl⟩, x, ⟨exponent, hexponent, rfl⟩, rfl⟩, rfl⟩
    refine ⟨⟨negative, whole, fraction, exponent⟩, ⟨hw, hfraction, hexponent⟩, ?_⟩
    rw [text, List.append_assoc _ (fraction.elim [] _)]
  · rintro ⟨n, hn, rfl⟩
    refine ⟨_, ⟨n.negative, n.whole, hn.whole, rfl⟩, _,
      ⟨_, ⟨n.fraction, hn.fraction, rfl⟩, _, ⟨n.exponent, hn.exponent, rfl⟩, rfl⟩, ?_⟩
    rw [text, List.append_assoc _ (n.fraction.elim [] _)]

theorem Valid.eq_of_text {m n : Numeral} (hm : m.Valid) (hn : n.Valid) (h : m.text = n.text) :
    m = n := by
  have hread {k : Numeral} (hk : k.Valid) : read k.text = .ok (k, []) :=
    read_eq_ok_iff.mpr ⟨(List.append_nil _).symm, hk, nofun⟩
  have := (hread hm).symm.trans (h ▸ hread hn)
  exact (Prod.mk.inj (Except.ok.inj this)).1

theorem Valid.mem_integerExpr_iff {n : Numeral} (hn : n.Valid) :
    n.text ∈ integerExpr.matches' ↔ n.isFloat = false := by
  rw [mem_integerExpr]
  constructor
  · rintro ⟨negative, whole, hw, ht⟩
    have hplain : (⟨negative, whole, none, none⟩ : Numeral).text = n.text := by
      rw [← ht]
      simp [text]
    have hvalid : (⟨negative, whole, none, none⟩ : Numeral).Valid := ⟨hw, by simp, by simp⟩
    obtain rfl := hvalid.eq_of_text hn hplain
    rfl
  · intro h
    obtain ⟨negative, whole, fraction, exponent⟩ := n
    obtain ⟨rfl, rfl⟩ : fraction = none ∧ exponent = none := by
      simpa [isFloat] using h
    exact ⟨negative, whole, hn.whole, by simp [text]⟩

def decimalValue : List Char → Int
  | '-' :: ds => -(Nat.ofDigitChars 10 ds 0 : Int)
  | ds => Nat.ofDigitChars 10 ds 0

theorem Valid.decimalValue_text {n : Numeral} (hn : n.Valid) (h : n.isFloat = false) :
    decimalValue n.text = n.intValue := by
  obtain ⟨negative, whole, fraction, exponent⟩ := n
  obtain ⟨rfl, rfl⟩ : fraction = none ∧ exponent = none := by
    simpa [isFloat] using h
  have hvalue : Nat.ofDigitChars 10 whole 0 = digitsValue whole := rfl
  cases negative with
  | true => simp [text, decimalValue, intValue, hvalue]
  | false =>
      have hw : ∀ ds, whole ≠ '-' :: ds := by
        rintro ds rfl
        rcases hn.whole with h | ⟨⟨-, h⟩, -⟩
        · exact absurd (List.cons.inj h).1 (by decide)
        · exact absurd (h '-' (List.mem_cons_self ..)) (by decide)
      have htext : text ⟨false, whole, none, none⟩ = whole := by simp [text]
      rw [htext, intValue, if_neg Bool.false_ne_true, decimalValue.eq_2 _ hw, hvalue]

def IsKindOf (t : List Char) : TokenKind → Prop
  | .int n => t ∈ integerExpr.matches' ∧ n = decimalValue t
  | .float _ => t ∉ integerExpr.matches'
  | _ => False

theorem Valid.isKindOf {n : Numeral} (hn : n.Valid) {k : TokenKind}
    (h : Token.ofNumeral n = .ok k) : IsKindOf n.text k := by
  rcases Token.ofNumeral_eq_ok_iff.mp h with ⟨hfloat, rfl⟩ | ⟨hint, -, -, rfl⟩
  · intro hmem
    exact nomatch hfloat.symm.trans (hn.mem_integerExpr_iff.mp hmem)
  · exact ⟨hn.mem_integerExpr_iff.mpr hint, (hn.decimalValue_text hint).symm⟩

theorem Valid.exists_kind_iff {n : Numeral} (hn : n.Valid) :
    (∃ k, Token.ofNumeral n = .ok k) ↔
      (n.text ∈ integerExpr.matches' → IsInt64 (decimalValue n.text)) := by
  rw [hn.mem_integerExpr_iff]
  constructor
  · rintro ⟨k, hk⟩ hint
    rw [hn.decimalValue_text hint]
    rcases Token.ofNumeral_eq_ok_iff.mp hk with ⟨hfloat, -⟩ | ⟨-, hmin, hmax, -⟩
    · exact nomatch hfloat.symm.trans hint
    · exact ⟨hmin, hmax⟩
  · intro h
    cases hint : n.isFloat with
    | true => exact ⟨_, Token.ofNumeral_eq_ok_iff.mpr (Or.inl ⟨hint, rfl⟩)⟩
    | false =>
        have hrange := h hint
        rw [hn.decimalValue_text hint] at hrange
        exact ⟨_, Token.ofNumeral_eq_ok_iff.mpr (Or.inr ⟨hint, hrange.1, hrange.2, rfl⟩)⟩

end Numeral

theorem Token.scan_number_iff {c : Char} {cs t r : List Char} {k : TokenKind}
    (hc : c = '-' ∨ c.isDigit = true) : Token.scan c cs = .ok ⟨k, t, r⟩ ↔
      c :: cs = t ++ r ∧ Numeral.Ends r.head? ∧
        ∃ n : Numeral, n.Valid ∧ n.text = t ∧ Token.ofNumeral n = .ok k := by
  rw [Token.scan_of_number hc, Token.scanNumber_eq_ok_iff]
  constructor
  · rintro ⟨n, hread, hk, rfl⟩
    obtain ⟨happ, hn, hends⟩ := Numeral.read_eq_ok_iff.mp hread
    exact ⟨happ, hends, n, hn, rfl, hk⟩
  · rintro ⟨happ, hends, n, hn, rfl, hk⟩
    exact ⟨n, Numeral.read_eq_ok_iff.mpr ⟨happ, hn, hends⟩, hk, rfl⟩

theorem visible_of_number {c : Char} (hc : c = '-' ∨ c.isDigit = true) : Visible c := by
  have hall : [' ', '\t', ',', '\r', '\n', '\uFEFF', '#'].all
      (fun x => !(x == '-' || x.isDigit)) = true := rfl
  have hmem : c ∉ [' ', '\t', ',', '\r', '\n', '\uFEFF', '#'] := by
    intro h
    have := List.all_eq_true.mp hall c h
    simp only [Bool.not_eq_true', Bool.or_eq_false_iff, beq_eq_false_iff_ne] at this
    exact hc.elim this.1 (Bool.eq_false_iff.mp this.2)
  simpa [Visible, isIgnorable, and_assoc] using hmem

open Text (Position slice IsBoundary)

namespace Text

theorem prefix_of_utf8Len_le {cs a b : List Char} (ha : a <+: cs) (hb : b <+: cs)
    (h : String.utf8Len a ≤ String.utf8Len b) : a <+: b := by
  rcases List.prefix_or_prefix_of_prefix ha hb with hab | ⟨x, rfl⟩
  · exact hab
  · cases x with
    | nil => rw [List.append_nil]
    | cons c x =>
        have := c.utf8Size_pos
        rw [String.utf8Len_append, String.utf8Len_cons] at h
        omega

theorem exists_split {source : String} {before behind : List Char} {q : Nat}
    (hs : source.toList = before ++ behind) (hq : IsBoundary source q)
    (hle : String.utf8Len before ≤ q) :
    ∃ t r, behind = t ++ r ∧ q = String.utf8Len (before ++ t) := by
  obtain ⟨a, b, rfl, hlen⟩ := String.Pos.Raw.isValid_iff_exists_append.mp hq
  have hlen : String.utf8Len a.toList = q := by
    rw [String.utf8Len_toList]
    exact (congrArg String.Pos.Raw.byteIdx hlen).symm
  rw [String.toList_append] at hs
  obtain ⟨t, ht⟩ := prefix_of_utf8Len_le ⟨behind, hs.symm⟩ ⟨b.toList, rfl⟩ (hlen ▸ hle)
  rw [← ht, List.append_assoc, List.append_cancel_left_eq] at hs
  exact ⟨t, b.toList, hs.symm, by rw [ht, hlen]⟩

end Text

structure Numeral.Occupies (source : String) (p q : Nat) : Prop where
  order : p ≤ q
  boundary : IsBoundary source q
  number : (slice source p q).toList ∈ numberExpr.matches'
  ends : Ends (slice source q source.utf8ByteSize).toList.head?
  range : (slice source p q).toList ∈ integerExpr.matches' →
    IsInt64 (decimalValue (slice source p q).toList)

namespace Numeral

variable {source : String} {before cs t r : List Char} {c : Char}

theorem occupies_iff (hs : source.toList = before ++ (t ++ r)) :
    Occupies source (String.utf8Len before) (String.utf8Len (before ++ t)) ↔
      t ∈ numberExpr.matches' ∧ Ends r.head? ∧
        (t ∈ integerExpr.matches' → IsInt64 (decimalValue t)) := by
  have happ : source.toList = before ++ t ++ r := by rw [hs, List.append_assoc]
  have hslice : (slice source (String.utf8Len before) (String.utf8Len (before ++ t))).toList = t := by
    rw [Text.slice_of_append happ, String.toList_ofList]
  have hrest : (slice source (String.utf8Len (before ++ t)) source.utf8ByteSize).toList = r := by
    have := Text.slice_of_append (b := []) (happ.trans (List.append_nil _).symm)
    rwa [← happ, String.utf8Len_toList, ← String.toList_inj, String.toList_ofList] at this
  constructor
  · intro h
    refine ⟨hslice ▸ h.number, hrest ▸ h.ends, ?_⟩
    have := h.range
    rwa [hslice] at this
  · rintro ⟨hnumber, hends, hrange⟩
    refine ⟨?_, Text.isBoundary_of_append happ, hslice.symm ▸ hnumber, hrest.symm ▸ hends, ?_⟩
    · rw [String.utf8Len_append]
      omega
    · rwa [hslice]

theorem occupies_iff_scan (hs : source.toList = before ++ c :: cs)
    (hc : c = '-' ∨ c.isDigit = true) {q : Nat} : Occupies source (String.utf8Len before) q ↔
      ∃ l, Token.scan c cs = .ok l ∧ q = String.utf8Len (before ++ l.text) := by
  constructor
  · intro h
    obtain ⟨t, r, happ, rfl⟩ := Text.exists_split hs h.boundary h.order
    rw [happ] at hs
    obtain ⟨hnumber, hends, hrange⟩ := (occupies_iff hs).mp h
    obtain ⟨n, hn, rfl⟩ := mem_numberExpr.mp hnumber
    obtain ⟨k, hk⟩ := hn.exists_kind_iff.mpr hrange
    exact ⟨⟨k, n.text, r⟩, (Token.scan_number_iff hc).mpr ⟨happ, hends, n, hn, rfl, hk⟩, rfl⟩
  · rintro ⟨⟨k, t, r⟩, hscan, rfl⟩
    obtain ⟨happ, hends, n, hn, rfl, hk⟩ := (Token.scan_number_iff hc).mp hscan
    rw [happ] at hs
    exact (occupies_iff hs).mpr
      ⟨mem_numberExpr.mpr ⟨n, hn, rfl⟩, hends, hn.exists_kind_iff.mp ⟨k, hk⟩⟩

theorem occupies_unique (hs : source.toList = before ++ c :: cs) (hc : c = '-' ∨ c.isDigit = true)
    {l : Lexeme TokenKind} (h : Token.scan c cs = .ok l) (q : Nat) :
    Occupies source (String.utf8Len before) q ↔ q = String.utf8Len (before ++ l.text) := by
  rw [occupies_iff_scan hs hc]
  constructor
  · rintro ⟨l', hl', rfl⟩
    rw [Except.ok.inj (h.symm.trans hl')]
  · exact fun hq => ⟨l, h, hq⟩

theorem literals_are_read (hs : source.toList = before ++ c :: cs)
    (hc : c = '-' ∨ c.isDigit = true) :
    ((∃ l, Token.scan c cs = .ok l) ↔ ∃ q, Occupies source (String.utf8Len before) q) ∧
    (∀ fault, Token.scan c cs = .error fault →
      tokenizeFrom (Position.start.after before) (c :: cs) =
        .error ⟨fault, Position.start.after before⟩) ∧
    (∀ l, Token.scan c cs = .ok l → ∃ token : Token,
      tokenizeFrom (Position.start.after before) (c :: cs) =
        (tokenizeFrom (Position.start.after (before ++ l.text)) l.rest).map (fun ts =>
          { ts with items := token :: ts.items }) ∧
      token.span.start = String.utf8Len before ∧
      (∀ q, Occupies source (String.utf8Len before) q ↔ q = token.span.stop) ∧
      IsKindOf (slice source token.span.start token.span.stop).toList token.kind) ∧
    ∀ n, IsInt64 n → ∃ ts, tokenize (toString n) = .ok ts ∧ ts.items.map Token.kind = [.int n] := by
  refine ⟨?_, ?_, ?_, ?_⟩
  · constructor
    · rintro ⟨l, hl⟩
      exact ⟨_, (occupies_iff_scan hs hc).mpr ⟨l, hl, rfl⟩⟩
    · rintro ⟨q, hq⟩
      obtain ⟨l, hl, -⟩ := (occupies_iff_scan hs hc).mp hq
      exact ⟨l, hl⟩
  · intro fault hfault
    exact tokenizeFrom_of_error .nil (visible_of_number hc) hfault
  · rintro ⟨k, t, r⟩ hl
    obtain ⟨happ, -, n, hn, rfl, hk⟩ := (Token.scan_number_iff hc).mp hl
    have hslice := Text.slice_of_append (t := n.text) (b := r)
      (by rw [hs, happ, List.append_assoc])
    have hread := @tokenizeFrom_of_scan (Position.start.after before) [] cs c _ .nil hl
    rw [Position.after_nil, List.nil_append, List.nil_append, ← Position.after_append] at hread
    refine ⟨_, hread, Position.offset_start_after before, ?_, ?_⟩
    · intro q
      rw [occupies_unique hs hc hl, ← Position.offset_start_after]
      rfl
    · change IsKindOf (slice source (Position.start.after before).offset
        (Position.start.after (before ++ n.text)).offset).toList k
      rw [Position.offset_start_after, Position.offset_start_after, hslice, String.toList_ofList]
      exact hn.isKindOf hk
  · intro n hn
    have := (Token.spells_int hn).tokenize
    rwa [String.ofList_toList] at this

theorem literal_in_argument :
    "a(b: -7)".toList = "a(b: ".toList ++ '-' :: "7)".toList ∧ ('-' = '-' ∨ '-'.isDigit = true) ∧
      ∃ q, Occupies "a(b: -7)" (String.utf8Len "a(b: ".toList) q := by
  have hs : "a(b: -7)".toList = "a(b: ".toList ++ '-' :: "7)".toList := by decide
  have hscan : Token.scan '-' "7)".toList = .ok ⟨.int (-7), ['-', '7'], [')']⟩ := by rfl
  exact ⟨hs, Or.inl rfl, (literals_are_read hs (Or.inl rfl)).1.mp ⟨_, hscan⟩⟩

end Numeral

end SchemaGraph
