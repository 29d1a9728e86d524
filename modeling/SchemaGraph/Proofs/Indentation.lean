import Mathlib.Data.List.Forall2
import Mathlib.Order.Bounds.Basic
import SchemaGraph.Proofs.Lines
import SchemaGraph.Proofs.Lossless

namespace SchemaGraph.Text

variable {n m : Nat} {l w raw : List Char} {ls : List (List Char)}

theorem dropBytes_append (t cs : List Char) (n : Nat) :
    dropBytes (n + String.utf8Len t) (t ++ cs) = dropBytes n cs := by
  induction t with
  | nil => rfl
  | cons c t ih =>
      have hc := c.utf8Size_pos
      obtain ⟨k, hk⟩ : ∃ k, n + String.utf8Len (c :: t) = k + 1 :=
        ⟨n + String.utf8Len t + c.utf8Size - 1, by rw [String.utf8Len_cons]; omega⟩
      have hrest : k + 1 - c.utf8Size = n + String.utf8Len t := by
        rw [← hk, String.utf8Len_cons]
        omega
      rw [hk, List.cons_append, dropBytes, hrest, ih, if_pos (by rw [← hk, String.utf8Len_cons]; omega)]

theorem dropBytes_eq_some_iff {cs r : List Char} :
    dropBytes n cs = some r ↔ ∃ t, cs = t ++ r ∧ String.utf8Len t = n := by
  constructor
  · intro h
    fun_induction dropBytes n cs with
    | case1 cs => exact ⟨[], Option.some.inj h, rfl⟩
    | case2 n => cases h
    | case3 n c cs hc ih =>
        obtain ⟨t, rfl, ht⟩ := ih h
        exact ⟨c :: t, rfl, by rw [String.utf8Len_cons, ht]; omega⟩
    | case4 n c cs hc => cases h
  · rintro ⟨t, rfl, rfl⟩
    rw [← Nat.zero_add (String.utf8Len t), dropBytes_append, dropBytes]

theorem isSome_dropBytes (n : Nat) (cs : List Char) :
    (dropBytes n cs).isSome = true ↔ IsBoundary (String.ofList cs) n := by
  rw [IsBoundary, String.Pos.Raw.isValid_iff_exists_append, Option.isSome_iff_exists]
  constructor
  · rintro ⟨r, hr⟩
    obtain ⟨t, rfl, rfl⟩ := dropBytes_eq_some_iff.mp hr
    refine ⟨String.ofList t, String.ofList r, String.ofList_append, ?_⟩
    rw [String.rawEndPos, String.utf8ByteSize_ofList]
  · rintro ⟨s, r, happ, hn⟩
    refine ⟨r.toList, dropBytes_eq_some_iff.mpr ⟨s.toList, ?_, ?_⟩⟩
    · rw [← String.toList_append, ← happ, String.toList_ofList]
    · rw [String.utf8Len_toList]
      exact (congrArg String.Pos.Raw.byteIdx hn).symm

theorem utf8Len_of_isIndent (hw : ∀ c ∈ w, isIndent c = true) : String.utf8Len w = w.length := by
  induction w with
  | nil => rfl
  | cons c w ih =>
      obtain ⟨hc, hw⟩ := List.forall_mem_cons.mp hw
      have hsize : c.utf8Size = 1 := by
        simp only [isIndent, Bool.or_eq_true, beq_iff_eq] at hc
        rcases hc with rfl | rfl <;> rfl
      rw [String.utf8Len_cons, hsize, ih hw, List.length_cons]

theorem isBlank_of_isIndent {c : Char} (hc : isIndent c = true) : isBlank c = true := by
  simp only [isIndent, Bool.or_eq_true, beq_iff_eq] at hc
  rcases hc with rfl | rfl <;> rfl

theorem unindent_zero (l : List Char) : unindent 0 l = l := by
  rw [unindent, dropBytes]
  rfl

theorem unindent_append (hw : ∀ c ∈ w, isIndent c = true) (n : Nat) (l : List Char) :
    unindent (n + w.length) (w ++ l) = unindent n l := by
  rw [unindent, unindent, ← utf8Len_of_isIndent hw, dropBytes_append, List.dropWhile_append_of_pos hw]

theorem indentOf_append (hw : ∀ c ∈ w, isIndent c = true) (l : List Char) :
    indentOf (w ++ l) = indentOf l + w.length := by
  rw [indentOf, indentOf, List.takeWhile_append_of_pos hw, List.length_append, Nat.add_comm]

theorem isBlankLine_append (hw : ∀ c ∈ w, isIndent c = true) (l : List Char) :
    isBlankLine (w ++ l) = isBlankLine l := by
  have hblank : w.all isBlank = true := List.all_eq_true.mpr fun c hc => isBlank_of_isIndent (hw c hc)
  rw [isBlankLine, List.all_append, hblank, Bool.true_and, isBlankLine]

theorem exists_cut (n : Nat) (l : List Char) : ∃ cut, l = cut ++ unindent n l ∧
    (IsBoundary (String.ofList l) n ∧ String.utf8Len cut = n ∨
      ¬IsBoundary (String.ofList l) n ∧ cut = l.takeWhile isIndent) := by
  rw [← isSome_dropBytes]
  cases h : dropBytes n l with
  | some r =>
      obtain ⟨t, rfl, ht⟩ := dropBytes_eq_some_iff.mp h
      exact ⟨t, by rw [unindent, h]; rfl, Or.inl ⟨rfl, ht⟩⟩
  | none =>
      exact ⟨_, by rw [unindent, h]; exact List.takeWhile_append_dropWhile.symm, Or.inr ⟨nofun, rfl⟩⟩

theorem exists_indent (h : n ≤ indentOf l) : ∃ indent, l = indent ++ unindent n l ∧
    (∀ c ∈ indent, isIndent c = true) ∧ String.utf8Len indent = n := by
  have hlength : (l.take n).length = n :=
    List.length_take_of_le (h.trans (List.takeWhile_prefix _).length_le)
  have hstart : l.take n <+: l.takeWhile isIndent :=
    List.prefix_of_prefix_length_le (List.take_prefix n l) (List.takeWhile_prefix _) (hlength.trans_le h)
  have hindent : ∀ c ∈ l.take n, isIndent c = true := fun c hc =>
    List.all_eq_true.mp List.all_takeWhile c (hstart.subset hc)
  refine ⟨l.take n, ?_, hindent, (utf8Len_of_isIndent hindent).trans hlength⟩
  have hcut := unindent_append hindent 0 (l.drop n)
  rw [hlength, Nat.zero_add, List.take_append_drop, unindent_zero] at hcut
  rw [hcut, List.take_append_drop]

def IsMargin (ls : List (List Char)) (n : Nat) : Prop :=
  (∀ l ∈ ls, isBlankLine l = true) ∧ n = 0 ∨
    IsLeast {i | ∃ l ∈ ls, isBlankLine l = false ∧ indentOf l = i} n

theorem isMargin_commonIndent (ls : List (List Char)) : IsMargin ls (commonIndent ls) := by
  have hmem (i : Nat) : i ∈ (ls.filter (!isBlankLine ·)).map indentOf ↔
      ∃ l ∈ ls, isBlankLine l = false ∧ indentOf l = i := by
    simp [List.mem_map, List.mem_filter, and_assoc]
  rw [commonIndent]
  cases hm : ((ls.filter (!isBlankLine ·)).map indentOf).min? with
  | none =>
      rw [List.min?_eq_none_iff, List.map_eq_nil_iff, List.filter_eq_nil_iff] at hm
      exact Or.inl ⟨by simpa using hm, rfl⟩
  | some i =>
      obtain ⟨hi, hle⟩ := List.min?_eq_some_iff.mp hm
      exact Or.inr ⟨(hmem i).mp hi, fun j hj => hle j ((hmem j).mpr hj)⟩

theorem IsMargin.unique (h : IsMargin ls n) (h' : IsMargin ls m) : n = m := by
  have hblank {k : Nat} (hall : ∀ l ∈ ls, isBlankLine l = true) :
      ¬IsLeast {i | ∃ l ∈ ls, isBlankLine l = false ∧ indentOf l = i} k := by
    rintro ⟨⟨l, hl, hb, -⟩, -⟩
    exact nomatch (hall l hl).symm.trans hb
  rcases h with ⟨hall, rfl⟩ | h
  · rcases h' with ⟨-, rfl⟩ | h'
    · rfl
    · exact absurd h' (hblank hall)
  · rcases h' with ⟨hall, -⟩ | h'
    · exact absurd h (hblank hall)
    · exact h.unique h'

theorem IsMargin.le (h : IsMargin ls n) (hl : l ∈ ls) (hb : isBlankLine l = false) :
    n ≤ indentOf l := by
  rcases h with ⟨-, rfl⟩ | h
  · exact Nat.zero_le _
  · exact h.2 ⟨l, hl, hb, rfl⟩

theorem commonIndent_margin (hw : ∀ c ∈ w, isIndent c = true)
    (h : ∃ l ∈ ls, isBlankLine l = false) :
    commonIndent (ls.map (w ++ ·)) = commonIndent ls + w.length := by
  refine (isMargin_commonIndent _).unique (Or.inr ?_)
  rcases isMargin_commonIndent ls with ⟨hall, -⟩ | ⟨⟨l, hl, hb, hi⟩, hle⟩
  · obtain ⟨l, hl, hb⟩ := h
    exact nomatch (hall l hl).symm.trans hb
  · constructor
    · exact ⟨w ++ l, List.mem_map_of_mem hl, (isBlankLine_append hw l).trans hb,
        (indentOf_append hw l).trans (congrArg (· + w.length) hi)⟩
    · rintro i ⟨x, hx, hxb, rfl⟩
      obtain ⟨l', hl', rfl⟩ := List.mem_map.mp hx
      rw [isBlankLine_append hw] at hxb
      rw [indentOf_append hw]
      exact Nat.add_le_add_right (hle ⟨l', hl', hxb, rfl⟩) _

theorem commonIndent_of_blank (h : ∀ l ∈ ls, isBlankLine l = true) : commonIndent ls = 0 :=
  (isMargin_commonIndent ls).unique (Or.inl ⟨h, rfl⟩)

structure LosesMargin (n : Nat) (line rest : List Char) : Prop where
  blank : isBlankLine rest = isBlankLine line
  indent : isBlankLine line = false → ∃ indent, line = indent ++ rest ∧
    (∀ c ∈ indent, isIndent c = true) ∧ String.utf8Len indent = n
  cut : ∃ cut, line = cut ++ rest ∧ (IsBoundary (String.ofList line) n ∧ String.utf8Len cut = n ∨
    ¬IsBoundary (String.ofList line) n ∧ cut = line.takeWhile isIndent)

theorem losesMargin_unindent (h : isBlankLine l = false → n ≤ indentOf l) :
    LosesMargin n l (unindent n l) := by
  refine ⟨?_, fun hb => exists_indent (h hb), exists_cut n l⟩
  cases hb : isBlankLine l with
  | false =>
      obtain ⟨indent, hl, hindent, -⟩ := exists_indent (h hb)
      rw [hl, isBlankLine_append hindent] at hb
      exact hb
  | true =>
      obtain ⟨cut, hl, -⟩ := exists_cut n l
      rw [hl, isBlankLine, List.all_append, Bool.and_eq_true] at hb
      exact hb.2

theorem exists_trimBlankLines (ls : List (List Char)) : ∃ before after,
    ls = before ++ trimBlankLines ls ++ after ∧ ∀ l ∈ before ++ after, isBlankLine l = true := by
  refine ⟨ls.takeWhile isBlankLine, (ls.dropWhile isBlankLine).rtakeWhile isBlankLine, ?_, ?_⟩
  · rw [List.append_assoc]
    exact (List.takeWhile_append_dropWhile.symm).trans
      (congrArg _ List.rdropWhile_append_rtakeWhile.symm)
  · rw [List.forall_mem_append]
    exact ⟨List.all_eq_true.mp List.all_takeWhile, fun l hl => List.mem_rtakeWhile_imp hl⟩

theorem trimBlankLines_append (h : ∀ l ∈ ls, isBlankLine l = true) (ms : List (List Char)) :
    trimBlankLines (ms ++ ls) = trimBlankLines ms := by
  have hls : ls.dropWhile isBlankLine = [] := List.dropWhile_eq_nil_iff.mpr h
  rw [trimBlankLines, trimBlankLines, List.dropWhile_append]
  split
  · rename_i he
    rw [hls, List.isEmpty_iff.mp he]
  · rw [List.reverse_append, List.dropWhile_append_of_pos (by simpa using h)]

theorem ends_trimBlankLines (ls : List (List Char)) :
    (∀ l ∈ (trimBlankLines ls).head?, isBlankLine l = false) ∧
      ∀ l ∈ (trimBlankLines ls).getLast?, isBlankLine l = false := by
  constructor
  · intro l hl
    obtain ⟨r, hr⟩ := List.head?_eq_some_iff.mp hl
    have hstart : trimBlankLines ls <+: ls.dropWhile isBlankLine := List.rdropWhile_prefix _ _
    rw [hr] at hstart
    obtain ⟨s, hs⟩ := hstart
    exact head?_dropWhile_stop isBlankLine ls l (hs ▸ rfl)
  · intro l hl
    rw [trimBlankLines, List.getLast?_reverse] at hl
    exact head?_dropWhile_stop isBlankLine _ l hl

def lines (cs : List Char) : List (List Char) := if cs = [] then [] else splitLines cs

theorem lines_joinLines (hnewline : ∀ l ∈ ls, '\n' ∉ l) (hhead : ∀ l ∈ ls.head?, l ≠ []) :
    lines (joinLines ls) = ls := by
  cases ls with
  | nil => rfl
  | cons l ls =>
      obtain ⟨c, cs, rfl⟩ := List.exists_cons_of_ne_nil (hhead l rfl)
      have hne : joinLines ((c :: cs) :: ls) ≠ [] := by
        cases ls with
        | nil => exact List.cons_ne_nil _ _
        | cons m ls => exact List.cons_ne_nil _ _
      rw [lines, if_neg hne, splitLines_joinLines (List.cons_ne_nil _ _) hnewline]

theorem exists_bareLines (raw : List Char) : ∃ first others, bareLines raw = first :: others := by
  obtain ⟨l, ls, h⟩ := exists_splitLines raw
  exact ⟨_, _, congrArg (List.map _) h⟩

theorem dedent_of_bareLines {first : List Char} (h : bareLines raw = first :: ls) :
    dedent raw = joinLines (trimBlankLines (first :: ls.map (unindent (commonIndent ls)))) := by
  rw [dedent_eq, h]
  rfl

structure Dedents (raw value : List Char) : Prop where
  ends : (∀ l ∈ (lines value).head?, isBlankLine l = false) ∧
    ∀ l ∈ (lines value).getLast?, isBlankLine l = false
  lines : ∃ n first others rests before after, bareLines raw = first :: others ∧
    IsMargin others n ∧ List.Forall₂ (LosesMargin n) others rests ∧
    first :: rests = before ++ lines value ++ after ∧
    ∀ l ∈ before ++ after, isBlankLine l = true

theorem dedents_dedent (raw : List Char) : Dedents raw (dedent raw) := by
  obtain ⟨first, others, h⟩ := exists_bareLines raw
  have hmargin := isMargin_commonIndent others
  have hloses : List.Forall₂ (LosesMargin (commonIndent others)) others
      (others.map (unindent (commonIndent others))) :=
    List.forall₂_map_right_iff.mpr
      (List.forall₂_same.mpr fun l hl => losesMargin_unindent (hmargin.le hl))
  have hnewline : ∀ l ∈ first :: others.map (unindent (commonIndent others)), '\n' ∉ l := by
    have hraw := newline_notMem_bareLines raw
    rw [h] at hraw
    obtain ⟨hfirst, hothers⟩ := List.forall_mem_cons.mp hraw
    refine List.forall_mem_cons.mpr ⟨hfirst, fun l hl hc => ?_⟩
    obtain ⟨m, hm, rfl⟩ := List.mem_map.mp hl
    obtain ⟨cut, hcut, -⟩ := exists_cut (commonIndent others) m
    exact hothers m hm (hcut ▸ List.mem_append_right cut hc)
  obtain ⟨before, after, happ, hblank⟩ :=
    exists_trimBlankLines (first :: others.map (unindent (commonIndent others)))
  have hends := ends_trimBlankLines (first :: others.map (unindent (commonIndent others)))
  have hlines : lines (dedent raw) =
      trimBlankLines (first :: others.map (unindent (commonIndent others))) := by
    rw [dedent_of_bareLines h]
    refine lines_joinLines (fun l hl => hnewline l ?_) fun l hl hnil => ?_
    · rw [happ]
      exact List.mem_append_left after (List.mem_append_right before hl)
    · exact nomatch hnil ▸ hends.1 l hl
  rw [← hlines] at happ hends
  exact ⟨hends, _, first, others, _, before, after, h, hmargin, hloses, happ, hblank⟩

theorem dedent_margin (hw : ∀ c ∈ w, isIndent c = true) (raw : List Char) :
    dedent (breakLines ('\n' :: w) raw) = dedent raw := by
  obtain ⟨first, others, h⟩ := exists_bareLines raw
  have hbreaks : ∀ c ∈ w, c ≠ '\n' ∧ c ≠ '\r' := by
    intro c hc
    have hindent := hw c hc
    constructor <;> rintro rfl <;> cases hindent
  rw [dedent_of_bareLines h, dedent_of_bareLines (bareLines_margin hbreaks h)]
  by_cases hall : ∀ l ∈ others, isBlankLine l = true
  · -- there is no margin, and nothing but the first line is left
    have hall' : ∀ l ∈ others.map (w ++ ·), isBlankLine l = true := by
      rw [List.forall_mem_map]
      exact fun l hl => (isBlankLine_append hw l).trans (hall l hl)
    have hzero : unindent 0 = id := funext unindent_zero
    rw [commonIndent_of_blank hall, commonIndent_of_blank hall', hzero, List.map_id, List.map_id,
      ← List.singleton_append, ← List.singleton_append (l := others), trimBlankLines_append hall,
      trimBlankLines_append hall']
  · have hsome : ∃ l ∈ others, isBlankLine l = false := by simpa using hall
    rw [commonIndent_margin hw hsome, List.map_map]
    have hsame (l : List Char) : unindent (commonIndent others + w.length) (w ++ l) =
        unindent (commonIndent others) l := unindent_append hw _ l
    simp only [Function.comp_def, hsame]

theorem dedent_regardless_of_margin (raw : List Char) :
    Dedents raw (dedent raw) ∧
    (∀ w, (∀ c ∈ w, isIndent c = true) → dedent (breakLines ('\n' :: w) raw) = dedent raw) ∧
    ∀ n line, (dropBytes n line).isSome = true ↔ IsBoundary (String.ofList line) n :=
  ⟨dedents_dedent raw, fun _ hw => dedent_margin hw raw, isSome_dropBytes⟩

theorem dedent_toys : (∀ c ∈ ['\t', ' '], isIndent c = true) ∧
    dedent (breakLines ['\n', '\t', ' '] "\n  Toys\r\n   are\n\u3000\n \t fun\r\r\n \n".toList) =
      dedent "\n  Toys\r\n   are\n\u3000\n \t fun\r\r\n \n".toList ∧
    dedent "\n  Toys\r\n   are\n\u3000\n \t fun\r\r\n \n".toList = "Toys\n are\n\u3000\n fun".toList :=
  ⟨by simp [isIndent], (dedent_regardless_of_margin _).2.1 _ (by simp [isIndent]), by decide +kernel⟩

end SchemaGraph.Text
