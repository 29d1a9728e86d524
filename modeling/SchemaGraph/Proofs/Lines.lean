import Mathlib.Data.List.DropRight
import SchemaGraph.Text.Dedent

namespace SchemaGraph.Text

variable {p : Char → Bool} {c : Char} {cs l w eol : List Char} {ls : List (List Char)}

theorem exists_splitLines (cs : List Char) : ∃ l ls, splitLines cs = l :: ls := by
  cases cs with
  | nil => exact ⟨[], [], rfl⟩
  | cons c cs =>
      rw [splitLines]
      split
      · exact ⟨[], [], rfl⟩
      · split
        · exact ⟨_, _, rfl⟩
        · exact ⟨_, _, rfl⟩

theorem splitLines_newline (cs : List Char) : splitLines ('\n' :: cs) = [] :: splitLines cs := by
  obtain ⟨l, ls, h⟩ := exists_splitLines cs
  rw [splitLines, h]
  rfl

theorem splitLines_char (hc : c ≠ '\n') (h : splitLines cs = l :: ls) :
    splitLines (c :: cs) = (c :: l) :: ls := by
  rw [splitLines, h]
  exact if_neg hc

theorem splitLines_append (hw : '\n' ∉ w) (h : splitLines cs = l :: ls) :
    splitLines (w ++ cs) = (w ++ l) :: ls := by
  induction w with
  | nil => exact h
  | cons c w ih =>
      rw [List.mem_cons, not_or] at hw
      exact splitLines_char (Ne.symm hw.1) (ih hw.2)

theorem newline_notMem_splitLines (cs : List Char) : ∀ l ∈ splitLines cs, '\n' ∉ l := by
  induction cs with
  | nil => exact List.forall_mem_singleton.mpr List.not_mem_nil
  | cons c cs ih =>
      by_cases hc : c = '\n'
      · subst hc
        rw [splitLines_newline]
        exact List.forall_mem_cons.mpr ⟨List.not_mem_nil, ih⟩
      · obtain ⟨l, ls, h⟩ := exists_splitLines cs
        rw [h, List.forall_mem_cons] at ih
        rw [splitLines_char hc h, List.forall_mem_cons, List.mem_cons, not_or]
        exact ⟨⟨Ne.symm hc, ih.1⟩, ih.2⟩

theorem splitLines_joinLines (hne : ls ≠ []) (h : ∀ l ∈ ls, '\n' ∉ l) :
    splitLines (joinLines ls) = ls := by
  induction ls with
  | nil => exact absurd rfl hne
  | cons l ls ih =>
      obtain ⟨hl, hls⟩ := List.forall_mem_cons.mp h
      cases ls with
      | nil =>
          have hline := splitLines_append hl (splitLines.eq_1)
          rwa [List.append_nil] at hline
      | cons m ls =>
          have hnext := splitLines_append hl (splitLines_newline (joinLines (m :: ls)))
          rw [joinLines, hnext, ih (List.cons_ne_nil _ _) hls, List.append_nil]
          exact List.cons_ne_nil _ _

theorem dropTrailing_append (h : ∀ c ∈ w, p c = false) (l : List Char) :
    dropTrailing p (w ++ l) = w ++ dropTrailing p l := by
  have hw : w.reverse.dropWhile p = w.reverse := by
    cases hr : w.reverse with
    | nil => rfl
    | cons c r =>
        have hc : c ∈ w := List.mem_reverse.mp (hr ▸ List.mem_cons_self)
        exact List.dropWhile_cons_of_neg (by simp [h c hc])
  rw [dropTrailing, dropTrailing, List.reverse_append, List.dropWhile_append, hw]
  split
  · rename_i he
    rw [List.isEmpty_iff.mp he, List.reverse_reverse, List.reverse_nil, List.append_nil]
  · rw [List.reverse_append, List.reverse_reverse]

theorem dropTrailing_cons_congr {m : List Char} (h : dropTrailing p l = dropTrailing p m) (c : Char) :
    dropTrailing p (c :: l) = dropTrailing p (c :: m) := by
  have hl : l.reverse.dropWhile p = m.reverse.dropWhile p := List.reverse_injective h
  rw [dropTrailing, dropTrailing, List.reverse_cons, List.reverse_cons, List.dropWhile_append,
    List.dropWhile_append, hl]

def bareLines (raw : List Char) : List (List Char) := (splitLines raw).map (dropTrailing (· == '\r'))

theorem dedent_eq (raw : List Char) :
    dedent raw = joinLines (trimBlankLines (dedentLines (bareLines raw))) := rfl

theorem newline_notMem_bareLines (raw : List Char) : ∀ l ∈ bareLines raw, '\n' ∉ l := by
  intro l hl hc
  obtain ⟨m, hm, rfl⟩ := List.mem_map.mp hl
  exact newline_notMem_splitLines raw m hm ((List.rdropWhile_prefix _ m).subset hc)

def breakLines (eol cs : List Char) : List Char := cs.flatMap fun c => if c = '\n' then eol else [c]

theorem breakLines_append (cs ds : List Char) :
    breakLines eol (cs ++ ds) = breakLines eol cs ++ breakLines eol ds :=
  List.flatMap_append

theorem breakLines_newline (cs : List Char) : breakLines eol ('\n' :: cs) = eol ++ breakLines eol cs :=
  rfl

theorem breakLines_char (hc : c ≠ '\n') (cs : List Char) :
    breakLines eol (c :: cs) = c :: breakLines eol cs := by
  rw [breakLines, List.flatMap_cons, if_neg hc]
  rfl

theorem breakLines_of_notMem (h : '\n' ∉ cs) : breakLines eol cs = cs := by
  induction cs with
  | nil => rfl
  | cons c cs ih =>
      rw [List.mem_cons, not_or] at h
      rw [breakLines_char (Ne.symm h.1), ih h.2]

theorem splitLines_margin (hw : '\n' ∉ w) (h : splitLines cs = l :: ls) :
    splitLines (breakLines ('\n' :: w) cs) = l :: ls.map (w ++ ·) := by
  induction cs generalizing l ls with
  | nil =>
      obtain ⟨rfl, rfl⟩ := List.cons.inj h
      rfl
  | cons c cs ih =>
      obtain ⟨m, ms, hm⟩ := exists_splitLines cs
      by_cases hc : c = '\n'
      · subst hc
        rw [splitLines_newline, hm] at h
        obtain ⟨rfl, rfl⟩ := List.cons.inj h
        rw [breakLines_newline, List.cons_append, splitLines_newline, splitLines_append hw (ih hm)]
        rfl
      · rw [splitLines_char hc hm] at h
        obtain ⟨rfl, rfl⟩ := List.cons.inj h
        rw [breakLines_char hc, splitLines_char hc (ih hm)]

theorem bareLines_margin (hw : ∀ c ∈ w, c ≠ '\n' ∧ c ≠ '\r') (h : bareLines cs = l :: ls) :
    bareLines (breakLines ('\n' :: w) cs) = l :: ls.map (w ++ ·) := by
  obtain ⟨m, ms, hm⟩ := exists_splitLines cs
  rw [bareLines, hm] at h
  obtain ⟨rfl, rfl⟩ := List.cons.inj h
  rw [bareLines, splitLines_margin (fun hc => (hw _ hc).1 rfl) hm, List.map_cons, List.map_map,
    List.map_map]
  refine congrArg (List.cons _) (List.map_congr_left fun x _ => ?_)
  exact dropTrailing_append (fun c hc => beq_false_of_ne (hw c hc).2) x

theorem bareLines_crlf (raw : List Char) : bareLines (breakLines ['\r', '\n'] raw) = bareLines raw := by
  induction raw with
  | nil => rfl
  | cons c raw ih =>
      obtain ⟨l, ls, h⟩ := exists_splitLines raw
      obtain ⟨m, ms, hm⟩ := exists_splitLines (breakLines ['\r', '\n'] raw)
      by_cases hc : c = '\n'
      · subst hc
        have hreturn := splitLines_char (c := '\r') (by decide)
          (splitLines_newline (breakLines ['\r', '\n'] raw))
        rw [bareLines, bareLines, breakLines_newline, splitLines_newline]
        exact (congrArg (List.map _) hreturn).trans (congrArg (List.cons []) ih)
      · rw [bareLines, bareLines, h, hm] at ih
        obtain ⟨hhead, htail⟩ := List.cons.inj ih
        rw [breakLines_char hc, bareLines, bareLines, splitLines_char hc h, splitLines_char hc hm]
        exact congrArg₂ List.cons (dropTrailing_cons_congr hhead c) htail

end SchemaGraph.Text
