import SchemaGraph.Proofs.Lossless
import SchemaGraph.Proofs.Productions

namespace SchemaGraph

open Text (Position Span)

def Text.Position.shift (bytes lines : Nat) (p : Position) : Position :=
  ⟨p.offset + bytes, p.line + lines, p.column⟩

theorem Text.Position.shift_after (bytes lines : Nat) (p : Position) (cs : List Char) :
    (p.shift bytes lines).after cs = (p.after cs).shift bytes lines := by
  induction cs generalizing p with
  | nil => rfl
  | cons c cs ih =>
      have hnext : (p.shift bytes lines).next c = (p.next c).shift bytes lines := by
        unfold next shift
        split
        · simp only [Nat.add_right_comm]
        · simp only [Nat.add_right_comm]
      rw [after_cons, after_cons, hnext, ih]

theorem Piece.tokens_shift (bytes lines : Nat) (p : Position) (ps : List Piece) :
    tokens (p.shift bytes lines) ps = (tokens p ps).map (Relocation.shift bytes lines).token := by
  induction ps generalizing p with
  | nil => rfl
  | cons q ps ih =>
      rw [tokens, tokens, List.map_cons, Position.shift_after, ih, token, token,
        Position.shift_after, Position.shift_after]
      rfl

def Relocation.behind (source : String) : Relocation :=
  shift (source.utf8ByteSize + 1) (source.toList.count '\n' + 1)

theorem Text.Position.start_after_line (source : String) :
    start.after (source.toList ++ ['\n']) =
      start.shift (source.utf8ByteSize + 1) (source.toList.count '\n' + 1) := by
  rw [after_append, Position.start_after, Position.ofPrefix, String.utf8Len_toList]
  simp [shift, start, next, Nat.add_comm]

theorem tokenize_join {a b : String} {ts us : Tokens} (ha : tokenize a = .ok ts)
    (hb : tokenize b = .ok us) : tokenize (a ++ "\n" ++ b) =
      .ok ⟨ts.items ++ us.items.map (Relocation.behind a).token,
        us.finish.shift (a.utf8ByteSize + 1) (a.toList.count '\n' + 1)⟩ := by
  obtain ⟨ps, tail, hpa, hps, htail, rfl⟩ := tokenizeFrom_eq_ok_iff.mp ha
  obtain ⟨qs, rest, hqb, hqs, hrest, rfl⟩ := tokenizeFrom_eq_ok_iff.mp hb
  -- the line feed ends what `a` ends in, and makes of it a gap
  have hgap : IsGap (tail ++ ['\n']) := htail.line .nil
  have hlaid : Laid (tail ++ ['\n'] ++ b.toList) ps := by
    refine hps.swap ?_
    cases tail with
    | nil => exact Or.inr fun c hc => Or.inl (by simp at hc; subst hc; rfl)
    | cons x xs => exact Or.inl rfl
  have hchars : (a ++ "\n" ++ b).toList = Piece.allChars ps ++ (tail ++ ['\n'] ++ b.toList) := by
    rw [String.toList_append, String.toList_append, hpa, List.append_assoc, List.append_assoc,
      List.append_assoc]
    rfl
  have hstart : ((Position.start.after (Piece.allChars ps)).after (tail ++ ['\n'])) =
      Position.start.shift (a.utf8ByteSize + 1) (a.toList.count '\n' + 1) := by
    rw [← Position.after_append, ← List.append_assoc, ← hpa, Position.start_after_line]
  rw [tokenize, hchars, tokenizeFrom_append hlaid, tokenizeFrom_append_of_isGap hgap, hstart,
    tokenizeFrom_eq_ok_iff.mpr ⟨qs, rest, hqb, hqs, hrest, rfl⟩, Piece.tokens_shift,
    Position.shift_after]
  rfl

namespace Parser

theorem opens_of_definition {c c' : Cursor} {a : Definition} (h : definition c = .ok (a, c')) :
    ∀ t ∈ c.rest.head?, t.kind.Opens := by
  intro t ht
  have hhead : c.head? = some t.kind := congrArg (Option.map Token.kind) ht
  by_cases hk : isKeyword "extend" t.kind = true
  · exact Or.inr (Or.inl hk)
  by_cases hs : (stringValue? t.kind).isSome = true
  · exact Or.inl hs
  refine Or.inr (Or.inr ?_)
  have hplain : definition c = plainDefinition c := by
    rw [definition, branch, ahead, hhead]
    exact if_neg hk
  have hnone : description c = .ok (none, c) := by
    rw [description, branch, ahead, hhead]
    exact if_neg hs
  rw [hplain] at h
  obtain ⟨_, hp, -⟩ := located_eq_ok h
  obtain ⟨_, _, hd, hp⟩ := bind_eq_ok hp
  rw [hnone] at hd
  obtain ⟨rfl, rfl⟩ : none = _ ∧ c = _ := by simpa using hd
  obtain ⟨head, _, hp, -⟩ := bind_eq_ok hp
  obtain ⟨u, us, hu, hf, -⟩ := accept_eq_ok hp
  obtain rfl : u = t := by simpa [hu] using ht
  rw [hf]
  rfl

theorem opens_of_document {c : Cursor} {x : List Definition × Cursor} (h : document c = .ok x) :
    ∀ t ∈ c.rest.head?, t.kind.Opens := by
  intro t ht
  have hne : (!c.rest.isEmpty) = true := by
    cases hr : c.rest with
    | nil => exact nomatch hr ▸ ht
    | cons u us => rfl
  rw [document, loop_step, if_pos hne] at h
  split at h
  · exact nomatch h
  · rename_i hd
    exact opens_of_definition hd t ht

variable {h : Host} {n : Nat} {c c' d : Cursor} {as : List Definition}

theorem document_append (hf : Follows h n c d) (hc : document c = .ok (as, c')) :
    ∃ d', d'.rest = h.more ∧ d'.finish = h.finish ∧ document d =
      (document d').map fun (bs, e) => (as.map h.place.definition ++ bs, e) := by
  induction hn : c.rest.length using Nat.strongRecOn generalizing c d as with
  | _ m ih =>
      rw [document, loop_step] at hc
      cases hr : c.rest with
      | nil =>
          obtain ⟨rfl, rfl⟩ : [] = as ∧ c = c' := by simpa [hr] using hc
          refine ⟨d, by rw [hf.rest, hr]; rfl, hf.finish, ?_⟩
          cases document d <;> rfl
      | cons t ts =>
          have hx := carries_definition hf
          have hlt := consumes_definition c
          rw [if_pos (by simp [hr])] at hc
          rw [document, loop_step, if_pos (by simp [hf.rest, hr])]
          generalize definition c = x at hx hlt hc
          generalize definition d = y at hx
          cases hx with
          | error he => exact nomatch hc
          | @ok a b c₁ d₁ hab hf₁ =>
              dsimp only at hc
              split at hc
              · exact nomatch hc
              · rename_i as₁ e hl
                obtain ⟨rfl, rfl⟩ : a :: as₁ = as ∧ e = c' := by simpa using hc
                obtain ⟨d', hrest, hfinish, hd⟩ := ih _ (hn ▸ hlt _ _ rfl) hf₁ hl rfl
                refine ⟨d', hrest, hfinish, ?_⟩
                dsimp only
                rw [document] at hd
                rw [hd, hab]
                cases loop _ definition consumes_definition d' <;> rfl

end Parser

namespace Document

theorem parse_join {a b : String} {A B : Document} (ha : parse a = .ok A) (hb : parse b = .ok B) :
    parse (a ++ "\n" ++ b) = .ok (concat [A, (Relocation.behind a).document B]) := by
  obtain ⟨ts, _, hta, hda⟩ := parse_eq_ok_iff.mp ha
  obtain ⟨us, _, htb, hdb⟩ := parse_eq_ok_iff.mp hb
  let finish := us.finish.shift (a.utf8ByteSize + 1) (a.toList.count '\n' + 1)
  have hopens : ∀ t ∈ (us.items.map (Relocation.behind a).token).head?, t.kind.Opens := by
    intro t ht
    rw [List.head?_map] at ht
    obtain ⟨u, hu, rfl⟩ := Option.map_eq_some_iff.mp ht
    exact Parser.opens_of_document hdb u hu
  have htoken (t : Token) : Relocation.stay.token t = t := rfl
  -- the first text, with the tokens of the second behind it
  obtain ⟨d, hrest, hfinish, hd⟩ := Parser.document_append (n := 0)
    (h := ⟨.stay, _, hopens, finish, False, nofun⟩) (c := ⟨ts.items, .nowhere, ts.finish⟩)
    (d := ⟨ts.items ++ us.items.map (Relocation.behind a).token, .nowhere, finish⟩)
    ⟨by rw [Relocation.map_stay htoken], nofun, rfl, nofun⟩ hda
  -- the second text, once the first has been read
  have hsecond := Parser.carries_document (h := ⟨.behind a, [], nofun, finish, True, fun _ => rfl⟩)
    trivial (n := us.items.length) (c := ⟨us.items, .nowhere, us.finish⟩) (d := d)
    ⟨by simpa using hrest, fun hlt => absurd hlt (Nat.lt_irrefl _), hfinish, fun _ => rfl⟩
  rw [hdb] at hsecond
  generalize Parser.document d = y at hd hsecond
  cases hsecond with
  | @ok _ _ _ e hbs =>
      refine parse_eq_ok_iff.mpr ⟨_, e, tokenize_join hta htb, hd.trans ?_⟩
      rw [hbs, Relocation.map_stay Relocation.definition_stay, concat]
      simp [Except.map, Relocation.document]

theorem parse_join_cats : ∃ A B, parse "data Cat = Tabby | Manx # or" = .ok A ∧
    parse "\"\"\"Siamese\nowner\"\"\" type implements implements Named { cat: Cat! }" = .ok B ∧
    parse ("data Cat = Tabby | Manx # or" ++ "\n" ++
        "\"\"\"Siamese\nowner\"\"\" type implements implements Named { cat: Cat! }") =
      .ok (concat [A, (Relocation.behind "data Cat = Tabby | Manx # or").document B]) := by
  have ha : (parse "data Cat = Tabby | Manx # or").isOk = true := by decide +kernel
  have hb : (parse "\"\"\"Siamese\nowner\"\"\" type implements implements Named { cat: Cat! }").isOk =
      true := by decide +kernel
  cases hA : parse "data Cat = Tabby | Manx # or" with
  | error e => exact nomatch hA ▸ ha
  | ok A =>
      cases hB : parse "\"\"\"Siamese\nowner\"\"\" type implements implements Named { cat: Cat! }" with
      | error e => exact nomatch hB ▸ hb
      | ok B => exact ⟨A, B, rfl, rfl, parse_join hA hB⟩

end Document

end SchemaGraph
