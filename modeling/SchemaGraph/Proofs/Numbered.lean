import SchemaGraph.Proofs.Lossless
import SchemaGraph.Proofs.Productions

namespace SchemaGraph

open Text (Span Position)

def Text.Span.ordinal (i : Nat) : Span := ⟨i, i, i, i⟩

def Token.numbered (i : Nat) : List TokenKind → List Token
  | [] => []
  | k :: ks => ⟨k, .ordinal i⟩ :: numbered (i + 1) ks

def Cursor.numbered (i : Nat) (last : Span) (ks : List TokenKind) : Cursor :=
  ⟨Token.numbered i ks, last, ⟨i + ks.length, i + ks.length, i + ks.length⟩⟩

namespace Cursor

variable {i : Nat} {last : Span} {k : TokenKind} {ks : List TokenKind}

theorem numbered_cons : Cursor.numbered i last (k :: ks) =
    ⟨⟨k, .ordinal i⟩ :: Token.numbered (i + 1) ks, last, (Cursor.numbered (i + 1) last ks).finish⟩ := by
  simp [Cursor.numbered, Token.numbered, Nat.add_assoc, Nat.add_comm 1]

theorem head?_numbered : (Cursor.numbered i last ks).head? = ks.head? := by
  cases ks <;> rfl

theorem headSpan_numbered : (Cursor.numbered i last ks).headSpan = .ordinal i := by
  cases ks <;> rfl

theorem length_numbered : (Cursor.numbered i last ks).rest.length = ks.length := by
  induction ks generalizing i with
  | nil => rfl
  | cons k ks ih => exact congrArg Nat.succ (ih (i := i + 1))

theorem fault_numbered (wanted : Expectation) : (Cursor.numbered i last ks).fault wanted =
    ⟨.unexpected wanted ks.head?, i, i⟩ := by
  rw [fault, headSpan_numbered, head?_numbered]
  rfl

end Cursor

namespace Tokens

variable (ts : Tokens)

def kinds : List TokenKind := ts.items.map Token.kind

def marks : List (Option TokenKind) := ts.kinds.map some ++ [none]

def place (i : Nat) : Span := (ts.spans[i]?).getD .nowhere

def places : Relocation :=
  ⟨fun i => (ts.place i).start, fun i => (ts.place i).stop, fun i => (ts.place i).line,
    fun i => (ts.place i).column⟩

theorem places_ordinal (i : Nat) : ts.places.span (.ordinal i) = ts.place i := rfl

theorem length_kinds : ts.kinds.length = ts.items.length := List.length_map _

theorem place_length : ts.place ts.kinds.length = ts.endSpan := by
  simp [place, spans, length_kinds]

variable {ts}

theorem place_of_append {before after : List Token} {t : Token} (h : ts.items = before ++ t :: after) :
    ts.place before.length = t.span := by
  simp [place, spans, h]

theorem map_numbered : (Token.numbered 0 ts.kinds).map ts.places.token = ts.items := by
  have hrest (before after : List Token) (h : ts.items = before ++ after) :
      (Token.numbered before.length (after.map Token.kind)).map ts.places.token = after := by
    induction after generalizing before with
    | nil => rfl
    | cons t after ih =>
        have hnext := ih (before ++ [t]) (by simp [h])
        rw [List.length_append, List.length_singleton] at hnext
        rw [List.map_cons, Token.numbered, List.map_cons, hnext, Relocation.token, places_ordinal,
          place_of_append h]
  exact hrest [] ts.items rfl

end Tokens

namespace SyntaxError

def PointsAt (e : SyntaxError) (ts : Tokens) (i : Nat) : Prop :=
  ∃ s, ts.spans[i]? = some s ∧ e.line = s.line ∧ e.column = s.column

theorem pointsAt_place {ts : Tokens} {i : Nat} (hi : i ≤ ts.kinds.length) (fault : SyntaxFault) :
    (ts.places.error ⟨fault, i, i⟩).PointsAt ts i := by
  have hlt : i < ts.spans.length := by
    rw [Tokens.spans, List.length_append, List.length_map, List.length_singleton,
      ← ts.length_kinds]
    exact Nat.lt_succ_of_le hi
  have hget : ts.spans[i]? = some ts.spans[i] := List.getElem?_eq_getElem hlt
  refine ⟨ts.spans[i], hget, ?_⟩
  simp [Relocation.error, Tokens.places, Tokens.place, hget]

end SyntaxError

namespace Document

def ofKinds (ks : List TokenKind) : Except SyntaxError Document :=
  (Parser.document (.numbered 0 .nowhere ks)).map fun (definitions, _) => ⟨definitions⟩

theorem ofTokens_eq (ts : Tokens) : ofTokens ts =
    match ofKinds ts.kinds with
    | .ok d => .ok (ts.places.document d)
    | .error e => .error (ts.places.error e) := by
  have hf : Parser.Follows ⟨ts.places, [], nofun, ts.finish, True, fun _ => rfl⟩ 0
      (.numbered 0 .nowhere ts.kinds) ⟨ts.items, .nowhere, ts.finish⟩ := by
    refine ⟨?_, nofun, rfl, fun _ => ?_⟩
    · rw [List.append_nil]
      exact Tokens.map_numbered.symm
    · have hend := ts.place_length
      rw [← ts.places_ordinal] at hend
      rw [Cursor.numbered, Nat.zero_add]
      exact hend.symm
  have hrun := Parser.carries_document trivial hf
  unfold ofTokens ofKinds
  generalize Parser.document (.numbered 0 .nowhere ts.kinds) = x at hrun
  generalize Parser.document ⟨ts.items, .nowhere, ts.finish⟩ = y at hrun
  cases hrun with
  | ok hab _ => rw [hab]; rfl
  | error he => rw [he trivial]; rfl

theorem parse_of_tokenize {source : String} {ts : Tokens} (h : tokenize source = .ok ts) :
    parse source =
      match ofKinds ts.kinds with
      | .ok d => .ok (ts.places.document d)
      | .error e => .error (ts.places.error e) := by
  rw [parse, h]
  exact ofTokens_eq ts

end Document

end SchemaGraph
