import SchemaGraph.Proofs.Productions
import SchemaGraph.Proofs.Reading
import SchemaGraph.Proofs.WellFormed

namespace SchemaGraph

open SchemaGraph.Parser

namespace TypeExpr

def depth : TypeExpr Ident → Nat
  | .named _ => 0
  | .list t => t.depth + 1
  | .nonNull t => t.depth

def closing : TypeExpr Ident → List TokenKind
  | .named _ => []
  | .list t => t.closing ++ [.punct .bracketRight]
  | .nonNull t => t.closing ++ [.punct .bang]

def written (t : TypeExpr Ident) : List TokenKind :=
  List.replicate t.depth (.punct .bracketLeft) ++ .name t.leaf.text :: t.closing

end TypeExpr

namespace Parser

def mark (t : TypeExpr Ident) : Parser (TypeExpr Ident) := if t.isNonNull then return t else bang t

theorem mark_bare {t : TypeExpr Ident} {rest : List TokenKind} (h : Avoids [.punct .bang] rest) :
    mark t (.bare rest) = .ok (t, .bare rest) := by
  unfold mark
  split
  · rfl
  · exact reads_whenPunct_skip .bang _ t rest h

theorem isNonNull_map {α β : Type} (f : α → β) (t : TypeExpr α) :
    (t.map f).isNonNull = t.isNonNull := by
  cases t <;> rfl

theorem closeLists_closing {t : TypeExpr Ident} (ht : t.IsSimple) (n : Nat) (rest : List TokenKind) :
    (bang (.named (Relocation.erase.ident t.leaf)) >>= closeLists (t.depth + n))
        (.bare (t.closing ++ rest)) =
      (mark (t.map Relocation.erase.ident) >>= closeLists n) (.bare rest) := by
  induction t generalizing n rest with
  | named name =>
      rw [TypeExpr.depth, Nat.zero_add]
      rfl
  | list t ih =>
      rw [TypeExpr.closing, List.append_assoc, List.singleton_append, TypeExpr.depth,
        Nat.add_right_comm, Nat.add_assoc]
      rw [show (TypeExpr.list t).leaf = t.leaf from rfl, ih ht,
        bind_eq (mark_bare (avoids_cons (by simp) _)), closeLists]
      exact bind_eq (reads_punct .bracketRight rest (avoids_nil _))
  | nonNull t ih =>
      rw [TypeExpr.closing, List.append_assoc, List.singleton_append,
        show (TypeExpr.nonNull t).leaf = t.leaf from rfl, TypeExpr.depth, ih ht.2]
      have hmark : mark (t.map Relocation.erase.ident) = bang (t.map Relocation.erase.ident) :=
        if_neg (by simp [isNonNull_map, ht.1])
      rw [hmark]
      rfl

theorem reads_typeExpr {t : TypeExpr Ident} (ht : t.IsSimple) :
    Reads typeExpr t.written (t.map Relocation.erase.ident) [.punct .bang] := by
  have hopen : Reads (loop (ahead (isPunct .bracketLeft)) (punct .bracketLeft) (consumes_punct _))
      (List.replicate t.depth (.punct .bracketLeft)) (List.replicate t.depth ())
      [.punct .bracketLeft] := by
    have h : Reads (loop (ahead (isPunct .bracketLeft)) (punct .bracketLeft) (consumes_punct _))
        ((List.replicate t.depth ()).flatMap fun _ => [.punct .bracketLeft])
        ((List.replicate t.depth ()).map id) [.punct .bracketLeft] :=
      reads_while (fun _ _ => reads_punct .bracketLeft) (fun _ _ => ⟨[], rfl⟩) List.not_mem_nil
    rwa [List.map_id, ← List.map_eq_flatMap, List.map_replicate] at h
  refine hopen.seam ?_ fun rest _ => avoids_cons (by simp) _
  refine (reads_ident t.leaf.text).cons fun rest hrest => ?_
  rw [List.length_replicate]
  exact (closeLists_closing ht 0 rest).trans (bind_eq (mark_bare hrest))

end Parser

mutual

def Literal.written : Literal → List TokenKind
  | .null => [.name "null"]
  | .int n => [.int n]
  | .float x => [.float x]
  | .string s => [.string s]
  | .bool b => [.name (if b then "true" else "false")]
  | .enum tag => [.name tag]
  | .list items => .punct .bracketLeft :: (itemsWritten items ++ [.punct .bracketRight])
  | .object entries => .punct .braceLeft :: (entriesWritten entries ++ [.punct .braceRight])

def itemsWritten : List Literal → List TokenKind
  | [] => []
  | v :: vs => v.written ++ itemsWritten vs

def entriesWritten : List (Ident × Literal) → List TokenKind
  | [] => []
  | (name, v) :: es => .name name.text :: .punct .colon :: (v.written ++ entriesWritten es)

end

def entryWritten (e : Ident × Literal) : List TokenKind :=
  .name e.1.text :: .punct .colon :: e.2.written

theorem itemsWritten_eq (vs : List Literal) : itemsWritten vs = vs.flatMap Literal.written := by
  induction vs with
  | nil => rw [itemsWritten, List.flatMap_nil]
  | cons v vs ih => rw [itemsWritten, ih, List.flatMap_cons]

theorem entriesWritten_eq (es : List (Ident × Literal)) :
    entriesWritten es = es.flatMap entryWritten := by
  induction es with
  | nil => rw [entriesWritten, List.flatMap_nil]
  | cons e es ih =>
      rw [entriesWritten, ih, List.flatMap_cons]
      rfl

theorem Literal.begins_written (v : Literal) :
    Begins [.punct .bracketRight, .punct .braceRight] v.written := by
  cases v <;> rw [Literal.written] <;> exact ⟨_, _, rfl, by simp⟩

theorem length_le_flatMap {α β : Type} {w : α → List β} {as : List α} {a : α} (h : a ∈ as) :
    (w a).length ≤ (as.flatMap w).length := by
  obtain ⟨l, r, rfl⟩ := List.append_of_mem h
  rw [List.flatMap_append, List.flatMap_cons, List.length_append, List.length_append]
  omega

namespace Parser

theorem Reads.entry {value : Parser Literal} {v : Literal} (name : Ident)
    (hv : Reads value v.written (Relocation.erase.literal v) []) :
    Reads (entry value) (entryWritten (name, v)) (Relocation.erase.entry (name, v)) [] :=
  (reads_ident _).cons ((reads_punct _).cons hv.pure)

theorem reads_items {α γ : Type} {p : Parser α} {hi : Consumes p} {w : γ → List TokenKind} {g : γ → α}
    {as : List γ} {right : Punct} {f : List α → Literal} (hitem : ∀ x ∈ as, Reads p (w x) (g x) [])
    (hbegin : ∀ x ∈ as, Begins [.punct right] (w x)) :
    Reads (do
        let items ← loop (fun c => !ahead (isPunct right) c) p hi
        punct right
        return f items)
      (as.flatMap w ++ [.punct right]) (f (as.map g)) [] := by
  intro rest _
  rw [List.append_assoc, List.singleton_append,
    bind_eq (reads_until hitem hbegin List.not_mem_nil rest)]
  exact (reads_punct right).pure rest (avoids_nil _)

theorem reads_literalWithin {n : Nat} {v : Literal} (hv : v.WellFormed) (hn : v.written.length ≤ n) :
    Reads (literalWithin n).1 v.written (Relocation.erase.literal v) [] := by
  induction n generalizing v with
  | zero =>
      obtain ⟨k, ls, hw, -⟩ := v.begins_written
      rw [hw] at hn
      exact absurd hn (Nat.not_succ_le_zero _)
  | succ n ih =>
      have hwhole {k : TokenKind} (hw : v.written = [k]) (hk : literalHead? k = some (.whole v)) :
          Reads (literalWithin (n + 1)).1 v.written (Relocation.erase.literal v) [] := by
        rw [hw, literal_of_literalHead hk]
        exact (reads_accept _ hk).cons (reads_pure v [])
      have hlist : literalHead? (.punct .bracketLeft) = some .list := rfl
      have hobject : literalHead? (.punct .braceLeft) = some .object := rfl
      cases hv with
      | null => exact hwhole (by rw [Literal.written]) rfl
      | int => exact hwhole (by rw [Literal.written]) rfl
      | float x => exact hwhole (by rw [Literal.written]) rfl
      | string s => exact hwhole (by rw [Literal.written]) rfl
      | bool b => exact hwhole (by rw [Literal.written]) (by cases b <;> rfl)
      | enum _ hfree =>
          refine hwhole (by rw [Literal.written]) ?_
          simp only [List.mem_cons, List.not_mem_nil, or_false, not_or] at hfree
          simp [literalHead?, Literal.ofName, hfree]
      | list hitems =>
          rw [Literal.written, itemsWritten_eq] at hn ⊢
          rw [Relocation.literal, Relocation.literals_eq_map]
          simp only [List.length_cons, List.length_append] at hn
          refine (reads_accept _ hlist).cons (reads_items (fun v hv => ih (hitems v hv) ?_) ?_)
          · have := length_le_flatMap (w := Literal.written) hv
            omega
          · exact fun v _ => v.begins_written.mono (by simp)
      | object hnames hvalues =>
          rw [Literal.written, entriesWritten_eq] at hn ⊢
          rw [Relocation.literal, Relocation.fields_eq_map]
          simp only [List.length_cons, List.length_append] at hn
          refine (reads_accept _ hobject).cons
            (reads_items (fun e he => Reads.entry _ (ih (hvalues e he) ?_)) ?_)
          · have := length_le_flatMap (w := entryWritten) he
            simp only [entryWritten, List.length_cons] at this
            omega
          · exact fun e _ => ⟨_, _, rfl, by simp⟩

theorem reads_literal {v : Literal} (hv : v.WellFormed) :
    Reads literal v.written (Relocation.erase.literal v) [] := by
  intro rest hrest
  refine reads_literalWithin hv ?_ rest hrest
  simp only [Cursor.bare, List.length_map, List.length_append]
  omega

end Parser

def describe (description : Option String) : List TokenKind := description.toList.map .string

def Ident.written (i : Ident) : List TokenKind := [.name i.text]

def Argument.written (a : Argument) : List TokenKind := entryWritten (a.name, a.value)

def Applied.written (a : Applied) : List TokenKind :=
  .punct .atSign :: .name a.name.text :: block? .parenLeft .parenRight Argument.written a.arguments

def directivesWritten (ds : List Applied) : List TokenKind := ds.flatMap Applied.written

def defaultWritten : Option Literal → List TokenKind
  | none => []
  | some v => .punct .equals :: v.written

def InputDef.written (d : InputDef) : List TokenKind :=
  describe d.description ++ .name d.name.text :: .punct .colon ::
    (d.type.written ++ (defaultWritten d.default ++ directivesWritten d.directives))

def parametersWritten (ds : List InputDef) : List TokenKind :=
  block? .parenLeft .parenRight InputDef.written ds

theorem avoids_directivesWritten {marks : List TokenKind} (h : .punct .atSign ∉ marks)
    (ds : List Applied) : Avoids marks (directivesWritten ds) := by
  cases ds with
  | nil => exact avoids_end _
  | cons d ds => exact avoids_cons h _

theorem avoids_defaultWritten {marks : List TokenKind} (h : .punct .equals ∉ marks)
    (o : Option Literal) : Avoids marks (defaultWritten o) := by
  cases o with
  | none => exact avoids_end _
  | some v => exact avoids_cons h _

theorem begins_describe {marks : List TokenKind} (hname : ∀ s, TokenKind.name s ∉ marks)
    (hstring : ∀ s, TokenKind.string s ∉ marks) (description : Option String) (text : String)
    (ls : List TokenKind) : Begins marks (describe description ++ .name text :: ls) := by
  cases description with
  | none => exact ⟨_, _, rfl, hname text⟩
  | some s => exact ⟨_, _, rfl, hstring s⟩

namespace Parser

open Relocation (erase)

theorem reads_describe {β : Type} {f : Option String → Parser β} {b : β} {k : TokenKind}
    {ls marks : List TokenKind} (description : Option String)
    (hf : Reads (f description) (k :: ls) b marks) (hk : stringValue? k = none) :
    Reads (Parser.description >>= f) (describe description ++ k :: ls) b marks := by
  cases description with
  | none =>
      intro rest hrest
      refine Eq.trans (bind_eq ?_) (hf rest hrest)
      exact if_neg (by simp [describe, ahead_bare, hk])
  | some s =>
      have haccept : Reads Parser.description [.string s] (some s) [] :=
        Reads.branch_true (reads_accept _ rfl) rfl
      exact haccept.cons hf

theorem reads_argument {a : Argument} (h : a.WellFormed) :
    Reads argument a.written (erase.argument a) [] :=
  Reads.located ((reads_ident _).cons ((reads_punct _).cons (reads_literal h.value).pure))

theorem reads_appliedDirective {a : Applied} (h : a.WellFormed) :
    Reads appliedDirective a.written (erase.applied a) [.punct .parenLeft] := by
  refine Reads.located ((reads_punct _).cons ((reads_ident _).cons (Reads.pure ?_)))
  exact reads_block? (fun b hb => reads_argument (h.arguments b hb))
    (fun _ _ => ⟨_, _, rfl, by simp⟩) List.not_mem_nil

theorem reads_directives {ds : List Applied} (h : ∀ d ∈ ds, d.WellFormed) :
    Reads directives (directivesWritten ds) (ds.map erase.applied)
      [.punct .atSign, .punct .parenLeft] :=
  reads_while (fun d hd => reads_appliedDirective (h d hd)) (fun _ _ => ⟨_, rfl⟩) (by simp)

theorem reads_default {o : Option Literal} (h : ∀ v ∈ o, v.WellFormed) :
    Reads (whenPunct .equals (preceded .equals (do let v ← literal; return some v)) none)
      (defaultWritten o) (o.map erase.literal) [.punct .equals] := by
  cases o with
  | none => exact reads_whenPunct_skip _ _ _
  | some v =>
      have hv : Reads (do let v ← literal; return some v) v.written (some (erase.literal v)) [] :=
        (reads_literal (h v rfl)).pure
      exact Reads.whenPunct ((reads_punct _).cons (hv.mono (by simp)))

def inputMarks : List TokenKind := [.punct .bang, .punct .equals, .punct .atSign, .punct .parenLeft]

theorem reads_inputDef {d : InputDef} (h : d.WellFormed) :
    Reads inputDef d.written (erase.inputDef d) inputMarks := by
  refine Reads.located (reads_describe _ ((reads_ident _).cons ((reads_punct _).cons
    ((reads_typeExpr h.type.simple).seam ((reads_default h.default).seam
      ((reads_directives h.directives).pure.mono ?_) ?_) ?_))) rfl)
  · simp [inputMarks]
  · intro rest hrest
    exact (avoids_directivesWritten (by simp) _).append (hrest.mono (by simp [inputMarks]))
  · intro rest hrest
    rw [List.append_assoc]
    exact (avoids_defaultWritten (by simp) _).append
      ((avoids_directivesWritten (by simp) _).append (hrest.mono (by simp [inputMarks])))

theorem begins_inputDef {right : Punct} (d : InputDef) :
    Begins (.punct right :: inputMarks) d.written :=
  begins_describe (by simp [inputMarks]) (by simp [inputMarks]) _ _ _

theorem reads_parameters {ds : List InputDef} (h : ∀ d ∈ ds, d.WellFormed) :
    Reads argumentDefs (parametersWritten ds) (ds.map erase.inputDef) [.punct .parenLeft] :=
  reads_block? (fun d hd => reads_inputDef (h d hd)) (fun d _ => begins_inputDef d)
    (by simp [inputMarks])

theorem reads_inputFields {ds : List InputDef} (h : ∀ d ∈ ds, d.WellFormed) :
    Reads inputFields (block .braceLeft .braceRight InputDef.written ds) (ds.map erase.inputDef) [] :=
  reads_enclosed (fun d hd => reads_inputDef (h d hd)) (fun d _ => begins_inputDef d)
    (by simp [inputMarks])

end Parser

def FieldDef.written (d : FieldDef) : List TokenKind :=
  describe d.description ++ .name d.name.text :: (parametersWritten d.arguments ++ .punct .colon ::
    (d.type.written ++ directivesWritten d.directives))

def VariantDef.written (d : VariantDef) : List TokenKind :=
  describe d.description ++ .name d.name.text :: (directivesWritten d.directives ++
    block .braceLeft .braceRight InputDef.written d.fields)

def implementsWritten (interfaces : List Ident) : List TokenKind :=
  if interfaces.isEmpty then [] else .name "implements" :: joined .amp Ident.written interfaces

def choicesWritten {γ : Type} (w : γ → List TokenKind) (as : List γ) : List TokenKind :=
  if as.isEmpty then [] else .punct .equals :: joined .pipe w as

def TypeBody.written (directives : List Applied) : TypeBody → List TokenKind
  | .scalar => directivesWritten directives
  | .object interfaces fields => implementsWritten interfaces ++ (directivesWritten directives ++
      block .braceLeft .braceRight FieldDef.written fields)
  | .interface interfaces fields => implementsWritten interfaces ++ (directivesWritten directives ++
      block .braceLeft .braceRight FieldDef.written fields)
  | .union members => directivesWritten directives ++ choicesWritten Ident.written members
  | .data variants => directivesWritten directives ++ choicesWritten VariantDef.written variants

def TypeDef.written (d : TypeDef) : List TokenKind :=
  .name d.name.text :: d.body.written d.directives

def OperationDef.written (o : OperationDef) : List TokenKind :=
  [.name o.operation.text, .punct .colon, .name o.type.text]

def SchemaDef.written (d : SchemaDef) : List TokenKind :=
  directivesWritten d.directives ++ block? .braceLeft .braceRight OperationDef.written d.operations

def DirectiveLocation.written (l : DirectiveLocation) : List TokenKind := [.name l.text]

def DirectiveDef.written (d : DirectiveDef) : List TokenKind :=
  .punct .atSign :: .name d.name.text :: (parametersWritten d.arguments ++
    ((if d.repeatable then [.name "repeatable"] else []) ++
      .name "on" :: joined .pipe DirectiveLocation.written d.locations))

namespace Parser

open Relocation (erase)

def fieldMarks : List TokenKind := [.punct .bang, .punct .atSign, .punct .parenLeft]

theorem reads_fieldDef {d : FieldDef} (h : d.WellFormed) :
    Reads fieldDef d.written (erase.fieldDef d) fieldMarks := by
  refine Reads.located (reads_describe _ ((reads_ident _).cons
    ((reads_parameters h.arguments).before ((reads_punct _).cons
      ((reads_typeExpr h.type.simple).seam ((reads_directives h.directives).pure.mono ?_) ?_)) ?_)) rfl)
  · simp [fieldMarks]
  · intro rest hrest
    exact (avoids_directivesWritten (by simp) _).append (hrest.mono (by simp [fieldMarks]))
  · simp

theorem reads_fields {ds : List FieldDef} (h : ∀ d ∈ ds, d.WellFormed) :
    Reads (whenPunct .braceLeft (enclosed .braceLeft .braceRight fieldDef consumes_fieldDef) [])
      (block .braceLeft .braceRight FieldDef.written ds) (ds.map erase.fieldDef) [] :=
  Reads.whenPunct (reads_enclosed (fun d hd => reads_fieldDef (h d hd))
    (fun _ _ => begins_describe (by simp [fieldMarks]) (by simp [fieldMarks]) _ _ _)
    (by simp [fieldMarks]))

theorem reads_variantDef {d : VariantDef} (h : d.WellFormed) :
    Reads variantDef d.written (erase.variantDef d) [] := by
  refine Reads.located (reads_describe _ ((reads_ident _).cons ((reads_directives h.directives).before
    (Reads.pure (Reads.whenPunct (reads_inputFields h.fields))) ?_)) rfl)
  simp

theorem reads_implementsList (interfaces : List Ident) :
    Reads implementsList (implementsWritten interfaces) (interfaces.map erase.ident)
      [.name "implements", .punct .amp] := by
  unfold implementsWritten
  cases interfaces with
  | nil =>
      have h : Reads implementsList [] [] [.name "implements"] :=
        (reads_pure [] []).branch_else (fun _ => eq_name_of_isKeyword) (avoids_end _)
      exact h.mono (by simp)
  | cons i is =>
      have h : Reads (separated .amp ident consumes_ident) (joined .amp Ident.written (i :: is))
          ((i :: is).map erase.ident) [.punct .amp] :=
        reads_separated (fun j _ => reads_ident j.text) (fun _ _ => ⟨_, _, rfl, by simp⟩)
          List.not_mem_nil (List.cons_ne_nil _ _)
      exact Reads.branch_true ((reads_keyword _).cons (h.mono (by simp))) rfl

theorem reads_choices {α γ : Type} {p : Parser α} {hi : Consumes p} {w : γ → List TokenKind}
    {g : γ → α} {as : List γ} (hitem : ∀ x ∈ as, Reads p (w x) (g x) [])
    (hbegin : ∀ x ∈ as, Begins [.punct .pipe] (w x)) :
    Reads (whenPunct .equals (preceded .equals (separated .pipe p hi)) []) (choicesWritten w as)
      (as.map g) [.punct .equals, .punct .pipe] := by
  unfold choicesWritten
  cases as with
  | nil => exact (reads_whenPunct_skip _ _ _).mono (by simp)
  | cons x as =>
      have h : Reads (separated .pipe p hi) (joined .pipe w (x :: as)) ((x :: as).map g)
          [.punct .pipe] := reads_separated hitem hbegin List.not_mem_nil (List.cons_ne_nil _ _)
      exact Reads.whenPunct ((reads_punct _).cons (h.mono (by simp)))

def definitionMarks : List TokenKind :=
  [.punct .atSign, .punct .parenLeft, .punct .equals, .punct .pipe, .punct .braceLeft]

theorem avoids_choicesWritten {γ : Type} {marks : List TokenKind} (h : .punct .equals ∉ marks)
    (w : γ → List TokenKind) (as : List γ) : Avoids marks (choicesWritten w as) := by
  unfold choicesWritten
  split
  · exact avoids_end _
  · exact avoids_cons h _

theorem reads_typeRest {d : TypeDef} (h : d.WellFormed) :
    Reads (typeRest (erase.ident d.name) d.kind) (d.body.written d.directives)
      (d.directives.map erase.applied, erase.typeBody d.body) definitionMarks := by
  have hds := reads_directives h.directives
  have hbody := h.body
  unfold TypeDef.kind
  -- directives end in front of what the type is equal to
  have hseam {ls : List TokenKind} (hls : Avoids [.punct .atSign, .punct .parenLeft] ls) :
      ∀ rest, Avoids definitionMarks rest →
        Avoids [.punct .atSign, .punct .parenLeft] (ls ++ rest) :=
    fun rest hrest => hls.append (hrest.mono (by simp [definitionMarks]))
  -- and the interfaces in front of the directives or the fields
  have hbraces (ls rest : List TokenKind) : Avoids [.name "implements", .punct .amp]
      (directivesWritten d.directives ++ .punct .braceLeft :: ls ++ rest) := by
    rw [List.append_assoc]
    exact (avoids_directivesWritten (by simp) _).append (avoids_cons (by simp) _)
  cases hb : d.body with
  | scalar => exact hds.pure.mono (by simp [definitionMarks])
  | object interfaces fields =>
      rw [hb] at hbody
      exact (reads_implementsList interfaces).seam
        (hds.before ((reads_fields hbody.2).pure.mono (by simp)) (by simp)) fun _ _ => hbraces _ _
  | interface interfaces fields =>
      rw [hb] at hbody
      exact (reads_implementsList interfaces).seam
        (hds.before ((reads_fields hbody.2).pure.mono (by simp)) (by simp)) fun _ _ => hbraces _ _
  | union members =>
      have hmembers : Reads
          (whenPunct .equals (preceded .equals (separated .pipe ident consumes_ident)) [])
          (choicesWritten Ident.written members) (members.map erase.ident)
          [.punct .equals, .punct .pipe] :=
        reads_choices (fun i _ => reads_ident i.text) (fun _ _ => ⟨_, _, rfl, by simp⟩)
      exact hds.seam (hmembers.pure.mono (by simp [definitionMarks]))
        (hseam (avoids_choicesWritten (by simp) _ _))
  | data variants =>
      rw [hb] at hbody
      have hvariants : Reads (Parser.variants (erase.ident d.name))
          (choicesWritten VariantDef.written variants) (variants.map erase.variantDef)
          [.punct .braceLeft, .punct .equals, .punct .pipe] :=
        (reads_choices (fun v hv => reads_variantDef (hbody v hv)) fun v _ =>
          begins_describe (by simp) (by simp) _ _ _).branch_else (fun _ => eq_punct_of_isPunct)
            (avoids_choicesWritten (by simp) _ _)
      exact hds.seam (hvariants.pure.mono (by simp [definitionMarks]))
        (hseam (avoids_choicesWritten (by simp) _ _))

theorem reads_typeDef {d : TypeDef} (h : d.WellFormed) :
    Reads (typeDef d.description d.kind) d.written (fun s => { erase.typeDef d with span := s })
      definitionMarks :=
  (reads_ident _).cons (reads_typeRest h).pure

theorem reads_operationDef {o : OperationDef} : Reads operationDef o.written (erase.operationDef o) [] :=
  Reads.located ((reads_accept _ (by cases o.operation <;> rfl)).cons
    ((reads_punct _).cons (reads_ident _).pure))

theorem reads_schemaDef {d : SchemaDef} (h : d.WellFormed) :
    Reads (schemaDef d.description) d.written (fun s => { erase.schemaDef d with span := s })
      definitionMarks := by
  have hoperations : Reads (whenPunct .braceLeft
      (enclosed1 .braceLeft .braceRight operationDef consumes_operationDef) [])
      (block? .braceLeft .braceRight OperationDef.written d.operations)
      (d.operations.map erase.operationDef) [.punct .braceLeft] :=
    reads_block? (fun o _ => reads_operationDef) (fun _ _ => ⟨_, _, rfl, by simp⟩) List.not_mem_nil
  refine (reads_directives h.directives).seam (hoperations.pure.mono (by simp [definitionMarks])) ?_
  intro rest hrest
  refine Avoids.append ?_ (hrest.mono (by simp [definitionMarks]))
  unfold block?
  split
  · exact avoids_end _
  · exact avoids_cons (by simp) _

theorem reads_directiveLocation (l : DirectiveLocation) :
    Reads directiveLocation l.written l [] := by
  intro rest hrest
  have hl : DirectiveLocation.ofText? l.text = some l := by cases l <;> decide
  rw [DirectiveLocation.written, directiveLocation, reads_ident l.text rest hrest]
  dsimp only
  rw [hl]

theorem reads_repeatable (b : Bool) : Reads
    (branch (isKeyword "repeatable") (do keyword "repeatable"; return true) (Parser.pure false))
    (if b then [.name "repeatable"] else []) b [.name "repeatable"] := by
  cases b with
  | false => exact (reads_pure false []).branch_else (fun _ => eq_name_of_isKeyword) (avoids_end _)
  | true => exact Reads.branch_true ((reads_keyword _).cons (reads_pure true _)) rfl

theorem reads_directiveDef {d : DirectiveDef} (h : d.WellFormed) :
    Reads (directiveDef d.description) d.written (fun s => { erase.directiveDef d with span := s })
      definitionMarks := by
  have hlocations : Reads (separated .pipe directiveLocation consumes_directiveLocation)
      (joined .pipe DirectiveLocation.written d.locations) (d.locations.map id) [.punct .pipe] :=
    reads_separated (fun l _ => reads_directiveLocation l) (fun _ _ => ⟨_, _, rfl, by simp⟩)
      List.not_mem_nil h.locations
  rw [List.map_id] at hlocations
  refine (reads_punct _).cons ((reads_ident _).cons ((reads_parameters h.arguments).seam
    ((reads_repeatable d.repeatable).before ((reads_keyword _).cons
      (hlocations.pure.mono (by simp [definitionMarks]))) (by simp)) fun rest _ => ?_))
  cases d.repeatable <;> exact avoids_cons (by simp) _

end Parser

def Definition.written : Definition → List TokenKind
  | .schema d => describe d.description ++ .name "schema" :: d.written
  | .schemaExtension d => .name "extend" :: .name "schema" :: d.written
  | .type d => describe d.description ++ .name d.kind.keyword :: d.written
  | .typeExtension d => .name "extend" :: .name d.kind.keyword :: d.written
  | .directive d => describe d.description ++ .name "directive" :: d.written

def Document.written (d : Document) : List TokenKind := d.definitions.flatMap Definition.written

namespace Parser

open Relocation (erase)

variable {text : String} {head : Head} {ls marks : List TokenKind} {f : Text.Span → Definition}

theorem reads_plain {description : Option String} (hhead : head? (.name text) = some head)
    (hrest : Reads (plainRest description head) ls f marks) :
    Reads definition (describe description ++ .name text :: ls) (f .nowhere) marks := by
  have h : Reads plainDefinition (describe description ++ .name text :: ls) (f .nowhere) marks :=
    Reads.located (reads_describe _ ((reads_accept _ hhead).cons hrest) rfl)
  cases description with
  | none =>
      refine h.branch_false (Bool.eq_false_iff.mpr fun hk => ?_)
      rw [eq_name_of_isKeyword hk] at hhead
      exact nomatch hhead
  | some s => exact h.branch_false rfl

theorem reads_extension (hhead : extendable? (.name text) = some head)
    (hrest : Reads (extensionRest head) ls f marks) :
    Reads definition (.name "extend" :: .name text :: ls) (f .nowhere) marks :=
  Reads.branch_true (Reads.located ((reads_keyword _).cons ((reads_accept _ hhead).cons hrest))) rfl

theorem head_keyword (kind : Kind) : head? (.name kind.keyword) = some (.type kind) := by
  cases kind <;> rfl

theorem reads_definition {x : Definition} (h : x.WellFormed) :
    Reads definition x.written (erase.definition x) definitionMarks := by
  have hschema : head? (.name "schema") = some .schema := rfl
  have hdirective : head? (.name "directive") = some .directive := rfl
  have hextendable (kind : Kind) : extendable? (.name kind.keyword) = some (.type kind) := by
    rw [extendable?, head_keyword]
    rfl
  cases x with
  | schema d =>
      have hd : Reads (plainRest d.description .schema) d.written _ definitionMarks :=
        (reads_schemaDef h).pure
      exact reads_plain hschema hd
  | type d =>
      have hd : Reads (plainRest d.description (.type d.kind)) d.written _ definitionMarks :=
        (reads_typeDef h).pure
      exact reads_plain (head_keyword d.kind) hd
  | directive d =>
      have hd : Reads (plainRest d.description .directive) d.written _ definitionMarks :=
        (reads_directiveDef h).pure
      exact reads_plain hdirective hd
  | schemaExtension d =>
      have hrest := reads_schemaDef h.2
      rw [h.1] at hrest
      have hd : Reads (extensionRest .schema) d.written _ definitionMarks := hrest.pure
      exact reads_extension (show extendable? (.name "schema") = some .schema from rfl) hd
  | typeExtension d =>
      have hrest := reads_typeDef h.2
      rw [h.1] at hrest
      have hd : Reads (extensionRest (.type d.kind)) d.written _ definitionMarks := hrest.pure
      exact reads_extension (hextendable d.kind) hd

theorem begins_definition (x : Definition) : Begins definitionMarks x.written := by
  cases x with
  | schemaExtension d => exact ⟨_, _, rfl, by simp [definitionMarks]⟩
  | typeExtension d => exact ⟨_, _, rfl, by simp [definitionMarks]⟩
  | _ => exact begins_describe (by simp [definitionMarks]) (by simp [definitionMarks]) _ _ _

theorem document_written {d : Document} (h : d.WellFormed) :
    document (.bare d.written) = .ok (d.bare.definitions, .bare []) := by
  have hloop : document (.bare (d.definitions.flatMap Definition.written ++ [])) =
      .ok (d.definitions.map erase.definition, .bare []) := by
    refine loop_bare (fun x hx => reads_definition (h x hx))
      (fun x _ ks => ((begins_definition x).append ks).avoids) (fun x _ ks => ?_) (avoids_end _) rfl
    obtain ⟨k, ls, hw, -⟩ := begins_definition x
    rw [hw]
    rfl
  rwa [List.append_nil] at hloop

end Parser

end SchemaGraph
