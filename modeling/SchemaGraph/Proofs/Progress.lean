import SchemaGraph.Proofs.Pace

namespace SchemaGraph

open Text (Span)

namespace Parser

theorem literalRest_list {value : Parser Literal} {hv : Consumes value} :
    literalRest value hv .list =
      closed .bracketRight value hv id >>= fun items => return .list items := by
  simp only [literalRest, closed, bind_assoc, pure_bind, id_eq]

theorem literalRest_object {value : Parser Literal} {hv : Consumes value} :
    literalRest value hv .object =
      closed .braceRight (entry value) (consumes_entry hv) id >>= fun entries =>
        return .object entries := by
  simp only [literalRest, closed, bind_assoc, pure_bind, id_eq]

theorem closeLists_succ (n : Nat) (t : TypeExpr Ident) : closeLists (n + 1) t =
    closeLists n t >>= fun t => (do punct .bracketRight; bang (.list t)) := by
  induction n generalizing t with
  | zero =>
      rw [closeLists, closeLists, pure_bind]
      exact congrArg _ (funext fun _ => bind_pure _)
  | succ n ih =>
      rw [closeLists.eq_2 t (n + 1), closeLists.eq_2 t n]
      simp only [bind_assoc, ih]

theorem typeExpr_eq : typeExpr = branch (isPunct .bracketLeft)
    (do
      punct .bracketLeft
      let t ← typeExpr
      punct .bracketRight
      return .list t)
    (do
      let name ← ident
      return .named name) >>= bang := by
  conv_lhs => rw [typeExpr, loop_eq_branch]
  simp only [branch_bind, bind_assoc, pure_bind, List.length_cons, List.length_nil, closeLists_succ]
  simp only [typeExpr, closeLists, bind_assoc, bind_pure]

theorem directiveLocation_eq : directiveLocation = ident >>= fun name =>
    match DirectiveLocation.ofText? name.text with
    | some location => Pure.pure location
    | none => fun _ => .error ⟨.unknownLocation name.text, name.span.line, name.span.column⟩ := by
  funext c
  simp only [directiveLocation, Bind.bind, Parser.bind]
  cases ident c with
  | error e => rfl
  | ok x =>
      obtain ⟨name, d⟩ := x
      dsimp only
      cases DirectiveLocation.ofText? name.text <;> rfl

theorem test_of_loop {α : Type} {test : Cursor → Bool} {item : Parser α} {hi : Consumes item}
    {c d : Cursor} {as : List α} (h : loop test item hi c = .ok (as, d)) : test d = false := by
  induction hn : c.rest.length using Nat.strongRecOn generalizing c as with
  | _ n ih =>
      rw [loop_step] at h
      split at h
      · split at h
        · cases h
        · rename_i a c' hc
          split at h
          · cases h
          · rename_i as' d' hl
            obtain ⟨-, rfl⟩ := Prod.mk.inj (Except.ok.inj h)
            exact ih _ (hn ▸ hi c a c' hc) hl rfl
      · rename_i htest
        obtain ⟨-, rfl⟩ := Prod.mk.inj (Except.ok.inj h)
        exact Bool.eq_false_iff.mpr htest

theorem rest_document {c d : Cursor} {ds : List Definition} (h : document c = .ok (ds, d)) :
    d.rest = [] := by
  simpa using test_of_loop h

end Parser

namespace Counted

variable {b : Nat}

theorem paces_ident : Paces b 2 1 ident Parser.ident :=
  .located (.bind paces_take fun _ => paces_pure _)

theorem paces_description : Paces b 2 0 description Parser.description :=
  .branch (.mono paces_take) (paces_pure none)

theorem paces_bang (t : TypeExpr Ident) : Paces b 2 0 (bang t) (Parser.bang t) :=
  .onEat (paces_pure _) (paces_pure t)

theorem paces_typeExpr : Paces b 1 1 typeExpr Parser.typeExpr := by
  refine .recur fun k again _ hagain => ?_
  have hlist : Paces (k + 1) 0 0
      (do let t ← round again; expect .bracketRight; return TypeExpr.list t)
      (do let t ← Parser.typeExpr; Parser.punct .bracketRight; return TypeExpr.list t) :=
    hagain.round.bind fun t => .bind paces_expect fun _ => paces_pure _
  have hnamed : Paces (k + 1) 1 1 (do let name ← ident; return TypeExpr.named name)
      (do let name ← Parser.ident; return .named name) :=
    .bind paces_ident fun name => paces_pure _
  rw [Parser.typeExpr_eq]
  exact Paces.bind (.onEat hlist hnamed) fun t => .mono (paces_bang t)

theorem Paces.entry {value : Counted Literal} {pvalue : Parser Literal}
    (h : Paces b 1 1 value pvalue) : Paces b 1 1 (entry value) (Parser.entry pvalue) :=
  .bind paces_ident fun _ => .bind paces_expect fun _ => h.bind fun _ => paces_pure _

theorem Paces.literalRest {value : Counted Literal} {pvalue : Parser Literal}
    {hv : Parser.Consumes pvalue} (h : Paces b 1 1 value pvalue) (head : Parser.LiteralHead) :
    Paces (b + 1) 0 0 (literalRest value head) (Parser.literalRest pvalue hv head) := by
  cases head with
  | whole v => exact paces_pure v
  | list =>
      rw [Parser.literalRest_list]
      exact h.closed.bind fun items => paces_pure (Literal.list items)
  | object =>
      rw [Parser.literalRest_object]
      exact h.entry.closed.bind fun entries => paces_pure (Literal.object entries)

theorem paces_literal : Paces b 1 1 literal Parser.literal := by
  refine .recur fun k again _ hagain => ?_
  rw [Parser.literal_eq]
  exact .bind paces_take fun head => hagain.literalRest head

theorem paces_argument : Paces b 1 1 argument Parser.argument :=
  .located (.bind paces_ident fun _ => .bind paces_expect fun _ => .bind paces_literal fun _ =>
    paces_pure _)

theorem paces_appliedDirective : Paces b 2 1 appliedDirective Parser.appliedDirective :=
  .located (.bind paces_expect fun _ => .bind paces_ident fun _ =>
    .bind (.whenAhead (.many paces_argument)) fun _ => paces_pure _)

theorem paces_directives : Paces b 1 0 directives Parser.directives :=
  .whileAhead paces_appliedDirective

theorem paces_default : Paces b 1 0
    (onEat (Parser.isPunct .equals) (do let v ← literal; return some v) (return none))
    (Parser.whenPunct .equals
      (Parser.preceded .equals (do let v ← Parser.literal; return some v)) none) :=
  .whenEat (Paces.bind (c := 1) (k := 1) paces_literal fun v => paces_pure (some v))

theorem paces_inputDef : Paces b 1 1 inputDef Parser.inputDef :=
  .located (.bind paces_description fun _ => .bind paces_ident fun _ => .bind paces_expect fun _ =>
    .bind paces_typeExpr fun _ => .bind paces_default fun _ => .bind paces_directives fun _ =>
    paces_pure _)

theorem paces_argumentDefs : Paces b 1 0 argumentDefs Parser.argumentDefs :=
  .whenAhead (.many paces_inputDef)

theorem paces_inputFields : Paces b 1 2 inputFields Parser.inputFields :=
  .any paces_inputDef

theorem paces_fieldDef : Paces b 1 1 fieldDef Parser.fieldDef :=
  .located (.bind paces_description fun _ => .bind paces_ident fun _ =>
    .bind paces_argumentDefs fun _ => .bind paces_expect fun _ => .bind paces_typeExpr fun _ =>
    .bind paces_directives fun _ => paces_pure _)

theorem paces_fields : Paces b 1 0 fields (Parser.whenPunct .braceLeft
    (Parser.enclosed .braceLeft .braceRight Parser.fieldDef Parser.consumes_fieldDef) []) :=
  .whenAhead (.any paces_fieldDef)

theorem paces_variantDef : Paces b 1 1 variantDef Parser.variantDef :=
  .located (.bind paces_description fun _ => .bind paces_ident fun _ =>
    .bind paces_directives fun _ => .bind (.whenAhead paces_inputFields) fun _ => paces_pure _)

theorem paces_implementsList : Paces b 1 0 implementsList Parser.implementsList :=
  .onEat (.mono (.separated (.mono paces_ident))) (paces_pure [])

theorem paces_recordVariant (name : Ident) :
    Paces b 1 1 (recordVariant name) (Parser.recordVariant name) :=
  .located (.bind paces_inputFields fun _ => paces_pure _)

theorem paces_variants (name : Ident) : Paces b 1 0 (variants name) (Parser.variants name) :=
  .branch (.bind (paces_recordVariant name) fun _ => paces_pure _)
    (.whenEat (.separated paces_variantDef))

theorem paces_typeRest (name : Ident) (kind : Kind) :
    Paces b 1 0 (typeRest name kind) (Parser.typeRest name kind) := by
  cases kind with
  | scalar => exact .bind paces_directives fun _ => paces_pure _
  | object =>
      exact .bind paces_implementsList fun _ => .bind paces_directives fun _ =>
        .bind paces_fields fun _ => paces_pure _
  | interface =>
      exact .bind paces_implementsList fun _ => .bind paces_directives fun _ =>
        .bind paces_fields fun _ => paces_pure _
  | union =>
      exact .bind paces_directives fun _ => .bind (.whenEat (.separated (.mono paces_ident)))
        fun _ => paces_pure _
  | data => exact .bind paces_directives fun _ => .bind (paces_variants name) fun _ => paces_pure _

theorem paces_typeDef (description : Option String) (kind : Kind) :
    Paces b 1 1 (typeDef description kind) (Parser.typeDef description kind) :=
  .bind paces_ident fun name => .bind (paces_typeRest name kind) fun _ => paces_pure _

theorem paces_operationDef : Paces b 1 1 operationDef Parser.operationDef :=
  .located (.bind paces_take fun _ => .bind paces_expect fun _ => .bind paces_ident fun _ =>
    paces_pure _)

theorem paces_schemaDef (description : Option String) :
    Paces b 1 0 (schemaDef description) (Parser.schemaDef description) :=
  .bind paces_directives fun _ => .bind (.whenAhead (.many paces_operationDef))
    fun _ => paces_pure _

theorem paces_directiveLocation : Paces b 1 1 directiveLocation Parser.directiveLocation := by
  rw [Parser.directiveLocation_eq]
  refine .bind paces_ident fun name => ?_
  cases DirectiveLocation.ofText? name.text with
  | some location => exact paces_pure location
  | none => exact paces_halt

theorem paces_repeatable : Paces b 1 0
    (onEat (Parser.isKeyword "repeatable") (return true) (return false))
    (Parser.branch (Parser.isKeyword "repeatable") (do Parser.keyword "repeatable"; return true)
      (return false)) :=
  .onEat (paces_pure true) (paces_pure false)

theorem paces_directiveDef (description : Option String) :
    Paces b 1 1 (directiveDef description) (Parser.directiveDef description) :=
  .bind paces_expect fun _ => .bind paces_ident fun _ => .bind paces_argumentDefs fun _ =>
    .bind paces_repeatable fun _ => .bind paces_expectKeyword fun _ =>
    .bind (.separated paces_directiveLocation) fun _ => paces_pure _

theorem paces_plainRest (description : Option String) (head : Parser.Head) :
    Paces b 1 0 (plainRest description head) (Parser.plainRest description head) := by
  cases head with
  | schema => exact .bind (paces_schemaDef description) fun _ => paces_pure _
  | type kind => exact .bind (paces_typeDef description kind) fun _ => paces_pure _
  | directive => exact .bind (paces_directiveDef description) fun _ => paces_pure _

theorem paces_extensionRest (head : Parser.Head) :
    Paces b 1 0 (extensionRest head) (Parser.extensionRest head) := by
  cases head with
  | type kind => exact .bind (paces_typeDef none kind) fun _ => paces_pure _
  | schema => exact .bind (paces_schemaDef none) fun _ => paces_pure _
  | directive => exact .bind (paces_schemaDef none) fun _ => paces_pure _

theorem paces_extension : Paces b 2 1 extension Parser.extension :=
  .located (.bind paces_expectKeyword fun _ => .bind paces_take fun head =>
    .mono (paces_extensionRest head))

theorem paces_plainDefinition : Paces b 2 1 plainDefinition Parser.plainDefinition :=
  .located (.bind paces_description fun description => .bind paces_take fun head =>
    paces_plainRest description head)

theorem paces_definition : Paces b 2 1 definition Parser.definition :=
  .branch paces_extension paces_plainDefinition

theorem paces_document : Paces b 1 0 document Parser.document := by
  rw [Parser.document_eq]
  exact .whileAhead paces_definition

section Progress

variable {α : Type} {m : Counted α} {p : Parser α}

def Ends (m : Counted α) (p : Parser α) : Prop :=
  ∀ ts s, s.pos ≤ ts.items.length → ts.items.length ≤ s.left + s.pos →
    match m ts s with
    | .ok (a, s') => p (ts.cursorAt s.pos) = .ok (a, ts.cursorAt s'.pos) ∧ s.Step ts 0 s'
    | .error (.refused e) => p (ts.cursorAt s.pos) = .error e
    | .error _ => False

def Advances (m : Counted α) : Prop :=
  ∀ ts s, s.pos ≤ ts.items.length →
    (∀ a s', m ts s = .ok (a, s') → s.pos < s'.pos ∧ s'.pos ≤ ts.items.length) ∧
    (s.pos = ts.items.length → ∃ e, m ts s = .error (.refused e))

theorem ends_of_paces (h : ∀ b, Paces b 1 0 m p) : Ends m p := by
  intro ts s hs hleft
  have hm := h (s.left + 1) ts s hs (Nat.lt_succ_self _)
  unfold PacesAt at hm
  split at hm
  · rename_i hok
    rw [hok]
    exact hm
  · rename_i herr
    rw [herr]
    exact hm
  · exact hm.elim
  · omega

theorem advances_of_paces (h : ∀ b, Paces b 1 1 m p) : Advances m := by
  intro ts s hs
  have hm := h (s.left + 1) ts s hs (Nat.lt_succ_self _)
  unfold PacesAt at hm
  constructor
  · intro a s' hok
    rw [hok] at hm
    exact ⟨hm.2.pos_le, hm.2.inside⟩
  · intro hend
    split at hm
    · have hle := hm.2.pos_le
      have hinside := hm.2.inside
      omega
    · exact ⟨_, ‹_›⟩
    · exact hm.elim
    · omega

def items : List (Σ α : Type, Counted α × Parser α) :=
  [⟨_, operationDef, Parser.operationDef⟩, ⟨_, fieldDef, Parser.fieldDef⟩,
    ⟨_, inputDef, Parser.inputDef⟩, ⟨_, argument, Parser.argument⟩, ⟨_, literal, Parser.literal⟩,
    ⟨_, entry literal, Parser.entry Parser.literal⟩, ⟨_, variantDef, Parser.variantDef⟩,
    ⟨_, ident, Parser.ident⟩, ⟨_, directiveLocation, Parser.directiveLocation⟩,
    ⟨_, appliedDirective, Parser.appliedDirective⟩, ⟨_, definition, Parser.definition⟩]

theorem paces_items : ∀ r ∈ items, ∀ b, Paces b 1 1 r.2.1 r.2.2 := by
  simp only [items, List.forall_mem_cons, List.not_mem_nil, false_imp_iff, implies_true, and_true]
  exact ⟨fun b => paces_operationDef, fun b => paces_fieldDef, fun b => paces_inputDef,
    fun b => paces_argument, fun b => paces_literal, fun b => .entry paces_literal,
    fun b => paces_variantDef, fun b => .mono paces_ident, fun b => paces_directiveLocation,
    fun b => .mono paces_appliedDirective, fun b => .mono paces_definition⟩

theorem document_run {ts : Tokens} {left : Nat} (h : ts.items.length ≤ left) :
    match Document.ofTokens ts with
    | .ok d => ∃ left', document ts ⟨0, left⟩ = .ok (d.definitions, ⟨ts.items.length, left'⟩) ∧
        left ≤ left' + ts.items.length
    | .error e => document ts ⟨0, left⟩ = .error (.refused e) := by
  have hends := ends_of_paces (fun b => paces_document) ts ⟨0, left⟩ (Nat.zero_le _) h
  have hstart : ts.cursorAt 0 = ⟨ts.items, .nowhere, ts.finish⟩ := rfl
  rw [hstart] at hends
  unfold Document.ofTokens
  split at hends
  · rename_i ds s' hok
    obtain ⟨hparse, hstep⟩ := hends
    have hrest : ts.items.drop s'.pos = [] := Parser.rest_document hparse
    have hpos : s'.pos = ts.items.length :=
      Nat.le_antisymm hstep.inside (List.drop_eq_nil_iff.mp hrest)
    rw [hparse]
    refine ⟨s'.left, ?_, ?_⟩
    · rw [hok, ← hpos]
    · have := hstep.pace
      rw [← hpos]
      exact this
  · rename_i e herr
    rw [hends]
    exact herr
  · exact hends.elim

theorem grammar_progresses :
    (∀ r ∈ items, Ends r.2.1 r.2.2 ∧ Advances r.2.1) ∧
    (∀ r ∈ items, ∀ hi left right, Ends (any left right r.2.1) (Parser.enclosed left right r.2.2 hi) ∧
      Ends (many left right r.2.1) (Parser.enclosed1 left right r.2.2 hi) ∧
      Ends (separated left r.2.1) (Parser.separated left r.2.2 hi)) ∧
    Ends typeExpr Parser.typeExpr ∧ Ends directives Parser.directives ∧
    Ends document Parser.document ∧
    ∀ ts left, ts.items.length ≤ left →
      match Document.ofTokens ts with
      | .ok d => ∃ left', document ts ⟨0, left⟩ = .ok (d.definitions, ⟨ts.items.length, left'⟩) ∧
          left ≤ left' + ts.items.length
      | .error e => document ts ⟨0, left⟩ = .error (.refused e) := by
  refine ⟨fun r hr => ?_, fun r hr hi left right => ?_, ?_, ?_, ?_, fun ts left => document_run⟩
  · have hpaces := paces_items r hr
    exact ⟨ends_of_paces fun b => .mono (hpaces b), advances_of_paces hpaces⟩
  · have hpaces := paces_items r hr
    refine ⟨?_, ?_, ?_⟩
    · exact ends_of_paces fun b => .mono (.any (hpaces b))
    · exact ends_of_paces fun b => .mono (.many (hpaces b))
    · exact ends_of_paces fun b => .mono (.separated (hpaces b))
  · exact ends_of_paces fun b => .mono paces_typeExpr
  · exact ends_of_paces fun b => paces_directives
  · exact ends_of_paces fun b => paces_document

example :
    let ts : Tokens := ⟨List.replicate 3 ⟨.punct .bracketLeft, .nowhere⟩, .start⟩
    literal ts ⟨0, 3⟩ = .error (.refused ⟨.unexpected .value none, 1, 1⟩) ∧
      literal ts ⟨0, 2⟩ = .error .outOfRounds :=
  ⟨rfl, rfl⟩

end Progress

end Counted

end SchemaGraph
