import SchemaGraph.Proofs.Simulation

namespace SchemaGraph

namespace Parser

open Text (Span)

variable {h : Host}

theorem carries_ident : Carries h h.place.ident ident ident :=
  Simulates.located ((simulates_accept (R := Eq) _ fun _ _ _ => rfl).bind fun _ _ hab =>
      simulates_pure fun _ => hab ▸ rfl)
    consumes_ident

theorem simulates_description : SimulatesWithin h Eq description description :=
  .branch _ (simulates_accept _ fun _ _ _ => rfl).within (simulates_pure rfl).within

theorem carries_bang (t : TypeExpr Ident) :
    Carries h (TypeExpr.map h.place.ident) (bang t) (bang (t.map h.place.ident)) :=
  Simulates.whenPunct _ ((carries_punct _).bind fun _ => simulates_pure rfl) rfl

theorem carries_closeLists (n : Nat) (t : TypeExpr Ident) :
    Carries h (TypeExpr.map h.place.ident) (closeLists n t) (closeLists n (t.map h.place.ident)) := by
  induction n generalizing t with
  | zero => exact simulates_pure rfl
  | succ n ih =>
      exact (carries_punct _).bind fun _ => (carries_bang (.list t)).bind fun t => ih t

theorem carries_typeExpr : Carries h (TypeExpr.map h.place.ident) typeExpr typeExpr :=
  ((carries_punct _).loop_while _).bind fun opened => carries_ident.bind fun name =>
    (carries_bang (.named name)).bind fun t => by
      rw [List.map_id]
      exact carries_closeLists opened.length t

theorem literal_of_literalHead {r : Relocation} {k : TokenKind} {v : Literal}
    (hk : literalHead? k = some (.whole v)) : r.literal v = v := by
  cases k with
  | name text =>
      obtain rfl : Literal.ofName text = v := by simpa [literalHead?] using hk
      exact r.literal_ofName text
  | punct p => cases p <;> simp [literalHead?] at hk
  | _ =>
      simp only [literalHead?, Option.some.injEq, LiteralHead.whole.injEq] at hk
      rw [← hk, Relocation.literal]

theorem Carries.entry {value value' : Parser Literal} (hv : Carries h h.place.literal value value') :
    Carries h h.place.entry (entry value) (entry value') :=
  carries_ident.bind fun _ => (carries_punct _).bind fun _ => hv.bind fun _ => simulates_pure rfl

theorem Carries.literalRest {value value' : Parser Literal} {hc : Consumes value}
    {hc' : Consumes value'} (hv : Carries h h.place.literal value value') {head : LiteralHead}
    (hhead : ∀ v, head = .whole v → h.place.literal v = v) :
    Carries h h.place.literal (literalRest value hc head) (literalRest value' hc' head) := by
  cases head with
  | whole v => exact simulates_pure (hhead v rfl).symm
  | list =>
      refine (Carries.loop_until hv _).bind fun items => (carries_punct _).bind fun _ =>
        simulates_pure ?_
      rw [Relocation.literal, Relocation.literals_eq_map]
  | object =>
      refine (Carries.loop_until hv.entry _).bind fun entries => (carries_punct _).bind fun _ =>
        simulates_pure ?_
      rw [Relocation.literal, Relocation.fields_eq_map]

theorem carries_literalWithin {n m : Nat} (hle : n ≤ m) (heq : h.whole → n = m) :
    Carries h h.place.literal (literalWithin n).1 (literalWithin m).1 := by
  induction n generalizing m with
  | zero =>
      intro _ c d hf
      refine .error fun hm => ?_
      rw [← heq hm, ← hf.fault fun _ => hm]
      rfl
  | succ n ih =>
      cases m with
      | zero => exact absurd hle (Nat.not_succ_le_zero n)
      | succ m =>
          have hv := ih (Nat.le_of_succ_le_succ hle) fun hm => Nat.succ.inj (heq hm)
          -- what a token says about a whole literal holds no place
          refine Simulates.bind (R := fun a b => a = b ∧ ∀ v, a = .whole v → h.place.literal v = v)
            (simulates_accept _ fun k a hk =>
              ⟨rfl, fun v hv => literal_of_literalHead (hv ▸ hk)⟩) fun head _ hab => ?_
          obtain ⟨rfl, hhead⟩ := hab
          exact hv.literalRest hhead

theorem carries_literal : Carries h h.place.literal literal literal := by
  intro n c d hf
  have hlen : d.rest.length = c.rest.length + h.more.length := by
    rw [hf.rest, List.length_append, List.length_map]
  refine carries_literalWithin ?_ (fun hm => ?_) hf
  · rw [hlen]
    exact Nat.le_add_right _ _
  · rw [hlen, h.clear hm]
    rfl

theorem carries_argument : Carries h h.place.argument argument argument :=
  Simulates.located
    (carries_ident.bind fun _ => (carries_punct _).bind fun _ => carries_literal.bind fun _ =>
      simulates_pure fun _ => rfl)
    consumes_argument

theorem carries_appliedDirective :
    Carries h h.place.applied appliedDirective appliedDirective :=
  Simulates.located
    ((carries_punct _).bind fun _ => carries_ident.bind fun _ =>
      (Simulates.whenPunct _ (carries_argument.enclosed1 _ _) rfl).bind fun _ _ hab =>
        simulates_pure fun _ => hab ▸ rfl)
    consumes_appliedDirective

theorem carries_directives : Carries h (List.map h.place.applied) directives directives :=
  carries_appliedDirective.loop_while _

theorem carries_default : Carries h (Option.map h.place.literal)
    (whenPunct .equals (preceded .equals (do let v ← literal; return some v)) none)
    (whenPunct .equals (preceded .equals (do let v ← literal; return some v)) none) := by
  refine Simulates.whenPunct _ (Simulates.preceded ?_ _) rfl
  exact carries_literal.bind fun _ => simulates_pure rfl

theorem carries_inputDef : Carries h h.place.inputDef inputDef inputDef :=
  SimulatesWithin.located
    (simulates_description.bind fun _ _ hab => carries_ident.bind fun _ =>
      (carries_punct _).bind fun _ => carries_typeExpr.bind fun _ => carries_default.bind fun _ =>
        carries_directives.bind fun _ => simulates_pure fun _ => hab ▸ rfl)
    consumes_inputDef

theorem carries_argumentDefs : Carries h (List.map h.place.inputDef) argumentDefs argumentDefs :=
  Simulates.whenPunct _ (carries_inputDef.enclosed1 _ _) rfl

theorem carries_inputFields : Carries h (List.map h.place.inputDef) inputFields inputFields :=
  carries_inputDef.enclosed _ _

theorem carries_fieldDef : Carries h h.place.fieldDef fieldDef fieldDef :=
  SimulatesWithin.located
    (simulates_description.bind fun _ _ hab => carries_ident.bind fun _ =>
      carries_argumentDefs.bind fun _ => (carries_punct _).bind fun _ =>
        carries_typeExpr.bind fun _ => carries_directives.bind fun _ =>
          simulates_pure fun _ => hab ▸ rfl)
    consumes_fieldDef

theorem carries_variantDef : Carries h h.place.variantDef variantDef variantDef :=
  SimulatesWithin.located
    (simulates_description.bind fun _ _ hab => carries_ident.bind fun _ =>
      carries_directives.bind fun _ =>
        (Simulates.whenPunct _ carries_inputFields rfl).bind fun _ _ hfields =>
          simulates_pure fun _ => hab ▸ hfields ▸ rfl)
    consumes_variantDef

theorem carries_implementsList :
    Carries h (List.map h.place.ident) implementsList implementsList :=
  Simulates.branch (fun _ hk => hk.isKeyword (by decide) (by decide))
    ((carries_keyword _).bind fun _ => carries_ident.separated _) (simulates_pure rfl)

theorem carries_recordVariant (name : Ident) :
    Carries h h.place.variantDef (recordVariant name) (recordVariant (h.place.ident name)) :=
  Simulates.located (carries_inputFields.bind fun _ => simulates_pure fun _ => rfl)
    (consumes_recordVariant name)

theorem carries_variants (name : Ident) :
    Carries h (List.map h.place.variantDef) (variants name) (variants (h.place.ident name)) :=
  Simulates.branch (fun _ hk => hk.isPunct _)
    ((carries_recordVariant name).bind fun _ => simulates_pure rfl)
    (Simulates.whenPunct _ (Simulates.preceded (carries_variantDef.separated _) _) rfl)

theorem carries_fields : Carries h (List.map h.place.fieldDef)
    (whenPunct .braceLeft (enclosed .braceLeft .braceRight fieldDef consumes_fieldDef) [])
    (whenPunct .braceLeft (enclosed .braceLeft .braceRight fieldDef consumes_fieldDef) []) :=
  Simulates.whenPunct _ (carries_fieldDef.enclosed _ _) rfl

theorem carries_typeRest (name : Ident) (kind : Kind) :
    Carries h (fun x => (x.1.map h.place.applied, h.place.typeBody x.2)) (typeRest name kind)
      (typeRest (h.place.ident name) kind) := by
  cases kind with
  | scalar => exact carries_directives.bind fun _ => simulates_pure rfl
  | object =>
      exact carries_implementsList.bind fun _ => carries_directives.bind fun _ =>
        carries_fields.bind fun _ => simulates_pure rfl
  | interface =>
      exact carries_implementsList.bind fun _ => carries_directives.bind fun _ =>
        carries_fields.bind fun _ => simulates_pure rfl
  | union =>
      exact carries_directives.bind fun _ =>
        (Simulates.whenPunct _ (Simulates.preceded (carries_ident.separated _) _) rfl).bind
          fun _ _ hab => simulates_pure (hab ▸ rfl)
  | data =>
      exact carries_directives.bind fun _ => (carries_variants name).bind fun _ =>
        simulates_pure rfl

theorem simulates_typeDef (description : Option String) (kind : Kind) :
    Simulates h (Places h h.place.typeDef) (typeDef description kind) (typeDef description kind) :=
  carries_ident.bind fun name => (carries_typeRest name kind).bind fun _ =>
    simulates_pure fun _ => rfl

theorem carries_operationDef : Carries h h.place.operationDef operationDef operationDef :=
  Simulates.located
    ((simulates_accept (R := Eq) _ fun _ _ _ => rfl).bind fun _ _ hab =>
      (carries_punct _).bind fun _ => carries_ident.bind fun _ =>
        simulates_pure fun _ => hab ▸ rfl)
    consumes_operationDef

theorem simulates_schemaDef (description : Option String) :
    Simulates h (Places h h.place.schemaDef) (schemaDef description) (schemaDef description) :=
  carries_directives.bind fun _ =>
    (Simulates.whenPunct _ (carries_operationDef.enclosed1 _ _) rfl).bind fun _ _ hab =>
      simulates_pure fun _ => hab ▸ rfl

theorem carries_directiveLocation : Carries h id directiveLocation directiveLocation := by
  intro n c d hf
  have hx := carries_ident hf
  unfold directiveLocation
  generalize ident c = x at hx
  generalize ident d = y at hx
  cases hx with
  | error he => exact .error fun hm => by rw [he hm]
  | @ok name _ _ _ hab hf' =>
      rw [hab]
      dsimp only
      rw [show (h.place.ident name).text = name.text from rfl]
      split
      · exact .ok rfl hf'
      · exact .error fun _ => rfl

theorem carries_repeatable : Carries h id
    (branch (isKeyword "repeatable") (do keyword "repeatable"; return true) (pure false))
    (branch (isKeyword "repeatable") (do keyword "repeatable"; return true) (pure false)) := by
  refine Simulates.branch (fun _ hk => hk.isKeyword (by decide) (by decide)) ?_ (simulates_pure rfl)
  exact (carries_keyword _).bind fun _ => simulates_pure rfl

theorem simulates_directiveDef (description : Option String) :
    Simulates h (Places h h.place.directiveDef) (directiveDef description)
      (directiveDef description) :=
  (carries_punct _).bind fun _ => carries_ident.bind fun _ => carries_argumentDefs.bind fun _ =>
    carries_repeatable.bind fun _ => (carries_keyword _).bind fun _ =>
      (carries_directiveLocation.separated _).bind fun locations =>
        simulates_pure fun _ => by rw [List.map_id locations]; rfl

theorem simulates_plainRest (description : Option String) (head : Head) :
    Simulates h (Places h h.place.definition) (plainRest description head)
      (plainRest description head) := by
  cases head with
  | schema =>
      exact (simulates_schemaDef _).bind fun _ _ hab =>
        simulates_pure fun s => congrArg Definition.schema (hab s)
  | type kind =>
      exact (simulates_typeDef _ _).bind fun _ _ hab =>
        simulates_pure fun s => congrArg Definition.type (hab s)
  | directive =>
      exact (simulates_directiveDef _).bind fun _ _ hab =>
        simulates_pure fun s => congrArg Definition.directive (hab s)

theorem simulates_extensionRest (head : Head) :
    Simulates h (Places h h.place.definition) (extensionRest head) (extensionRest head) := by
  have schema : Simulates h (Places h h.place.definition)
      (do let d ← schemaDef none; return fun span => .schemaExtension (d span))
      (do let d ← schemaDef none; return fun span => .schemaExtension (d span)) :=
    (simulates_schemaDef _).bind fun _ _ hab =>
      simulates_pure fun s => congrArg Definition.schemaExtension (hab s)
  cases head with
  | type kind =>
      exact (simulates_typeDef _ _).bind fun _ _ hab =>
        simulates_pure fun s => congrArg Definition.typeExtension (hab s)
  | schema => exact schema
  | directive => exact schema

theorem carries_extension : Carries h h.place.definition extension extension :=
  Simulates.located
    ((carries_keyword _).bind fun _ =>
      (simulates_accept (R := Eq) _ fun _ _ _ => rfl).bind fun _ _ hab =>
        hab ▸ simulates_extensionRest _)
    consumes_extension

theorem carries_plainDefinition : Carries h h.place.definition plainDefinition plainDefinition :=
  SimulatesWithin.located
    (simulates_description.bind fun _ _ hab =>
      (simulates_accept (R := Eq) _ fun _ _ _ => rfl).bind fun _ _ hhead =>
        hab ▸ hhead ▸ simulates_plainRest _ _)
    consumes_plainDefinition

theorem carries_definition : Carries h h.place.definition definition definition :=
  (SimulatesWithin.branch _ carries_extension.within carries_plainDefinition.within).simulates
    consumes_definition

theorem carries_document (hm : h.whole) :
    Carries h (List.map h.place.definition) document document :=
  carries_definition.loop fun _ _ _ hf => by
    rw [hf.rest, h.clear hm, List.append_nil, List.isEmpty_map]

end Parser

namespace Document

theorem parse_eq_ok_iff {source : String} {d : Document} : parse source = .ok d ↔
    ∃ ts c, tokenize source = .ok ts ∧
      Parser.document ⟨ts.items, .nowhere, ts.finish⟩ = .ok (d.definitions, c) := by
  unfold parse
  cases tokenize source with
  | error e => simp
  | ok ts =>
      unfold ofTokens
      rcases hx : Parser.document ⟨ts.items, .nowhere, ts.finish⟩ with e | ⟨definitions, c⟩
      · simp [hx, Except.map]
      · cases d
        simp [hx, Except.map]

end Document

end SchemaGraph
