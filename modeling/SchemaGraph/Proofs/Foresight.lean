import SchemaGraph.Proofs.Prediction

namespace SchemaGraph

open Text (Span)

namespace Parser

variable {α : Type} {n : Nat} {M : Set TokenKind}

def marks (ps : List Punct) : Set TokenKind := {k | ∃ p ∈ ps, k = .punct p}

def someName : TokenKind := .name "x"

theorem mem_marks {p : Punct} {ps : List Punct} (h : p ∈ ps) : .punct p ∈ marks ps := ⟨p, h, rfl⟩

theorem marks_subset {ps qs : List Punct} (h : ∀ p ∈ ps, p ∈ qs) : marks ps ⊆ marks qs := by
  rintro _ ⟨p, hp, rfl⟩
  exact mem_marks (h p hp)

theorem notMem_marks {p : Punct} {ps : List Punct} (h : p ∉ ps) : .punct p ∉ marks ps := by
  rintro ⟨q, hq, hpq⟩
  exact h (TokenKind.punct.inj hpq ▸ hq)

theorem name_notMem_marks {text : String} {ps : List Punct} : .name text ∉ marks ps := by
  rintro ⟨q, -, hq⟩
  exact nomatch hq

theorem predictive_ident : Predictive n M (some someName) ident := by
  have hname : IsName "x" := by decide
  exact Predictive.located (.map (predictive_accept rfl hname))

theorem predictive_description :
    Predictive n {k | (stringValue? k).isSome = true} none description :=
  Predictive.branch (predictive_accept (k := .string "") rfl trivial) (predictive_pure none)
    (joins_none subset_rfl)

theorem predictive_bang (t : TypeExpr Ident) : Predictive n (marks [.bang]) none (bang t) :=
  Predictive.whenPunct (.map (predictive_punct .bang)) (mem_marks (by decide))

def closer : Nat → Option TokenKind
  | 0 => none
  | _ + 1 => some (.punct .bracketRight)

theorem predictive_closeLists (m : Nat) (t : TypeExpr Ident) :
    Predictive n (marks [.bang]) (closer m) (closeLists m t) := by
  induction m generalizing t with
  | zero => exact predictive_pure t
  | succ m ih =>
      refine (predictive_punct _).andThen fun _ => (predictive_bang (.list t)).skip ih ?_
      cases m with
      | zero => exact joins_none subset_rfl
      | succ m => exact notMem_marks (by decide)

theorem predictive_typeExpr : Predictive n (marks [.bang]) (some someName) typeExpr := by
  have hopen : Predictive n (marks [.bracketLeft]) none
      (loop (ahead (isPunct .bracketLeft)) (punct .bracketLeft) (consumes_punct _)) :=
    (predictive_punct _).loop (joins_isPunct (mem_marks (by decide)))
  refine hopen.skip (fun opened => predictive_ident.andThen fun name =>
    (predictive_bang (.named name)).bind (fun t => predictive_closeLists opened.length t) ?_
      fun _ => Option.none_or) name_notMem_marks
  intro t
  cases opened with
  | nil => exact joins_none subset_rfl
  | cons u us => exact notMem_marks (by decide)

section Congr

variable {p q : Parser α} {hp : Consumes p} {hq : Consumes q} {c : Cursor}

theorem loop_congr (h : ∀ c, c.rest.length ≤ n → p c = q c) (test : Cursor → Bool)
    (hc : c.rest.length ≤ n) : loop test p hp c = loop test q hq c := by
  induction hm : c.rest.length using Nat.strongRecOn generalizing c with
  | _ m ih =>
      rw [loop_step, loop_step, h c hc]
      cases hx : q c with
      | error e => rfl
      | ok x =>
          have hlt := hq _ _ _ hx
          dsimp only
          rw [ih _ (hm ▸ hlt) (hlt.le.trans hc) rfl]

theorem closed_congr {β : Type} (h : ∀ c, c.rest.length ≤ n → p c = q c) (right : Punct)
    (g : List α → β) (hc : c.rest.length ≤ n) : closed right p hp g c = closed right q hq g c := by
  have hloop : loop (fun c => !ahead (isPunct right) c) p hp c = loop _ q hq c := loop_congr h _ hc
  simp only [closed, Bind.bind, Parser.bind, hloop]

end Congr

theorem entry_congr {p q : Parser Literal} {c : Cursor} (h : ∀ c, c.rest.length ≤ n → p c = q c)
    (hc : c.rest.length ≤ n) : entry p c = entry q c := by
  simp only [entry, Bind.bind, Parser.bind]
  cases hi : ident c with
  | error e => rfl
  | ok x =>
      have hx := consumes_ident _ _ _ hi
      dsimp only
      cases hm : punct .colon x.2 with
      | error e => rfl
      | ok y =>
          have hy := consumes_punct _ _ _ _ hm
          dsimp only
          rw [h _ (by omega)]

theorem literalRest_congr {p q : Parser Literal} {hp : Consumes p} {hq : Consumes q} {c : Cursor}
    (h : ∀ c, c.rest.length ≤ n → p c = q c) (head : LiteralHead) (hc : c.rest.length ≤ n) :
    literalRest p hp head c = literalRest q hq head c := by
  cases head with
  | whole v => rfl
  | list => exact closed_congr h .bracketRight Literal.list hc
  | object => exact closed_congr (fun c hc => entry_congr h hc) .braceRight Literal.object hc

theorem literalWithin_congr {m m' : Nat} {c : Cursor} (hm : c.rest.length ≤ m)
    (hm' : c.rest.length ≤ m') : (literalWithin m).1 c = (literalWithin m').1 c := by
  have hempty {k : Nat} {c : Cursor} (hc : c.rest.length ≤ 0) :
      (literalWithin k).1 c = .error (c.fault .value) := by
    obtain ⟨rest, last, finish⟩ := c
    obtain rfl := List.length_eq_zero_iff.mp (Nat.le_zero.mp hc)
    cases k <;> rfl
  induction m generalizing m' c with
  | zero => rw [hempty hm, hempty hm]
  | succ m ih =>
      cases m' with
      | zero => rw [hempty hm', hempty hm']
      | succ m' =>
          simp only [literalWithin, Bind.bind, Parser.bind]
          cases hx : accept .value literalHead? c with
          | error e => rfl
          | ok x =>
              have hlt := consumes_accept _ _ _ _ _ hx
              have hv (d : Cursor) (hd : d.rest.length ≤ x.2.rest.length) :
                  (literalWithin m).1 d = (literalWithin m').1 d := ih (by omega) (by omega)
              exact literalRest_congr hv x.1 (Nat.le_refl _)

theorem literal_eq :
    literal = accept .value literalHead? >>= literalRest literal consumes_literal := by
  funext c
  rw [literal, literalWithin_congr (Nat.le_refl _) (Nat.le_succ _)]
  simp only [literalWithin, Bind.bind, Parser.bind]
  cases hx : accept .value literalHead? c with
  | error e => rfl
  | ok x =>
      have hlt := consumes_accept _ _ _ _ _ hx
      have hv (d : Cursor) (hd : d.rest.length ≤ x.2.rest.length) :
          (literalWithin c.rest.length).1 d = literal d :=
        literalWithin_congr (by omega) (Nat.le_refl _)
      exact literalRest_congr hv x.1 (Nat.le_refl _)

def LiteralHead.close : LiteralHead → Option TokenKind
  | .whole _ => none
  | .list => some (.punct .bracketRight)
  | .object => some (.punct .braceRight)

theorem starts_literalRest (head : LiteralHead) :
    Starts M head.close (literalRest literal consumes_literal head) := by
  cases head with
  | whole v => exact starts_pure v
  | list => exact starts_closed Literal.list
  | object => exact starts_closed Literal.object

theorem predictive_literalHead : Predictive n M (some (.string "")) (accept .value literalHead?) :=
  predictive_accept rfl trivial

theorem starts_literal : Starts M (some (.string "")) literal := by
  rw [literal_eq]
  exact Starts.bind (M := ∅) (predictive_literalHead (n := 0)).starts starts_literalRest
    (fun _ => joins_empty) fun _ => rfl

theorem Predictive.entry {value : Parser Literal} {k : TokenKind} (h : Predictive n M (some k) value) :
    Predictive n M (some someName) (entry value) :=
  predictive_ident.andThen fun _ => (predictive_punct .colon).andThen fun _ => h.map

theorem predictive_literalRest (h : Predictive n ∅ (some (.string "")) literal) (head : LiteralHead) :
    Predictive n M head.close (literalRest literal consumes_literal head) := by
  cases head with
  | whole v => exact predictive_pure v
  | list => exact h.closed (Set.notMem_empty _) (by decide) Literal.list
  | object => exact h.entry.closed (Set.notMem_empty _) (by decide) Literal.object

theorem predictive_literal : Predictive n M (some (.string "")) literal := by
  induction n using Nat.strongRecOn generalizing M with
  | _ n ih =>
      refine ⟨fun i last ks hn => ?_, starts_literal⟩
      rw [literal_eq]
      refine (predictive_literalHead.foresees i last ks hn).bind (M := ∅) ?_ starts_literalRest
        (fun _ => joins_empty) fun _ => rfl
      intro head c hok j last' rest hc _
      have hlt := consumes_accept _ _ _ _ _ hok
      rw [hc, Cursor.length_numbered, Cursor.length_numbered] at hlt
      exact (predictive_literalRest (ih _ (hlt.trans_le hn)) head).foresees j last' rest (Nat.le_refl _)

theorem predictive_argument : Predictive n M (some someName) argument :=
  Predictive.located (predictive_ident.andThen fun _ => (predictive_punct .colon).andThen fun _ =>
    .map predictive_literal)

theorem predictive_appliedDirective :
    Predictive n (marks [.parenLeft]) (some (.punct .atSign)) appliedDirective := by
  have harguments : Predictive n (marks [.parenLeft]) none (whenPunct .parenLeft
      (enclosed1 .parenLeft .parenRight argument consumes_argument) []) :=
    Predictive.whenPunct (predictive_argument.enclosed1 (Set.notMem_empty _) (by decide) _)
      (mem_marks (by decide))
  exact Predictive.located ((predictive_punct _).andThen fun _ => predictive_ident.andThen fun _ =>
    .map harguments)

theorem predictive_directives (h : marks [.atSign, .parenLeft] ⊆ M) :
    Predictive n M none directives := by
  have hitem := (predictive_appliedDirective (n := n)).mono
    ((marks_subset (by decide)).trans h)
  exact hitem.loop (joins_isPunct (h (mem_marks (by decide))))

theorem predictive_default (h : .punct .equals ∈ M) : Predictive n M none
    (whenPunct .equals (preceded .equals (do let v ← literal; return some v)) none) :=
  Predictive.whenPunct (Predictive.preceded (.map predictive_literal) _) h

theorem predictive_inputDef : Predictive n (marks [.bang, .equals, .atSign, .parenLeft])
    (some someName) inputDef := by
  have hdirectives : Predictive n (marks [.bang, .equals, .atSign, .parenLeft]) none directives :=
    predictive_directives (marks_subset (by decide))
  exact Predictive.located (predictive_description.skip (fun _ => predictive_ident.andThen fun _ =>
    (predictive_punct .colon).andThen fun _ =>
      (predictive_typeExpr.mono (marks_subset (by decide))).trail fun _ =>
        (predictive_default (mem_marks (by decide))).trail fun _ => .map hdirectives) nofun)

theorem predictive_argumentDefs (h : .punct .parenLeft ∈ M) : Predictive n M none argumentDefs :=
  Predictive.whenPunct (predictive_inputDef.enclosed1 (notMem_marks (by decide)) (by decide) _) h

theorem predictive_inputFields : Predictive n M (some (.punct .braceLeft)) inputFields :=
  predictive_inputDef.enclosed (notMem_marks (by decide)) (by decide) _

theorem predictive_fieldDef :
    Predictive n (marks [.bang, .atSign, .parenLeft]) (some someName) fieldDef := by
  have hdirectives : Predictive n (marks [.bang, .atSign, .parenLeft]) none directives :=
    predictive_directives (marks_subset (by decide))
  have harguments : Predictive n (marks [.parenLeft]) none argumentDefs :=
    predictive_argumentDefs (mem_marks (by decide))
  exact Predictive.located (predictive_description.skip (fun _ => predictive_ident.andThen fun _ =>
    harguments.skip (fun _ => (predictive_punct .colon).andThen fun _ =>
      (predictive_typeExpr.mono (marks_subset (by decide))).trail fun _ => .map hdirectives)
      (notMem_marks (by decide))) nofun)

theorem predictive_variantDef :
    Predictive n (marks [.atSign, .parenLeft, .braceLeft]) (some someName) variantDef := by
  have hdirectives : Predictive n (marks [.atSign, .parenLeft, .braceLeft]) none directives :=
    predictive_directives (marks_subset (by decide))
  exact Predictive.located (predictive_description.skip (fun _ => predictive_ident.andThen fun _ =>
    hdirectives.trail fun _ => .map (.whenPunct predictive_inputFields (mem_marks (by decide)))) nofun)

-- Behind what follows only the end of the text needs to be admitted.

theorem predictive_implementsList : Predictive n Set.univ none implementsList := by
  have hword : IsName "implements" := by decide
  refine Predictive.branch ((predictive_keyword hword).andThen fun _ =>
    predictive_ident.separated trivial (by decide)) (predictive_pure []) ?_
  exact joins_none (Set.subset_univ _)

theorem predictive_variants (name : Ident) : Predictive n Set.univ none (variants name) := by
  have hvariant := (predictive_variantDef (n := n)).mono (Set.subset_univ _)
  refine Predictive.branch (.map (.located (.map predictive_inputFields)))
    (.whenPunct (.preceded (hvariant.separated trivial (by decide)) _) trivial) ?_
  exact joins_none (Set.subset_univ _)

theorem predictive_fields : Predictive n Set.univ none
    (whenPunct .braceLeft (enclosed .braceLeft .braceRight fieldDef consumes_fieldDef) []) :=
  Predictive.whenPunct (predictive_fieldDef.enclosed (notMem_marks (by decide)) (by decide) _) trivial

theorem predictive_typeRest (name : Ident) (kind : Kind) :
    Predictive n Set.univ none (typeRest name kind) := by
  have hdirectives : Predictive n Set.univ none directives := predictive_directives (Set.subset_univ _)
  have hmembers : Predictive n Set.univ (some someName) (separated .pipe ident consumes_ident) :=
    predictive_ident.separated trivial (by decide)
  cases kind with
  | scalar => exact .map hdirectives
  | object => exact predictive_implementsList.trail fun _ => hdirectives.trail fun _ => .map predictive_fields
  | interface =>
      exact predictive_implementsList.trail fun _ => hdirectives.trail fun _ => .map predictive_fields
  | union =>
      exact hdirectives.trail fun _ => .map (.whenPunct (hmembers.preceded .equals) trivial)
  | data => exact hdirectives.trail fun _ => .map (predictive_variants name)

theorem predictive_typeDef (description : Option String) (kind : Kind) :
    Predictive n Set.univ (some someName) (typeDef description kind) :=
  predictive_ident.trail fun name => .map (predictive_typeRest name kind)

theorem predictive_operationDef : Predictive n M (some (.name "query")) operationDef := by
  have hquery : IsName "query" := by decide
  have hoperation : Predictive n ∅ (some (.name "query")) (accept .operation operationName?) :=
    predictive_accept rfl hquery
  exact Predictive.located (hoperation.andThen fun _ => (predictive_punct .colon).andThen fun _ =>
    .map predictive_ident)

theorem predictive_schemaDef (description : Option String) :
    Predictive n Set.univ none (schemaDef description) :=
  (predictive_directives (Set.subset_univ _)).trail fun _ => .map
    (.whenPunct (predictive_operationDef.enclosed1 (Set.notMem_empty _) (by decide) _) trivial)

def locationName? : TokenKind → Option DirectiveLocation
  | .name text => DirectiveLocation.ofText? text
  | _ => none

def locationFault : Option TokenKind → SyntaxFault
  | some (.name text) => .unknownLocation text
  | found => .unexpected .name found

section Location

variable {i : Nat} {last : Span} {ks : List TokenKind}

theorem ident_numbered_name (text : String) : ident (.numbered i last (.name text :: ks)) =
    .ok (⟨text, (Span.ordinal i).through (.ordinal i)⟩, .numbered (i + 1) (.ordinal i) ks) := by
  rw [Cursor.numbered_cons]
  rfl

theorem ident_numbered_error (h : ∀ text, ks.head? ≠ some (.name text)) :
    ident (.numbered i last ks) = .error ⟨.unexpected .name ks.head?, i, i⟩ := by
  cases ks with
  | nil => rfl
  | cons k ks =>
      rw [Cursor.numbered_cons]
      cases k with
      | name text => exact absurd rfl (h text)
      | _ => rfl

theorem directiveLocation_numbered_error (h : ks.head?.bind locationName? = none) :
    directiveLocation (.numbered i last ks) = .error ⟨locationFault ks.head?, i, i⟩ := by
  unfold directiveLocation
  by_cases hname : ∃ text, ks.head? = some (.name text)
  · obtain ⟨text, hhead⟩ := hname
    obtain ⟨ks, rfl⟩ := List.head?_eq_some_iff.mp hhead
    have htext : DirectiveLocation.ofText? text = none := h
    rw [ident_numbered_name]
    dsimp only
    rw [htext]
    rfl
  · rw [not_exists] at hname
    have hfault : locationFault ks.head? = .unexpected .name ks.head? := by
      unfold locationFault
      split
      · rename_i text hhead
        exact absurd hhead (hname text)
      · rfl
    rw [ident_numbered_error hname, hfault]

theorem predictive_directiveLocation :
    Predictive n M (some (.name "OBJECT")) directiveLocation := by
  have hobject : IsName "OBJECT" := by decide
  refine predictive_of_head (g := locationName?) ?_ directiveLocation_numbered_error rfl hobject
  intro i last k ks a hk
  cases k with
  | name text =>
      have htext : DirectiveLocation.ofText? text = some a := hk
      unfold directiveLocation
      rw [ident_numbered_name]
      dsimp only
      rw [htext]
  | _ => exact nomatch hk

end Location

theorem predictive_repeatable : Predictive n {.name "repeatable"} none
    (branch (isKeyword "repeatable") (do keyword "repeatable"; return true) (pure false)) := by
  have hword : IsName "repeatable" := by decide
  refine Predictive.branch (.map (predictive_keyword hword)) (predictive_pure false) ?_
  exact fun k hk => eq_name_of_isKeyword hk

theorem predictive_directiveDef (description : Option String) :
    Predictive n Set.univ (some (.punct .atSign)) (directiveDef description) := by
  have hon : IsName "on" := by decide
  have harguments : Predictive n (marks [.parenLeft]) none argumentDefs :=
    predictive_argumentDefs (mem_marks (by decide))
  refine (predictive_punct _).andThen fun _ => predictive_ident.andThen fun _ =>
    harguments.skip (fun _ => predictive_repeatable.skip (fun _ => (predictive_keyword hon).andThen
      fun _ => .map (predictive_directiveLocation.separated trivial (by decide))) ?_)
      name_notMem_marks
  exact fun h => absurd (TokenKind.name.inj h) (by decide)

def Head.first : Head → Option TokenKind
  | .schema => none
  | .type _ => some someName
  | .directive => some (.punct .atSign)

theorem predictive_plainRest (description : Option String) (head : Head) :
    Predictive n Set.univ head.first (plainRest description head) := by
  cases head with
  | schema => exact .map (predictive_schemaDef description)
  | type kind => exact .map (predictive_typeDef description kind)
  | directive => exact .map (predictive_directiveDef description)

def Head.firstExtended : Head → Option TokenKind
  | .type _ => some someName
  | _ => none

theorem predictive_extensionRest (head : Head) :
    Predictive n Set.univ head.firstExtended (extensionRest head) := by
  cases head with
  | type kind => exact .map (predictive_typeDef none kind)
  | schema => exact .map (predictive_schemaDef none)
  | directive => exact .map (predictive_schemaDef none)

theorem predictive_extension : Predictive n Set.univ (some (.name "extend")) extension := by
  have hextend : IsName "extend" := by decide
  have hschema : IsName "schema" := by decide
  have hhead : Predictive n ∅ (some (.name "schema")) (accept .extendable extendable?) :=
    predictive_accept rfl hschema
  exact Predictive.located ((predictive_keyword hextend).andThen fun _ => hhead.andThen fun head =>
    predictive_extensionRest head)

theorem predictive_plainDefinition :
    Predictive n Set.univ (some (.name "schema")) plainDefinition := by
  have hschema : IsName "schema" := by decide
  have hhead : Predictive n ∅ (some (.name "schema")) (accept .definition head?) :=
    predictive_accept rfl hschema
  exact Predictive.located (predictive_description.skip (fun description =>
    hhead.andThen fun head => predictive_plainRest description head) nofun)

theorem predictive_definition : Predictive n Set.univ (some (.name "schema")) definition := by
  have hother : isKeyword "extend" (.name "schema") ≠ true := by decide
  exact Predictive.branch predictive_extension predictive_plainDefinition hother

theorem document_eq :
    document = loop (ahead fun _ => true) definition consumes_definition := by
  have htest : (fun c : Cursor => !c.rest.isEmpty) = ahead fun _ => true := by
    funext c
    obtain ⟨rest, last, finish⟩ := c
    cases rest <;> rfl
  rw [document, htest]

theorem predictive_document : Predictive n Set.univ none document := by
  rw [document_eq]
  exact predictive_definition.loop (joins_none (Set.subset_univ _))

end Parser

end SchemaGraph
