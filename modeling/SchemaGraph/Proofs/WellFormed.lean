import SchemaGraph.Proofs.Lexeme
import SchemaGraph.Proofs.Layout
import SchemaGraph.Sdl.Grammar

namespace SchemaGraph

open Text (Span)

def IsName (text : String) : Prop :=
  ∃ c cs, text.toList = c :: cs ∧ isNameStart c = true ∧ ∀ x ∈ cs, isNameChar x = true

instance (text : String) : Decidable (IsName text) :=
  match h : text.toList with
  | [] => isFalse fun ⟨_, _, hc, _⟩ => nomatch h.symm.trans hc
  | c :: cs => decidable_of_iff (isNameStart c = true ∧ cs.all isNameChar = true) ⟨
      fun ⟨hc, hcs⟩ => ⟨c, cs, h, hc, List.all_eq_true.mp hcs⟩, fun ⟨_, _, hd, hc, hcs⟩ => by
        obtain ⟨rfl, rfl⟩ := List.cons.inj (h.symm.trans hd)
        exact ⟨hc, List.all_eq_true.mpr hcs⟩⟩

def IsInt64 (n : Int) : Prop := -Int.pow 2 63 ≤ n ∧ n < Int.pow 2 63

inductive Literal.WellFormed : Literal → Prop
  | null : WellFormed .null
  | int {n : Int} (range : IsInt64 n) : WellFormed (.int n)
  | float (x : Decimal.Binary64) : WellFormed (.float x)
  | string (s : String) : WellFormed (.string s)
  | bool (b : Bool) : WellFormed (.bool b)
  | enum {tag : String} (name : IsName tag) (free : tag ∉ ["true", "false", "null"]) :
      WellFormed (.enum tag)
  | list {items : List Literal} (items_ok : ∀ v ∈ items, WellFormed v) : WellFormed (.list items)
  | object {entries : List (Ident × Literal)} (names : ∀ e ∈ entries, IsName e.1.text)
      (values : ∀ e ∈ entries, WellFormed e.2) : WellFormed (.object entries)

structure TypeExpr.WellFormed (t : TypeExpr Ident) : Prop where
  leaf : IsName t.leaf.text
  simple : t.IsSimple

structure Argument.WellFormed (a : Argument) : Prop where
  name : IsName a.name.text
  value : a.value.WellFormed

structure Applied.WellFormed (a : Applied) : Prop where
  name : IsName a.name.text
  arguments : ∀ b ∈ a.arguments, b.WellFormed

structure InputDef.WellFormed (d : InputDef) : Prop where
  name : IsName d.name.text
  type : d.type.WellFormed
  default : ∀ v ∈ d.default, v.WellFormed
  directives : ∀ a ∈ d.directives, a.WellFormed

structure FieldDef.WellFormed (d : FieldDef) : Prop where
  name : IsName d.name.text
  arguments : ∀ a ∈ d.arguments, a.WellFormed
  type : d.type.WellFormed
  directives : ∀ a ∈ d.directives, a.WellFormed

structure VariantDef.WellFormed (d : VariantDef) : Prop where
  name : IsName d.name.text
  directives : ∀ a ∈ d.directives, a.WellFormed
  fields : ∀ f ∈ d.fields, f.WellFormed

def TypeBody.WellFormed : TypeBody → Prop
  | .scalar => True
  | .object interfaces fields => (∀ i ∈ interfaces, IsName i.text) ∧ ∀ f ∈ fields, f.WellFormed
  | .interface interfaces fields => (∀ i ∈ interfaces, IsName i.text) ∧ ∀ f ∈ fields, f.WellFormed
  | .union members => ∀ m ∈ members, IsName m.text
  | .data variants => ∀ v ∈ variants, v.WellFormed

structure TypeDef.WellFormed (d : TypeDef) : Prop where
  name : IsName d.name.text
  directives : ∀ a ∈ d.directives, a.WellFormed
  body : d.body.WellFormed

structure DirectiveDef.WellFormed (d : DirectiveDef) : Prop where
  name : IsName d.name.text
  arguments : ∀ a ∈ d.arguments, a.WellFormed
  locations : d.locations ≠ []

structure SchemaDef.WellFormed (d : SchemaDef) : Prop where
  directives : ∀ a ∈ d.directives, a.WellFormed
  operations : ∀ o ∈ d.operations, IsName o.type.text

def Definition.WellFormed : Definition → Prop
  | .schema d => d.WellFormed
  | .schemaExtension d => d.description = none ∧ d.WellFormed
  | .type d => d.WellFormed
  | .typeExtension d => d.description = none ∧ d.WellFormed
  | .directive d => d.WellFormed

def Document.WellFormed (d : Document) : Prop := ∀ x ∈ d.definitions, x.WellFormed

def TokenKind.WellFormed : TokenKind → Prop
  | .name text => IsName text
  | .int n => IsInt64 n
  | _ => True

theorem Token.wellFormed_of_ofNumeral {n : Numeral} {k : TokenKind} (h : ofNumeral n = .ok k) :
    k.WellFormed := by
  rcases ofNumeral_eq_ok_iff.mp h with ⟨-, rfl⟩ | ⟨-, hmin, hmax, rfl⟩
  · trivial
  · exact ⟨hmin, hmax⟩

theorem Token.wellFormed_of_scan {c : Char} {cs : List Char} {l : Lexeme TokenKind}
    (h : scan c cs = .ok l) : l.value.WellFormed := by
  unfold scan at h
  split at h
  · exact Except.ok.inj h ▸ trivial
  split at h
  · unfold scanString at h
    split at h
    · obtain ⟨_, -, rfl⟩ := exists_of_map_eq_ok h
      trivial
    · obtain ⟨_, -, rfl⟩ := exists_of_map_eq_ok h
      trivial
    · exact nomatch h
  split at h
  · obtain ⟨n, -, hk, -⟩ := scanNumber_eq_ok_iff.mp h
    exact wellFormed_of_ofNumeral hk
  split at h
  · rename_i hc
    refine Except.ok.inj h ▸ ⟨c, cs.takeWhile isNameChar, String.toList_ofList .., hc, ?_⟩
    exact List.all_eq_true.mp List.all_takeWhile
  · exact nomatch h

theorem Laid.wellFormed {rest : List Char} {ps : List Piece} (h : Laid rest ps) :
    ∀ p ∈ ps, p.kind.WellFormed := by
  induction h with
  | nil => exact nofun
  | cons _ htext _ _ ih =>
      obtain ⟨_, _, -, hscan⟩ := htext
      exact List.forall_mem_cons.mpr ⟨Token.wellFormed_of_scan hscan, ih⟩

theorem tokenize_wellFormed {source : String} {ts : Tokens} (h : tokenize source = .ok ts) :
    ∀ t ∈ ts.items, t.kind.WellFormed := by
  obtain ⟨ps, rest, -, hlaid, -, rfl⟩ := tokenizeFrom_eq_ok_iff.mp h
  intro t ht
  have hkind := List.mem_map_of_mem (f := Token.kind) ht
  rw [Piece.kinds_tokens] at hkind
  obtain ⟨p, hp, he⟩ := List.mem_map.mp hkind
  exact he ▸ hlaid.wellFormed p hp

namespace Parser

variable {α β : Type} {P : α → Prop} {Q : β → Prop} {p : Parser α} {q : Parser β}

def Yields (P : α → Prop) (p : Parser α) : Prop :=
  ∀ ⦃c a c'⦄, (∀ t ∈ c.rest, t.kind.WellFormed) → p c = .ok (a, c') →
    P a ∧ ∀ t ∈ c'.rest, t.kind.WellFormed

theorem Yields.mono {P' : α → Prop} (h : Yields P p) (hP : ∀ a, P a → P' a) : Yields P' p :=
  fun _ _ _ hc hp => (h hc hp).imp_left (hP _)

theorem yields_pure {a : α} (ha : P a) : Yields P (Pure.pure a) := by
  intro c b c' hc h
  obtain ⟨rfl, rfl⟩ : a = b ∧ c = c' := by simpa [Pure.pure, Parser.pure] using h
  exact ⟨ha, hc⟩

theorem Yields.bind {f : α → Parser β} (hp : Yields P p) (hf : ∀ a, P a → Yields Q (f a)) :
    Yields Q (p >>= f) := by
  intro c b c' hc h
  obtain ⟨a, d, h1, h2⟩ := bind_eq_ok h
  obtain ⟨ha, hd⟩ := hp hc h1
  exact hf a ha hd h2

theorem yields_accept {f : TokenKind → Option α} (wanted : Expectation)
    (hf : ∀ k a, k.WellFormed → f k = some a → P a) : Yields P (accept wanted f) := by
  intro c a c' hc h
  obtain ⟨t, ts, hr, hk, rfl⟩ := accept_eq_ok h
  rw [hr] at hc
  exact ⟨hf _ _ (hc t (List.mem_cons_self ..)) hk, fun u hu => hc u (List.mem_cons_of_mem _ hu)⟩

theorem Yields.branch {test : TokenKind → Bool} {p' : Parser α} (hp : Yields P p)
    (hp' : Yields P p') : Yields P (branch test p p') := by
  intro c a c' hc h
  unfold Parser.branch at h
  split at h
  · exact hp hc h
  · exact hp' hc h

theorem Yields.located {p : Parser (Span → α)} (hp : Yields (fun f => ∀ s, P (f s)) p) :
    Yields P (located p) := by
  intro c a c' hc h
  obtain ⟨f, hf, rfl⟩ := located_eq_ok h
  exact (hp hc hf).imp_left fun h => h _

theorem Yields.loop {test : Cursor → Bool} {hi : Consumes p} (hp : Yields P p) :
    Yields (fun as => ∀ a ∈ as, P a) (loop test p hi) := by
  intro c
  induction hn : c.rest.length using Nat.strongRecOn generalizing c with
  | _ n ih =>
      intro as c'' hc h
      rw [loop_step] at h
      split at h
      · split at h
        · cases h
        · rename_i a c' hpc
          obtain ⟨ha, hc'⟩ := hp hc hpc
          split at h
          · cases h
          · rename_i as' d hl
            obtain ⟨rfl, rfl⟩ : a :: as' = as ∧ d = c'' := by simpa using h
            obtain ⟨has, hd⟩ := ih _ (hn ▸ hi c a c' hpc) rfl hc' hl
            exact ⟨List.forall_mem_cons.mpr ⟨ha, has⟩, hd⟩
      · obtain ⟨rfl, rfl⟩ : [] = as ∧ c = c'' := by simpa using h
        exact ⟨nofun, hc⟩

theorem yields_punct (m : Punct) : Yields (fun _ => True) (punct m) :=
  yields_accept _ fun _ _ _ _ => trivial

theorem yields_keyword (text : String) : Yields (fun _ => True) (keyword text) :=
  yields_accept _ fun _ _ _ _ => trivial

theorem Yields.whenPunct {mark : Punct} {a : α} (hp : Yields P p) (ha : P a) :
    Yields P (whenPunct mark p a) :=
  hp.branch (yields_pure ha)

theorem Yields.items {mark : Punct} {p : Parser (List α)} (hp : Yields (fun as => ∀ a ∈ as, P a) p) :
    Yields (fun as => ∀ a ∈ as, P a) (Parser.whenPunct mark p []) :=
  hp.whenPunct nofun

variable {hi : Consumes p}

theorem Yields.enclosed (hp : Yields P p) (left right : Punct) :
    Yields (fun as => ∀ a ∈ as, P a) (enclosed left right p hi) :=
  (yields_punct left).bind fun _ _ => hp.loop.bind fun _ has => (yields_punct right).bind fun _ _ =>
    yields_pure has

theorem Yields.enclosed1 (hp : Yields P p) (left right : Punct) :
    Yields (fun as => ∀ a ∈ as, P a) (enclosed1 left right p hi) :=
  (yields_punct left).bind fun _ _ => hp.bind fun _ ha => hp.loop.bind fun _ has =>
    (yields_punct right).bind fun _ _ => yields_pure (List.forall_mem_cons.mpr ⟨ha, has⟩)

theorem Yields.preceded (hp : Yields P p) (mark : Punct) : Yields P (preceded mark p) :=
  (yields_punct mark).bind fun _ _ => hp

theorem Yields.separated (hp : Yields P p) (mark : Punct) :
    Yields (fun as => as ≠ [] ∧ ∀ a ∈ as, P a) (separated mark p hi) :=
  (Yields.whenPunct (yields_punct mark) trivial).bind fun _ _ => hp.bind fun _ ha =>
    (hp.preceded mark).loop.bind fun _ has =>
      yields_pure ⟨List.cons_ne_nil _ _, List.forall_mem_cons.mpr ⟨ha, has⟩⟩

theorem yields_ident : Yields (fun i => IsName i.text) ident :=
  Yields.located ((yields_accept (P := IsName) _ fun k a hk h => by
    cases k with
    | name text => exact Option.some.inj h ▸ hk
    | _ => exact nomatch h).bind fun _ ha => yields_pure fun _ => ha)

theorem yields_description : Yields (fun _ => True) description :=
  (yields_accept _ fun _ _ _ _ => trivial).branch (yields_pure trivial)

theorem yields_bang {t : TypeExpr Ident} (ht : t.WellFormed) (hn : t.isNonNull = false) :
    Yields TypeExpr.WellFormed (bang t) :=
  Yields.whenPunct ((yields_punct _).bind fun _ _ => yields_pure ⟨ht.leaf, hn, ht.simple⟩) ht

theorem yields_closeLists {n : Nat} {t : TypeExpr Ident} (ht : t.WellFormed) :
    Yields TypeExpr.WellFormed (closeLists n t) := by
  induction n generalizing t with
  | zero => exact yields_pure ht
  | succ n ih =>
      exact (yields_punct _).bind fun _ _ =>
        (yields_bang (t := .list t) ⟨ht.leaf, ht.simple⟩ rfl).bind fun _ h => ih h

theorem yields_typeExpr : Yields TypeExpr.WellFormed typeExpr :=
  (yields_punct _).loop.bind fun _ _ => yields_ident.bind fun name hname =>
    (yields_bang (t := .named name) ⟨hname, trivial⟩ rfl).bind fun _ h => yields_closeLists h

theorem wellFormed_ofName {text : String} (h : IsName text) : (Literal.ofName text).WellFormed := by
  unfold Literal.ofName
  split
  · exact .bool true
  split
  · exact .bool false
  split
  · exact .null
  · exact .enum h (by simp [*])

theorem wellFormed_of_literalHead {k : TokenKind} {v : Literal} (hk : k.WellFormed)
    (h : literalHead? k = some (.whole v)) : v.WellFormed := by
  have hwhole {w : Literal} (hw : literalHead? k = some (.whole w)) : w = v :=
    LiteralHead.whole.inj (Option.some.inj (hw.symm.trans h))
  cases k with
  | name text => exact hwhole rfl ▸ wellFormed_ofName hk
  | int n => exact hwhole rfl ▸ .int hk
  | float x => exact hwhole rfl ▸ .float x
  | string s => exact hwhole rfl ▸ .string s
  | blockString s => exact hwhole rfl ▸ .string s
  | punct p => cases p <;> exact nomatch h

theorem yields_literalWithin (n : Nat) : Yields Literal.WellFormed (literalWithin n).1 := by
  induction n with
  | zero => exact fun _ _ _ _ h => nomatch h
  | succ n ih =>
      refine Yields.bind (P := fun head => ∀ v, head = .whole v → v.WellFormed)
        (yields_accept _ fun k a hk h v hv => wellFormed_of_literalHead hk (hv ▸ h)) fun head hhead => ?_
      cases head with
      | whole v => exact yields_pure (hhead v rfl)
      | list =>
          exact ih.loop.bind fun items h => (yields_punct _).bind fun _ _ => yields_pure (.list h)
      | object =>
          have hentry : Yields (fun e => IsName e.1.text ∧ e.2.WellFormed)
              (entry (literalWithin n).1) :=
            yields_ident.bind fun _ hname => (yields_punct _).bind fun _ _ => ih.bind fun _ hv =>
              yields_pure ⟨hname, hv⟩
          exact hentry.loop.bind fun entries h => (yields_punct _).bind fun _ _ =>
            yields_pure (.object (fun e he => (h e he).1) fun e he => (h e he).2)

theorem yields_literal : Yields Literal.WellFormed literal :=
  fun c _ _ hc h => yields_literalWithin c.rest.length hc h

theorem yields_argument : Yields Argument.WellFormed argument :=
  Yields.located (yields_ident.bind fun _ hname => (yields_punct _).bind fun _ _ =>
    yields_literal.bind fun _ hv => yields_pure fun _ => ⟨hname, hv⟩)

theorem yields_directives : Yields (fun as => ∀ a ∈ as, Applied.WellFormed a) directives :=
  Yields.loop (Yields.located ((yields_punct _).bind fun _ _ => yields_ident.bind fun _ hname =>
    (yields_argument.enclosed1 _ _).items.bind fun _ has =>
      yields_pure fun _ => ⟨hname, has⟩))

theorem yields_default : Yields (fun o => ∀ v ∈ o, Literal.WellFormed v)
    (whenPunct .equals (preceded .equals (do let v ← literal; return some v)) none) := by
  refine Yields.whenPunct (Yields.preceded (yields_literal.bind fun v hv => yields_pure ?_) _) nofun
  exact fun _ h => Option.some.inj h ▸ hv

theorem yields_inputDef : Yields InputDef.WellFormed inputDef :=
  Yields.located (yields_description.bind fun _ _ => yields_ident.bind fun _ hname =>
    (yields_punct _).bind fun _ _ => yields_typeExpr.bind fun _ htype =>
      yields_default.bind fun _ hdefault => yields_directives.bind fun _ hds =>
        yields_pure fun _ => ⟨hname, htype, hdefault, hds⟩)

theorem yields_argumentDefs : Yields (fun as => ∀ a ∈ as, InputDef.WellFormed a) argumentDefs :=
  (yields_inputDef.enclosed1 _ _).items

theorem yields_fieldDef : Yields FieldDef.WellFormed fieldDef :=
  Yields.located (yields_description.bind fun _ _ => yields_ident.bind fun _ hname =>
    yields_argumentDefs.bind fun _ hargs => (yields_punct _).bind fun _ _ =>
      yields_typeExpr.bind fun _ htype => yields_directives.bind fun _ hds =>
        yields_pure fun _ => ⟨hname, hargs, htype, hds⟩)

theorem yields_inputFields : Yields (fun as => ∀ a ∈ as, InputDef.WellFormed a) inputFields :=
  yields_inputDef.enclosed _ _

theorem yields_variantDef : Yields VariantDef.WellFormed variantDef :=
  Yields.located (yields_description.bind fun _ _ => yields_ident.bind fun _ hname =>
    yields_directives.bind fun _ hds => yields_inputFields.items.bind
      fun _ hfs => yields_pure fun _ => ⟨hname, hds, hfs⟩)

theorem yields_implementsList : Yields (fun is => ∀ i ∈ is, IsName (Ident.text i)) implementsList :=
  ((yields_keyword _).bind fun _ _ => (yields_ident.separated _).mono fun _ h => h.2).branch
    (yields_pure nofun)

theorem yields_variants {name : Ident} (hname : IsName name.text) :
    Yields (fun vs => ∀ v ∈ vs, VariantDef.WellFormed v) (variants name) := by
  have hrecord : Yields VariantDef.WellFormed (recordVariant name) :=
    Yields.located (yields_inputFields.bind fun _ hfs => yields_pure fun _ => ⟨hname, nofun, hfs⟩)
  refine Yields.branch (hrecord.bind fun v hv => yields_pure ?_)
    (((yields_variantDef.separated _).mono fun _ h => h.2).preceded _).items
  exact List.forall_mem_singleton.mpr hv

theorem yields_typeRest {name : Ident} (hname : IsName name.text) (kind : Kind) :
    Yields (fun x => (∀ a ∈ x.1, a.WellFormed) ∧ x.2.WellFormed) (typeRest name kind) := by
  have hfields : Yields (fun fs => ∀ f ∈ fs, FieldDef.WellFormed f) (whenPunct .braceLeft
      (enclosed .braceLeft .braceRight fieldDef consumes_fieldDef) []) :=
    (yields_fieldDef.enclosed _ _).items
  cases kind with
  | scalar => exact yields_directives.bind fun _ hds => yields_pure ⟨hds, trivial⟩
  | object =>
      exact yields_implementsList.bind fun _ his => yields_directives.bind fun _ hds =>
        hfields.bind fun _ hfs => yields_pure ⟨hds, his, hfs⟩
  | interface =>
      exact yields_implementsList.bind fun _ his => yields_directives.bind fun _ hds =>
        hfields.bind fun _ hfs => yields_pure ⟨hds, his, hfs⟩
  | union =>
      exact yields_directives.bind fun _ hds => (((yields_ident.separated _).mono
        fun _ h => h.2).preceded _).items.bind fun _ hms => yields_pure ⟨hds, hms⟩
  | data =>
      exact yields_directives.bind fun _ hds => (yields_variants hname).bind fun _ hvs =>
        yields_pure ⟨hds, hvs⟩

theorem yields_typeDef (description : Option String) (kind : Kind) :
    Yields (fun f => ∀ s, (f s).WellFormed ∧ (f s).description = description)
      (typeDef description kind) :=
  yields_ident.bind fun _ hname => (yields_typeRest hname kind).bind fun _ h =>
    yields_pure fun _ => ⟨⟨hname, h.1, h.2⟩, rfl⟩

theorem yields_schemaDef (description : Option String) :
    Yields (fun f => ∀ s, (f s).WellFormed ∧ (f s).description = description)
      (schemaDef description) := by
  have hoperation : Yields (fun o => IsName o.type.text) operationDef :=
    Yields.located ((yields_accept (P := fun _ => True) _ fun _ _ _ _ => trivial).bind fun _ _ =>
      (yields_punct _).bind fun _ _ => yields_ident.bind fun _ h => yields_pure fun _ => h)
  exact yields_directives.bind fun _ hds =>
    (hoperation.enclosed1 _ _).items.bind fun _ hos =>
      yields_pure fun _ => ⟨⟨hds, hos⟩, rfl⟩

theorem yields_directiveLocation : Yields (fun _ => True) directiveLocation := by
  intro c a c' hc h
  unfold directiveLocation at h
  split at h
  · exact nomatch h
  · rename_i name d hi
    split at h
    · obtain ⟨-, rfl⟩ : _ = a ∧ d = c' := by simpa using h
      exact ⟨trivial, (yields_ident hc hi).2⟩
    · exact nomatch h

theorem yields_directiveDef (description : Option String) :
    Yields (fun f => ∀ s, (f s).WellFormed) (directiveDef description) :=
  (yields_punct _).bind fun _ _ => yields_ident.bind fun _ hname =>
    yields_argumentDefs.bind fun _ hargs =>
      (Yields.branch (P := fun _ => True)
          ((yields_keyword _).bind fun _ _ => yields_pure trivial) (yields_pure trivial)).bind
        fun _ _ => (yields_keyword _).bind fun _ _ =>
          (yields_directiveLocation.separated _).bind fun _ h =>
            yields_pure fun _ => ⟨hname, hargs, h.1⟩

theorem yields_definition : Yields Definition.WellFormed definition := by
  refine Yields.branch (Yields.located ((yields_keyword _).bind fun _ _ =>
    (yields_accept (P := fun _ => True) _ fun _ _ _ _ => trivial).bind fun head _ => ?_))
    (Yields.located (yields_description.bind fun description _ =>
      (yields_accept (P := fun _ => True) _ fun _ _ _ _ => trivial).bind fun head _ => ?_))
  · cases head with
    | type kind =>
        exact (yields_typeDef _ _).bind fun _ h => yields_pure fun s => ⟨(h s).2, (h s).1⟩
    | schema =>
        exact (yields_schemaDef _).bind fun _ h => yields_pure fun s => ⟨(h s).2, (h s).1⟩
    | directive =>
        exact (yields_schemaDef _).bind fun _ h => yields_pure fun s => ⟨(h s).2, (h s).1⟩
  · cases head with
    | type kind => exact (yields_typeDef _ _).bind fun _ h => yields_pure fun s => (h s).1
    | schema => exact (yields_schemaDef _).bind fun _ h => yields_pure fun s => (h s).1
    | directive => exact (yields_directiveDef _).bind fun _ h => yields_pure h

theorem yields_document : Yields (fun xs => ∀ x ∈ xs, Definition.WellFormed x) document :=
  yields_definition.loop

end Parser

end SchemaGraph
