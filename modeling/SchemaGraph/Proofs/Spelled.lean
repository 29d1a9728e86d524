import SchemaGraph.Proofs.Segment
import SchemaGraph.Proofs.SyntaxTree

namespace SchemaGraph

open Text (Span Position)

namespace Definition

def span : Definition → Span
  | .schema d => d.span
  | .schemaExtension d => d.span
  | .type d => d.span
  | .typeExtension d => d.span
  | .directive d => d.span

end Definition

namespace SyntaxNode

def span : SyntaxNode → Span
  | .name n => n.span
  | .reference n => n.span
  | .argument a => a.span
  | .applied _ a => a.span
  | .input _ d => d.span
  | .field d => d.span
  | .variant d => d.span
  | .record d => d.span
  | .operation d => d.span
  | .definition d => d.span

/-- These tokens are the node's: its reader takes them all and gives the node. -/
def Spelled (ts : List Token) : SyntaxNode → Prop
  | .name n => Parser.ident.Gives ts n
  | .reference n => Parser.ident.Gives ts n
  | .argument a => Parser.argument.Gives ts a
  | .applied _ a => Parser.appliedDirective.Gives ts a
  | .input _ d => Parser.inputDef.Gives ts d
  | .field d => Parser.fieldDef.Gives ts d
  | .variant d => Parser.variantDef.Gives ts d
  | .record d => (Parser.recordVariant d.name).Gives ts d
  | .operation d => Parser.operationDef.Gives ts d
  | .definition d => Parser.definition.Gives ts d

end SyntaxNode

inductive Lies : List Token → List SyntaxNode → Prop
  | nil (ts : List Token) : Lies ts []
  | cons {n : SyntaxNode} {ns : List SyntaxNode} {seg post : List Token} (pre : List Token) :
      n.Spelled seg → Lies post ns → Lies (pre ++ (seg ++ post)) (n :: ns)

namespace Lies

variable {us vs ts : List Token} {ns ms : List SyntaxNode} {n : SyntaxNode}

theorem behind (us : List Token) (h : Lies vs ns) : Lies (us ++ vs) ns := by
  cases h with
  | nil => exact .nil _
  | cons pre hn hns =>
      rw [← List.append_assoc]
      exact .cons (us ++ pre) hn hns

theorem append (h : Lies us ns) (h' : Lies vs ms) : Lies (us ++ vs) (ns ++ ms) := by
  induction h with
  | nil us => exact h'.behind us
  | cons pre hn _ ih =>
      rw [List.append_assoc, List.append_assoc, List.cons_append]
      exact .cons pre hn ih

theorem single (h : n.Spelled ts) : Lies ts [n] := by
  simpa using Lies.cons [] h (.nil [])

theorem exists_of_mem (h : Lies ts ns) (hn : n ∈ ns) : ∃ seg, seg <:+: ts ∧ n.Spelled seg := by
  induction h with
  | nil => exact absurd hn List.not_mem_nil
  | @cons m ms seg post pre hm _ ih =>
      rcases List.mem_cons.mp hn with rfl | hn
      · exact ⟨seg, ⟨pre, post, List.append_assoc ..⟩, hm⟩
      · obtain ⟨seg', hseg, hspelled⟩ := ih hn
        have hpost : post <:+: pre ++ (seg ++ post) :=
          ⟨pre ++ seg, [], by rw [List.append_nil, List.append_assoc]⟩
        exact ⟨seg', hseg.trans hpost, hspelled⟩

theorem of_rows {α : Type} {R : List Token → α → Prop} {m : α → List SyntaxNode} {as : List α}
    (h : Parser.Rows R ts as) (hR : ∀ ts a, R ts a → Lies ts (m a)) : Lies ts (as.flatMap m) := by
  induction h with
  | nil => exact .nil []
  | cons ha _ ih => exact (hR _ _ ha).append ih

end Lies

structure SyntaxNode.Fits (ts : List Token) (n : SyntaxNode) : Prop where
  nonempty : ts ≠ []
  span : n.span = spanning ts
  children : Lies ts n.children

namespace Parser

variable {α β : Type} {p : Parser α} {f : α → Parser β} {c : Cursor} {m : α → List SyntaxNode}
  {before : List SyntaxNode} {K : β → List SyntaxNode → Prop}

def Finds (m : α → List SyntaxNode) (p : Parser α) (c : Cursor) : Prop :=
  TracksAt (fun ts a => Lies ts (m a)) p c

def Goes (before : List SyntaxNode) (K : β → List SyntaxNode → Prop) (p : Parser β)
    (c : Cursor) : Prop :=
  TracksAt (fun ts b => ∃ ns, K b (before ++ ns) ∧ Lies ts ns) p c

theorem Finds.goes (hp : Finds m p c)
    (hf : ∀ a d, p c = .ok (a, d) → d.rest <:+ c.rest → Goes (before ++ m a) K (f a) d) :
    Goes before K (p >>= f) c := by
  refine TracksAt.bind hp hf ?_
  rintro us vs a b hm ⟨ns, hK, hns⟩
  exact ⟨m a ++ ns, by rwa [← List.append_assoc], hm.append hns⟩

theorem Finds.then (hp : Finds m p c) (hf : ∀ a d, Goes (before ++ m a) K (f a) d) :
    Goes before K (p >>= f) c :=
  hp.goes fun a d _ _ => hf a d

theorem goes_pure {b : β} (h : K b before) : Goes before K (Pure.pure b) c :=
  tracksAt_pure ⟨[], by rwa [List.append_nil], .nil []⟩

theorem Goes.finds {m : β → List SyntaxNode} {q : Parser β} (h : Goes [] (fun b ns => m b = ns) q c) :
    Finds m q c :=
  h.mono fun ts b _ ⟨ns, hns, hlies⟩ => by rwa [hns]

theorem finds_accept {wanted : Expectation} {g : TokenKind → Option α} :
    Finds (fun _ => []) (accept wanted g) c :=
  tracksAt_accept fun t _ _ => .nil [t]

theorem finds_punct (mark : Punct) : Finds (fun _ => []) (punct mark) c := finds_accept

theorem finds_keyword (text : String) : Finds (fun _ => []) (keyword text) c := finds_accept

theorem finds_description : Finds (fun _ => []) description c :=
  .branch (fun _ => finds_accept) (consumes_accept _ _) fun _ => tracksAt_pure (.nil [])

theorem fits_located {node : α → SyntaxNode} {p : Parser (Span → α)} (hp : Consumes (located p))
    (h : ∀ span,
      Goes [] (fun g ns => (node (g span)).span = span ∧ (node (g span)).children = ns) p c) :
    TracksAt (fun ts a => (node a).Fits ts) (located p) c := by
  have hlocated := TracksAt.located
    (R := fun span ts a => (node a).span = span ∧ Lies ts (node a).children)
    (fun span => (h span).mono fun ts g _ ⟨ns, hK, hns⟩ => ⟨hK.1, hK.2 ▸ hns⟩) (consumes_of_located hp)
  exact hlocated.mono fun ts a _ ⟨hne, hspan, hlies⟩ => ⟨hne, hspan, hlies⟩

theorem finds_spelled {node : α → SyntaxNode} {R : List Token → α → Prop} (h : TracksAt R p c)
    (hn : ∀ ts a, p.Gives ts a → (node a).Spelled ts) : Finds (fun a => [node a]) p c :=
  h.gives.mono fun ts a _ ha => .single (hn ts a ha.1)

section Items

variable {item : Parser α} {hi : Consumes item} {node : α → SyntaxNode}

theorem finds_loop {test : TokenKind → Bool} (h : ∀ d, Finds m item d) :
    Finds (fun as => as.flatMap m) (loop (ahead test) item hi) c :=
  (TracksAt.loop fun d _ => h d).mono fun _ _ _ hrows => .of_rows hrows fun _ _ => id

theorem goes_closed {right : Punct} {g : List α → β} (h : ∀ d, d.rest <:+ c.rest → Finds m item d)
    (hK : ∀ as, K (g as) (before ++ as.flatMap m)) : Goes before K (closed right item hi g) c := by
  refine (TracksAt.closed h).mono ?_
  rintro ts b - ⟨us, t, as, rfl, rfl, hrows⟩
  have hitems : Lies us (as.flatMap m) := .of_rows hrows fun _ _ => id
  refine ⟨as.flatMap m, hK as, ?_⟩
  rw [← List.append_nil (as.flatMap m)]
  exact hitems.append (.nil [t])

theorem finds_enclosed {left right : Punct} (h : ∀ d, Finds (fun a => [node a]) item d) :
    Finds (fun as => as.map node) (enclosed left right item hi) c :=
  Goes.finds ((finds_punct left).then fun _ _ =>
    goes_closed (fun d _ => h d) fun _ => List.map_eq_flatMap)

theorem finds_enclosed1 {left right : Punct} (h : ∀ d, Finds (fun a => [node a]) item d) :
    Finds (fun as => as.map node) (enclosed1 left right item hi) c :=
  Goes.finds ((finds_punct left).then fun _ d => (h d).then fun _ _ =>
    goes_closed (fun d _ => h d) fun _ => List.map_eq_flatMap)

theorem finds_preceded {mark : Punct} {q : Parser β} {m : β → List SyntaxNode}
    (h : ∀ d, Finds m q d) : Finds m (preceded mark q) c :=
  TracksAt.bind (finds_punct mark) (fun _ d _ _ => h d) fun us _ _ _ _ hb => hb.behind us

theorem finds_whenPunct {mark : Punct} {q : Parser β} {m : β → List SyntaxNode} {b : β}
    (h : Finds m q c) (hq : Consumes q) (hb : m b = []) : Finds m (whenPunct mark q b) c :=
  TracksAt.whenPunct h hq (by rw [hb]; exact .nil [])

theorem finds_separated {mark : Punct} (h : ∀ d, Finds m item d) :
    Finds (fun as => as.flatMap m) (separated mark item hi) c := by
  have hskip : Finds (fun _ => []) (skipPunct mark) c :=
    finds_whenPunct (finds_punct mark) (consumes_punct mark) rfl
  refine Goes.finds (hskip.then fun _ d => (h d).then fun a d => ?_)
  exact (finds_loop fun d => finds_preceded h).then fun as d => goes_pure rfl

theorem Finds.map {q : Parser (List α)} (h : Finds (fun as => as.flatMap fun a => [node a]) q c) :
    Finds (fun as => as.map node) q c :=
  h.mono fun ts as _ h => by simpa only [List.map_eq_flatMap] using h

end Items

theorem fits_ident : TracksAt (fun ts n => (SyntaxNode.name n).Fits ts) ident c :=
  fits_located consumes_ident fun _ => finds_accept.then fun _ _ => goes_pure ⟨rfl, rfl⟩

theorem finds_name : Finds (fun n => [.name n]) ident c := finds_spelled fits_ident fun _ _ h => h

theorem finds_reference : Finds (fun n => [.reference n]) ident c :=
  finds_spelled fits_ident fun _ _ h => h

theorem leaf_bang (t : TypeExpr Ident) : TracksAt (fun _ t' => t'.leaf = t.leaf) (bang t) c := by
  refine .whenPunct ?_ ((consumes_punct .bang).bind fun _ => keeps_pure _) rfl
  exact TracksAt.bind (finds_punct .bang) (fun _ _ _ _ => tracksAt_pure rfl) fun _ _ _ _ _ => id

theorem leaf_closeLists (n : Nat) (t : TypeExpr Ident) :
    TracksAt (fun _ t' => t'.leaf = t.leaf) (closeLists n t) c := by
  induction n generalizing t c with
  | zero => exact tracksAt_pure rfl
  | succ n ih =>
      refine TracksAt.bind (finds_punct .bracketRight) (fun _ _ _ _ => ?_) fun _ _ _ _ _ => id
      exact (leaf_bang (.list t)).bind (fun t' _ _ _ => ih t') fun _ _ _ _ ht h => h.trans ht

theorem finds_typeExpr : Finds (fun t => [.reference t.leaf]) typeExpr c := by
  have hopen (c : Cursor) : Finds (fun us => us.flatMap fun _ => [])
      (loop (ahead (isPunct .bracketLeft)) (punct .bracketLeft) (consumes_punct _)) c :=
    finds_loop fun _ => finds_punct .bracketLeft
  refine Goes.finds ((hopen c).then fun opened _ => finds_reference.then fun name _ => ?_)
  refine TracksAt.bind (leaf_bang (.named name)) (fun t d _ _ => leaf_closeLists opened.length t) ?_
  intro us vs t t' ht ht'
  refine ⟨[], ?_, .nil _⟩
  simp [ht'.trans ht, TypeExpr.leaf]

theorem names_ofName (text : String) : (Literal.ofName text).names = [] := by
  unfold Literal.ofName
  repeat' split
  all_goals rw [Literal.names]
  all_goals simp

theorem namesOfItems_eq (vs : List Literal) : Literal.namesOfItems vs = vs.flatMap Literal.names := by
  induction vs with
  | nil => rw [Literal.namesOfItems, List.flatMap_nil]
  | cons v vs ih => rw [Literal.namesOfItems, ih, List.flatMap_cons]

theorem namesOfEntries_eq (es : List (Ident × Literal)) :
    Literal.namesOfEntries es = es.flatMap fun e => e.1 :: e.2.names := by
  induction es with
  | nil => rw [Literal.namesOfEntries, List.flatMap_nil]
  | cons e es ih => rw [Literal.namesOfEntries, ih, List.flatMap_cons, List.cons_append]

def LiteralHead.names : LiteralHead → List Ident
  | .whole v => v.names
  | _ => []

theorem names_literalHead {k : TokenKind} {head : LiteralHead} (h : literalHead? k = some head) :
    head.names = [] := by
  cases k with
  | name text =>
      obtain rfl := Option.some.inj h
      exact names_ofName text
  | punct mark => cases mark <;> simp [literalHead?] at h <;> subst h <;> rfl
  | _ =>
      obtain rfl := Option.some.inj h
      simp [LiteralHead.names, Literal.names]

theorem finds_literal : Finds (fun v => v.names.map .name) literal c := by
  induction hn : c.rest.length using Nat.strongRecOn generalizing c with
  | _ n ih =>
      rw [literal_eq]
      have hhead : TracksAt (fun ts head => Lies ts [] ∧ LiteralHead.names head = [])
          (accept .value literalHead?) c :=
        tracksAt_accept fun t head hh => ⟨.nil [t], names_literalHead hh⟩
      refine hhead.bind (S := fun head ts v => head.names = [] → Lies ts (v.names.map .name))
        (fun head d hd hsuffix => ?_) fun us vs head v hu hv => (hv hu.2).behind us
      have hlt := consumes_accept _ _ _ _ _ hd
      have hitem (e : Cursor) (he : e.rest <:+ d.rest) : Finds (fun v => v.names.map .name) literal e :=
        ih _ (hn ▸ Nat.lt_of_le_of_lt he.length_le hlt) rfl
      cases head with
      | whole v => exact tracksAt_pure fun hv => by rw [show v.names = [] from hv]; exact .nil []
      | list =>
          refine TracksAt.mono (Goes.finds (m := fun v => v.names.map .name)
            (goes_closed (g := Literal.list) hitem fun vs => ?_)) fun _ _ _ h _ => h
          rw [Literal.names, namesOfItems_eq, List.map_flatMap, List.nil_append]
      | object =>
          have hentry (e : Cursor) (he : e.rest <:+ d.rest) :
              Finds (fun e => .name e.1 :: e.2.names.map .name) (entry literal) e := by
            refine Goes.finds (finds_name.goes fun name e' _ he' => ?_)
            refine (finds_punct .colon).goes fun _ e'' _ he'' => ?_
            refine (hitem e'' (he''.trans (he'.trans he))).then fun v _ => goes_pure rfl
          refine TracksAt.mono (Goes.finds (m := fun v => v.names.map .name)
            (goes_closed (g := Literal.object) hentry fun es => ?_)) fun _ _ _ h _ => h
          rw [Literal.names, namesOfEntries_eq, List.map_flatMap, List.nil_append]
          rfl

theorem fits_argument : TracksAt (fun ts a => (SyntaxNode.argument a).Fits ts) argument c :=
  fits_located consumes_argument fun _ =>
    finds_name.then fun _ _ => (finds_punct .colon).then fun _ _ => finds_literal.then fun _ _ =>
    goes_pure ⟨rfl, rfl⟩

theorem finds_argument : Finds (fun a => [.argument a]) argument c :=
  finds_spelled fits_argument fun _ _ h => h

theorem fits_appliedDirective (l : DirectiveLocation) :
    TracksAt (fun ts a => (SyntaxNode.applied l a).Fits ts) appliedDirective c :=
  fits_located consumes_appliedDirective fun _ =>
    (finds_punct .atSign).then fun _ _ => finds_name.then fun _ _ =>
    (finds_whenPunct (finds_enclosed1 fun _ => finds_argument) (consumes_enclosed1 _) rfl).then
      fun _ _ => goes_pure ⟨rfl, rfl⟩

theorem finds_directives (l : DirectiveLocation) :
    Finds (fun as => as.map (.applied l)) directives c := by
  have hitem (d : Cursor) : Finds (fun a => [.applied l a]) appliedDirective d :=
    finds_spelled (fits_appliedDirective l) fun _ _ h => h
  exact (finds_loop hitem).map

theorem finds_default : Finds (fun v => (v.elim [] Literal.names).map .name)
    (whenPunct .equals (preceded .equals (do let v ← literal; return some v)) none) c := by
  refine finds_whenPunct (finds_preceded fun d => ?_)
    (consumes_preceded (consumes_literal.keeps.bind fun _ => keeps_pure _)) rfl
  exact Goes.finds (finds_literal.then fun v _ => goes_pure rfl)

theorem fits_inputDef (l : DirectiveLocation) :
    TracksAt (fun ts d => (SyntaxNode.input l d).Fits ts) inputDef c :=
  fits_located consumes_inputDef fun _ =>
    finds_description.then fun _ _ => finds_name.then fun _ _ => (finds_punct .colon).then fun _ _ =>
    finds_typeExpr.then fun _ _ => finds_default.then fun _ _ => (finds_directives l).then fun _ _ =>
    goes_pure ⟨rfl, by simp⟩

theorem finds_inputDef (l : DirectiveLocation) : Finds (fun d => [.input l d]) inputDef c :=
  finds_spelled (fits_inputDef l) fun _ _ h => h

theorem finds_argumentDefs (l : DirectiveLocation) :
    Finds (fun ds => ds.map (.input l)) argumentDefs c :=
  finds_whenPunct (finds_enclosed1 fun _ => finds_inputDef l) (consumes_enclosed1 _) rfl

theorem finds_inputFields (l : DirectiveLocation) : Finds (fun ds => ds.map (.input l)) inputFields c :=
  finds_enclosed fun _ => finds_inputDef l

theorem fits_fieldDef : TracksAt (fun ts d => (SyntaxNode.field d).Fits ts) fieldDef c :=
  fits_located consumes_fieldDef fun _ =>
    finds_description.then fun _ _ => finds_name.then fun _ _ =>
    (finds_argumentDefs .argumentDefinition).then fun _ _ => (finds_punct .colon).then fun _ _ =>
    finds_typeExpr.then fun _ _ => (finds_directives .fieldDefinition).then fun _ _ =>
    goes_pure ⟨rfl, by simp⟩

theorem finds_fieldDef : Finds (fun d => [.field d]) fieldDef c :=
  finds_spelled fits_fieldDef fun _ _ h => h

theorem fits_variantDef : TracksAt (fun ts d => (SyntaxNode.variant d).Fits ts) variantDef c :=
  fits_located consumes_variantDef fun _ =>
    finds_description.then fun _ _ => finds_name.then fun _ _ =>
    (finds_directives .variant).then fun _ _ =>
    (finds_whenPunct (finds_inputFields .inputFieldDefinition) consumes_inputFields rfl).then fun _ _ =>
    goes_pure ⟨rfl, by simp⟩

theorem finds_variantDef : Finds (fun d => [.variant d]) variantDef c :=
  finds_spelled fits_variantDef fun _ _ h => h

theorem fits_recordVariant (name : Ident) :
    TracksAt (fun ts d => (SyntaxNode.record d).Fits ts) (recordVariant name) c :=
  fits_located (consumes_recordVariant name) fun _ =>
    (finds_inputFields .inputFieldDefinition).then fun _ _ => goes_pure ⟨rfl, rfl⟩

theorem fits_operationDef : TracksAt (fun ts d => (SyntaxNode.operation d).Fits ts) operationDef c :=
  fits_located consumes_operationDef fun _ =>
    finds_accept.then fun _ _ => (finds_punct .colon).then fun _ _ => finds_reference.then fun _ _ =>
    goes_pure ⟨rfl, rfl⟩

theorem finds_operationDef : Finds (fun d => [.operation d]) operationDef c :=
  finds_spelled fits_operationDef fun _ _ h => h

theorem tracksAt_ident : TracksAt (fun ts n => ∃ t, ts = [t] ∧ n.span = t.span) ident c := by
  intro n d hc
  obtain ⟨ts, hts, hspends, hfits⟩ := fits_ident n d hc
  obtain ⟨g, hg, -⟩ := located_eq_ok hc
  obtain ⟨text, e, he, hg⟩ := bind_eq_ok hg
  obtain ⟨t, us, hr, -, rfl⟩ := accept_eq_ok he
  obtain ⟨-, rfl⟩ := Prod.mk.inj (Except.ok.inj hg)
  obtain rfl : [t] = ts := List.append_cancel_right (hr.symm.trans hts)
  exact ⟨[t], hts, hspends, t, rfl, hfits.span⟩

theorem name_of_variant {ts : List Token} {v : VariantDef} (h : (SyntaxNode.variant v).Spelled ts) :
    ∃ t ∈ ts, v.name.span = t.span := by
  have hfits : (SyntaxNode.variant v).Fits ts :=
    (fits_variantDef (c := ⟨ts, .nowhere, .start⟩)).of_gives h
  obtain ⟨seg, hseg, hname⟩ := hfits.children.exists_of_mem (n := .name v.name) List.mem_cons_self
  obtain ⟨t, rfl, ht⟩ := (tracksAt_ident (c := ⟨seg, .nowhere, .start⟩)).of_gives hname
  exact ⟨t, hseg.subset List.mem_cons_self, ht⟩

theorem name_recordVariant {name : Ident} {v : VariantDef} {d : Cursor}
    (h : recordVariant name c = .ok (v, d)) : v.name = name := by
  obtain ⟨g, hg, rfl⟩ := located_eq_ok h
  obtain ⟨fields, e, -, hg⟩ := bind_eq_ok hg
  rw [← (Prod.mk.inj (Except.ok.inj hg)).1]

theorem finds_recordVariant (name : Ident) :
    TracksAt (fun ts v => v.name = name ∧ Lies ts [.record v]) (recordVariant name) c := by
  intro v d hc
  obtain ⟨ts, hts, hspends, hgives, -⟩ := (fits_recordVariant name).gives v d hc
  obtain rfl := name_recordVariant hc
  exact ⟨ts, hts, hspends, rfl, .single hgives⟩

theorem finds_variants {name : Ident} (hname : ∀ t ∈ c.rest, t.span ≠ name.span) :
    Finds (VariantDef.nodes name) (variants name) c := by
  refine .branch (fun _ => ?_) ((consumes_recordVariant name).bind fun _ => keeps_pure _) fun _ => ?_
  · refine (finds_recordVariant name).bind (S := fun v ts vs => ts = [] ∧ vs = [v])
      (fun v _ _ _ => tracksAt_pure ⟨rfl, rfl⟩) ?_
    rintro us _ v _ ⟨rfl, hv⟩ ⟨rfl, rfl⟩
    simpa [VariantDef.nodes] using hv
  · have hvariants : Finds (fun vs => vs.map .variant)
        (whenPunct .equals (preceded .equals (separated .pipe variantDef consumes_variantDef)) []) c :=
      finds_whenPunct (finds_preceded fun _ => (finds_separated fun _ => finds_variantDef).map)
        (consumes_preceded (consumes_separated _).keeps) rfl
    refine hvariants.mono fun ts vs hts hvs => ?_
    unfold VariantDef.nodes
    split
    · rename_i v
      -- one that is written out has a token of its own for its name
      rw [if_neg]
      · exact hvs
      · rintro rfl
        obtain ⟨seg, hseg, hspelled⟩ := hvs.exists_of_mem (n := .variant v) List.mem_cons_self
        obtain ⟨t, ht, hspan⟩ := name_of_variant hspelled
        exact hname t (hts.subset (hseg.subset ht)) hspan.symm
    · exact hvs

theorem finds_implementsList : Finds (fun ns => ns.map .reference) implementsList c := by
  refine .branch (fun _ => ?_) ((consumes_keyword _).bind fun _ => (consumes_separated _).keeps)
    fun _ => tracksAt_pure (.nil [])
  exact TracksAt.bind (finds_keyword "implements")
    (fun _ d _ _ => (finds_separated (c := d) fun _ => finds_reference).map)
    fun us _ _ _ _ h => h.behind us

theorem finds_fields : Finds (fun ds => ds.map .field)
    (whenPunct .braceLeft (enclosed .braceLeft .braceRight fieldDef consumes_fieldDef) []) c :=
  finds_whenPunct (finds_enclosed fun _ => finds_fieldDef) (consumes_enclosed _) rfl

theorem finds_members : Finds (fun ns => ns.map .reference)
    (whenPunct .equals (preceded .equals (separated .pipe ident consumes_ident)) []) c :=
  finds_whenPunct (finds_preceded fun _ => (finds_separated fun _ => finds_reference).map)
    (consumes_preceded (consumes_separated _).keeps) rfl

theorem finds_typeRest {name : Ident} (hname : ∀ t ∈ c.rest, t.span ≠ name.span) (kind : Kind) :
    Finds (fun rest => rest.2.nodes name rest.1) (typeRest name kind) c := by
  cases kind with
  | scalar => exact Goes.finds ((finds_directives .scalar).then fun _ _ => goes_pure rfl)
  | object =>
      exact Goes.finds (finds_implementsList.then fun _ _ => (finds_directives .object).then fun _ _ =>
        finds_fields.then fun _ _ => goes_pure rfl)
  | interface =>
      exact Goes.finds (finds_implementsList.then fun _ _ => (finds_directives .interface).then fun _ _ =>
        finds_fields.then fun _ _ => goes_pure rfl)
  | union =>
      exact Goes.finds ((finds_directives .union).then fun _ _ => finds_members.then fun _ _ =>
        goes_pure rfl)
  | data =>
      refine Goes.finds ((finds_directives .data).goes fun _ d _ hd => ?_)
      exact (finds_variants fun t ht => hname t (hd.subset ht)).then fun _ _ => goes_pure rfl

theorem Goes.map {K' : α → List SyntaxNode → Prop} {g : β → α} {q : Parser β}
    (h : Goes before K q c) (hK : ∀ b ns, K b ns → K' (g b) ns) : Goes before K' (do let b ← q; return g b) c := by
  refine TracksAt.bind (S := fun b ts a => ts = [] ∧ a = g b) h
    (fun b _ _ _ => tracksAt_pure ⟨rfl, rfl⟩) ?_
  rintro us _ b _ ⟨ns, hb, hns⟩ ⟨rfl, rfl⟩
  exact ⟨ns, hK b _ hb, by rwa [List.append_nil]⟩

end Parser

def Token.Apart (ts : List Token) : Prop := (ts.map Token.span).Nodup

theorem Token.Apart.sublist {us ts : List Token} (h : Apart ts) (hs : us.Sublist ts) : Apart us :=
  List.Nodup.sublist (hs.map Token.span) h

namespace Parser

variable {c : Cursor} (span : Span)

theorem goes_typeDef (hc : Token.Apart c.rest) (description : Option String) (kind : Kind) :
    Goes [] (fun g ns => (g span).span = span ∧ (g span).nodes = ns) (typeDef description kind) c := by
  refine finds_name.goes fun name d hd _ => ?_
  obtain ⟨ts, hts, -, t, rfl, ht⟩ := tracksAt_ident name d hd
  have hname : ∀ u ∈ d.rest, u.span ≠ name.span := by
    intro u hu he
    rw [Token.Apart, hts] at hc
    refine (List.nodup_cons.mp hc).1 ?_
    rw [← ht, ← he]
    exact List.mem_map_of_mem hu
  exact (finds_typeRest hname kind).then fun _ _ => goes_pure ⟨rfl, rfl⟩

theorem goes_schemaDef (description : Option String) :
    Goes [] (fun g ns => (g span).span = span ∧ (g span).nodes = ns) (schemaDef description) c :=
  (finds_directives .schema).then fun _ _ =>
    (finds_whenPunct (finds_enclosed1 fun _ => finds_operationDef) (consumes_enclosed1 _) rfl).then
      fun _ _ => goes_pure ⟨rfl, rfl⟩

theorem finds_directiveLocation : Finds (fun _ => []) directiveLocation c := by
  intro l d hc
  unfold directiveLocation at hc
  split at hc
  · cases hc
  · rename_i name e hi
    obtain ⟨ts, hts, hspends, -⟩ := tracksAt_ident name e hi
    split at hc
    · rename_i location hl
      obtain ⟨rfl, rfl⟩ := Prod.mk.inj (Except.ok.inj hc)
      refine ⟨ts, hts, fun zs hzs last finish => ?_, .nil ts⟩
      rw [directiveLocation, hspends zs hzs]
      dsimp only
      rw [hl]
    · cases hc

theorem finds_repeatable : Finds (fun _ => [])
    (branch (isKeyword "repeatable") (do keyword "repeatable"; return true) (pure false)) c := by
  refine .branch (fun _ => ?_) ((consumes_keyword _).bind fun _ => keeps_pure _)
    fun _ => tracksAt_pure (.nil [])
  exact Goes.finds ((finds_keyword "repeatable").then fun _ _ => goes_pure rfl)

theorem goes_directiveDef (description : Option String) :
    Goes [] (fun g ns => (g span).span = span ∧ (g span).nodes = ns) (directiveDef description) c := by
  refine (finds_punct .atSign).then fun _ _ => finds_name.then fun name _ =>
    (finds_argumentDefs .argumentDefinition).then fun arguments _ => finds_repeatable.then fun _ _ =>
    (finds_keyword "on").then fun _ _ =>
    (finds_separated fun _ => finds_directiveLocation).then fun locations _ => goes_pure ⟨rfl, ?_⟩
  have hnone : locations.flatMap (fun _ => ([] : List SyntaxNode)) = [] :=
    List.flatMap_eq_nil_iff.mpr fun _ _ => rfl
  simp [DirectiveDef.nodes, hnone]

theorem goes_plainRest (hc : Token.Apart c.rest) (description : Option String) (head : Head) :
    Goes [] (fun g ns => (g span).span = span ∧ (g span).nodes = ns) (plainRest description head) c := by
  cases head with
  | schema => exact (goes_schemaDef span description).map fun _ _ h => h
  | type kind => exact (goes_typeDef span hc description kind).map fun _ _ h => h
  | directive => exact (goes_directiveDef span description).map fun _ _ h => h

theorem goes_extensionRest (hc : Token.Apart c.rest) (head : Head) :
    Goes [] (fun g ns => (g span).span = span ∧ (g span).nodes = ns) (extensionRest head) c := by
  cases head with
  | type kind => exact (goes_typeDef span hc none kind).map fun _ _ h => h
  | schema => exact (goes_schemaDef span none).map fun _ _ h => h
  | directive => exact (goes_schemaDef span none).map fun _ _ h => h

theorem fits_definition (hc : Token.Apart c.rest) :
    TracksAt (fun ts x => (SyntaxNode.definition x).Fits ts) definition c := by
  refine .branch (fun _ => ?_) consumes_extension fun _ => ?_
  · refine fits_located consumes_extension fun span => (finds_keyword "extend").goes fun _ d _ hd => ?_
    refine Finds.goes finds_accept fun head e _ he => ?_
    exact goes_extensionRest span (hc.sublist (he.trans hd).sublist) head
  · refine fits_located consumes_plainDefinition fun span => finds_description.goes fun _ d _ hd => ?_
    refine Finds.goes finds_accept fun head e _ he => ?_
    exact goes_plainRest span (hc.sublist (he.trans hd).sublist) _ head

end Parser

namespace SyntaxNode

open SchemaGraph.Parser

variable {ts seg : List Token} {n m : SyntaxNode}

theorem Spelled.fits (h : n.Spelled ts) (hts : Token.Apart ts) : n.Fits ts := by
  have hgives {α : Type} {node : α → SyntaxNode} {p : Parser α} {a : α}
      (hp : TracksAt (fun ts a => (node a).Fits ts) p ⟨ts, .nowhere, .start⟩) (ha : p.Gives ts a) :
      (node a).Fits ts := hp.of_gives ha
  cases n with
  | name n => exact hgives fits_ident h
  | reference n =>
      have hn := hgives fits_ident h
      exact ⟨hn.nonempty, hn.span, .nil ts⟩
  | argument a => exact hgives fits_argument h
  | applied l a => exact hgives (fits_appliedDirective l) h
  | input l d => exact hgives (fits_inputDef l) h
  | field d => exact hgives fits_fieldDef h
  | variant d => exact hgives fits_variantDef h
  | record d => exact hgives (fits_recordVariant d.name) h
  | operation d => exact hgives fits_operationDef h
  | definition x => exact hgives (fits_definition hts) h

theorem Spelled.exists_of_mem_tree (h : n.Spelled ts) (hts : Token.Apart ts) (hm : m ∈ n.tree) :
    ∃ seg, seg <:+: ts ∧ m.Spelled seg := by
  induction hl : n.level using Nat.strongRecOn generalizing n ts with
  | _ l ih =>
      rw [tree_eq] at hm
      rcases List.mem_cons.mp hm with rfl | hm
      · exact ⟨ts, List.infix_refl ts, h⟩
      · obtain ⟨k, hk, hm⟩ := List.mem_flatMap.mp hm
        obtain ⟨seg, hseg, hspelled⟩ := (h.fits hts).children.exists_of_mem hk
        obtain ⟨seg', hseg', hspelled'⟩ := ih k.level (hl ▸ level_of_mem_children n k hk) hspelled
          (hts.sublist hseg.sublist) hm rfl
        exact ⟨seg', hseg'.trans hseg, hspelled'⟩

end SyntaxNode

end SchemaGraph
