import SchemaGraph.Proofs.Spelling
import SchemaGraph.Proofs.Written

namespace SchemaGraph

inductive Literal.FloatFree : Literal → Prop
  | null : FloatFree .null
  | int (n : Int) : FloatFree (.int n)
  | string (s : String) : FloatFree (.string s)
  | bool (b : Bool) : FloatFree (.bool b)
  | enum (tag : String) : FloatFree (.enum tag)
  | list {items : List Literal} (items_free : ∀ v ∈ items, FloatFree v) : FloatFree (.list items)
  | object {entries : List (Ident × Literal)} (values_free : ∀ e ∈ entries, FloatFree e.2) :
      FloatFree (.object entries)

def Applied.literals (a : Applied) : List Literal := a.arguments.map Argument.value

def InputDef.literals (d : InputDef) : List Literal :=
  d.default.toList ++ d.directives.flatMap Applied.literals

def FieldDef.literals (d : FieldDef) : List Literal :=
  d.arguments.flatMap InputDef.literals ++ d.directives.flatMap Applied.literals

def VariantDef.literals (d : VariantDef) : List Literal :=
  d.directives.flatMap Applied.literals ++ d.fields.flatMap InputDef.literals

def TypeBody.literals : TypeBody → List Literal
  | .scalar => []
  | .object _ fields => fields.flatMap FieldDef.literals
  | .interface _ fields => fields.flatMap FieldDef.literals
  | .union _ => []
  | .data variants => variants.flatMap VariantDef.literals

def TypeDef.literals (d : TypeDef) : List Literal :=
  d.directives.flatMap Applied.literals ++ d.body.literals

def Definition.literals : Definition → List Literal
  | .schema d => d.directives.flatMap Applied.literals
  | .schemaExtension d => d.directives.flatMap Applied.literals
  | .type d => d.literals
  | .typeExtension d => d.literals
  | .directive d => d.arguments.flatMap InputDef.literals

def Document.literals (d : Document) : List Literal := d.definitions.flatMap Definition.literals

def AllFloatFree (vs : List Literal) : Prop := ∀ v ∈ vs, v.FloatFree

def Document.FloatFree (d : Document) : Prop := AllFloatFree d.literals

namespace AllFloatFree

variable {α : Type} {vs ws : List Literal} {as : List α} {a : α} {f : α → List Literal}

theorem left (h : AllFloatFree (vs ++ ws)) : AllFloatFree vs := (List.forall_mem_append.mp h).1

theorem right (h : AllFloatFree (vs ++ ws)) : AllFloatFree ws := (List.forall_mem_append.mp h).2

theorem of_mem (h : AllFloatFree (as.flatMap f)) (ha : a ∈ as) : AllFloatFree (f a) :=
  fun v hv => h v (List.mem_flatMap.mpr ⟨a, ha, hv⟩)

end AllFloatFree

def AllWritable (ks : List TokenKind) : Prop := ∀ k ∈ ks, k.Writable

namespace AllWritable

variable {α : Type} {k : TokenKind} {ks ls : List TokenKind} {as : List α} {w : α → List TokenKind}
  {left right mark : Punct}

theorem nil : AllWritable [] := nofun

theorem cons (hk : k.Writable) (h : AllWritable ks) : AllWritable (k :: ks) :=
  List.forall_mem_cons.mpr ⟨hk, h⟩

theorem word {text : String} (h : IsName text) (hk : AllWritable ks) :
    AllWritable (.name text :: ks) :=
  cons h hk

theorem punct {m : Punct} (h : AllWritable ks) : AllWritable (.punct m :: ks) := cons trivial h

theorem append (hk : AllWritable ks) (hl : AllWritable ls) : AllWritable (ks ++ ls) :=
  List.forall_mem_append.mpr ⟨hk, hl⟩

theorem flatMap (h : ∀ a ∈ as, AllWritable (w a)) : AllWritable (as.flatMap w) := by
  intro k hk
  obtain ⟨a, ha, hk⟩ := List.mem_flatMap.mp hk
  exact h a ha k hk

theorem block (h : ∀ a ∈ as, AllWritable (w a)) : AllWritable (Parser.block left right w as) :=
  punct ((flatMap h).append (punct nil))

theorem block? (h : ∀ a ∈ as, AllWritable (w a)) : AllWritable (Parser.block? left right w as) := by
  unfold Parser.block?
  split
  · exact nil
  · exact block h

theorem joined (h : ∀ a ∈ as, AllWritable (w a)) : AllWritable (Parser.joined mark w as) := by
  cases as with
  | nil => exact nil
  | cons a as =>
      rw [List.forall_mem_cons] at h
      exact h.1.append (flatMap fun b hb => punct (h.2 b hb))

theorem described (description : Option String) : AllWritable (describe description) := by
  cases description with
  | none => exact nil
  | some s => exact cons trivial nil

theorem choices (h : ∀ a ∈ as, AllWritable (w a)) : AllWritable (choicesWritten w as) := by
  unfold choicesWritten
  split
  · exact nil
  · exact punct (joined h)

end AllWritable

open AllWritable (nil cons word punct append flatMap block block? joined described choices)

theorem Literal.WellFormed.writable {v : Literal} (h : v.WellFormed) (hf : v.FloatFree) :
    AllWritable v.written := by
  induction h with
  | null =>
      rw [written]
      exact word (by decide) nil
  | int range =>
      rw [written]
      exact cons range nil
  | float x => cases hf
  | string s =>
      rw [written]
      exact cons trivial nil
  | bool b =>
      rw [written]
      exact word (by cases b <;> decide) nil
  | enum hname free =>
      rw [written]
      exact cons hname nil
  | list items_ok ih =>
      cases hf with
      | list hfree =>
          rw [written, itemsWritten_eq]
          exact punct ((flatMap fun v hv => ih v hv (hfree v hv)).append (punct nil))
  | object names values ih =>
      cases hf with
      | object hfree =>
          rw [written, entriesWritten_eq]
          exact punct ((flatMap fun e he => word (names e he)
            (punct (ih e he (hfree e he)))).append (punct nil))

theorem TypeExpr.writable {t : TypeExpr Ident} (h : IsName t.leaf.text) : AllWritable t.written := by
  have hclosing (t : TypeExpr Ident) : AllWritable t.closing := by
    induction t with
    | named name => exact nil
    | list t ih => exact ih.append (punct nil)
    | nonNull t ih => exact ih.append (punct nil)
  refine append (fun k hk => ?_) (word h (hclosing t))
  rw [List.eq_of_mem_replicate hk]
  trivial

theorem Applied.WellFormed.writable {a : Applied} (h : a.WellFormed) (hf : AllFloatFree a.literals) :
    AllWritable a.written :=
  punct (word h.name (block? fun b hb => word (h.arguments b hb).name (punct
    ((h.arguments b hb).value.writable (hf _ (List.mem_map_of_mem hb))))))

theorem writable_directives {ds : List Applied} (h : ∀ d ∈ ds, d.WellFormed)
    (hf : AllFloatFree (ds.flatMap Applied.literals)) : AllWritable (directivesWritten ds) :=
  flatMap fun d hd => (h d hd).writable (hf.of_mem hd)

theorem InputDef.WellFormed.writable {d : InputDef} (h : d.WellFormed) (hf : AllFloatFree d.literals) :
    AllWritable d.written := by
  have hdefault : AllWritable (defaultWritten d.default) := by
    cases hd : d.default with
    | none => exact nil
    | some v => exact punct ((h.default v hd).writable (hf.left v (by simp [hd])))
  exact (described _).append (word h.name (punct
    ((TypeExpr.writable h.type.leaf).append (hdefault.append
      (writable_directives h.directives hf.right)))))

theorem writable_parameters {ds : List InputDef} (h : ∀ d ∈ ds, d.WellFormed)
    (hf : AllFloatFree (ds.flatMap InputDef.literals)) : AllWritable (parametersWritten ds) :=
  block? fun d hd => (h d hd).writable (hf.of_mem hd)

theorem FieldDef.WellFormed.writable {d : FieldDef} (h : d.WellFormed) (hf : AllFloatFree d.literals) :
    AllWritable d.written :=
  (described _).append (word h.name ((writable_parameters h.arguments hf.left).append (punct
    ((TypeExpr.writable h.type.leaf).append (writable_directives h.directives hf.right)))))

theorem VariantDef.WellFormed.writable {d : VariantDef} (h : d.WellFormed) (hf : AllFloatFree d.literals) :
    AllWritable d.written :=
  (described _).append (word h.name ((writable_directives h.directives hf.left).append
    (block fun f hd => (h.fields f hd).writable (hf.right.of_mem hd))))

theorem writable_implements {interfaces : List Ident} (h : ∀ i ∈ interfaces, IsName i.text) :
    AllWritable (implementsWritten interfaces) := by
  unfold implementsWritten
  split
  · exact nil
  · exact word (by decide) (joined fun i hi => word (h i hi) nil)

theorem TypeDef.WellFormed.writable {d : TypeDef} (h : d.WellFormed) (hf : AllFloatFree d.literals) :
    AllWritable d.written := by
  refine word h.name ?_
  have hds := writable_directives h.directives hf.left
  have hbody := h.body
  have hfree := hf.right
  cases hb : d.body with
  | scalar => exact hds
  | object interfaces fields =>
      rw [hb] at hbody hfree
      exact (writable_implements hbody.1).append (hds.append
        (block fun f hf => (hbody.2 f hf).writable (hfree.of_mem hf)))
  | interface interfaces fields =>
      rw [hb] at hbody hfree
      exact (writable_implements hbody.1).append (hds.append
        (block fun f hf => (hbody.2 f hf).writable (hfree.of_mem hf)))
  | union members =>
      rw [hb] at hbody
      exact hds.append (choices fun m hm => word (hbody m hm) nil)
  | data variants =>
      rw [hb] at hbody hfree
      exact hds.append (choices fun v hv => (hbody v hv).writable (hfree.of_mem hv))

theorem SchemaDef.WellFormed.writable {d : SchemaDef} (h : d.WellFormed)
    (hf : AllFloatFree (d.directives.flatMap Applied.literals)) : AllWritable d.written := by
  refine (writable_directives h.directives hf).append (block? fun o ho => ?_)
  have hword : IsName o.operation.text := by cases o.operation <;> decide
  exact word hword (punct (word (h.operations o ho) nil))

theorem DirectiveDef.WellFormed.writable {d : DirectiveDef} (h : d.WellFormed)
    (hf : AllFloatFree (d.arguments.flatMap InputDef.literals)) : AllWritable d.written := by
  have hrepeatable : AllWritable (if d.repeatable then [.name "repeatable"] else []) := by
    split
    · exact word (by decide) nil
    · exact nil
  refine punct (word h.name ((writable_parameters h.arguments hf).append
    (hrepeatable.append (word (by decide) (joined fun l _ => ?_)))))
  have hword : IsName l.text := by cases l <;> decide
  exact word hword nil

theorem Definition.WellFormed.writable {x : Definition} (h : x.WellFormed) (hf : AllFloatFree x.literals) :
    AllWritable x.written := by
  have hextend : IsName "extend" := by decide
  have hschema : IsName "schema" := by decide
  have hkind (k : Kind) : IsName k.keyword := by cases k <;> decide
  cases x with
  | schema d => exact (described _).append (word hschema (SchemaDef.WellFormed.writable h hf))
  | schemaExtension d => exact word hextend (word hschema (h.2.writable hf))
  | type d => exact (described _).append (word (hkind _) (TypeDef.WellFormed.writable h hf))
  | typeExtension d => exact word hextend (word (hkind _) (h.2.writable hf))
  | directive d =>
      exact (described _).append (word (by decide)
        (DirectiveDef.WellFormed.writable h hf))

def Host.bare : Host := ⟨.erase, [], nofun, ⟨0, 0, 0⟩, True, fun _ => rfl⟩

theorem Parser.follows_bare (ts : Tokens) : Parser.Follows .bare ts.items.length
    ⟨ts.items, .nowhere, ts.finish⟩ (.bare (ts.items.map Token.kind)) := by
  refine ⟨?_, fun hlt => absurd hlt (Nat.lt_irrefl _), rfl, fun _ => rfl⟩
  rw [Host.bare, List.append_nil, Cursor.bare, List.map_map]
  rfl

namespace Document

variable {source : String} {d : Document}

theorem wellFormed_of_parse (h : parse source = .ok d) : d.WellFormed := by
  obtain ⟨ts, c, hs, hd⟩ := parse_eq_ok_iff.mp h
  exact (Parser.yields_document (tokenize_wellFormed hs) hd).1

theorem ofTokens_bare (ts : Tokens) :
    match ofTokens ts with
    | .ok d => ∃ c, Parser.document (.bare (ts.items.map Token.kind)) = .ok (d.bare.definitions, c)
    | .error e =>
        Parser.document (.bare (ts.items.map Token.kind)) = .error (Relocation.erase.error e) := by
  have hrun := Parser.carries_document trivial (Parser.follows_bare ts)
  rw [ofTokens]
  generalize Parser.document ⟨ts.items, .nowhere, ts.finish⟩ = x at hrun
  generalize Parser.document (.bare (ts.items.map Token.kind)) = y at hrun
  cases hrun with
  | error he => exact he trivial
  | @ok definitions _ c d hab _ => exact ⟨d, hab ▸ rfl⟩

theorem parse_bare {ts : Tokens} (hs : tokenize source = .ok ts) :
    match parse source with
    | .ok d => ∃ c, Parser.document (.bare (ts.items.map Token.kind)) = .ok (d.bare.definitions, c)
    | .error e =>
        Parser.document (.bare (ts.items.map Token.kind)) = .error (Relocation.erase.error e) := by
  rw [parse, hs]
  exact ofTokens_bare ts

theorem exists_of_written {ts : Tokens} (h : d.WellFormed) (hs : tokenize source = .ok ts)
    (hk : ts.items.map Token.kind = d.written) :
    ∃ d', parse source = .ok d' ∧ d'.bare = d.bare := by
  have hbare := parse_bare hs
  rw [hk, Parser.document_written h] at hbare
  cases hd : parse source with
  | error e =>
      rw [hd] at hbare
      exact nomatch hbare
  | ok d' =>
      rw [hd] at hbare
      obtain ⟨c, hc⟩ := hbare
      exact ⟨d', rfl, congrArg Document.mk (Prod.mk.inj (Except.ok.inj hc)).1.symm⟩

theorem parse_range : (∀ source d, parse source = .ok d → d.WellFormed) ∧
    ∀ d : Document, d.WellFormed → d.FloatFree →
      ∃ source d', parse source = .ok d' ∧ d'.bare = d.bare := by
  refine ⟨fun source d h => wellFormed_of_parse h, fun d h hf => ?_⟩
  have hwritable : AllWritable d.written :=
    flatMap fun x hx => Definition.WellFormed.writable (h x hx) (hf.of_mem hx)
  obtain ⟨source, ts, hs, hk⟩ := exists_source hwritable
  obtain ⟨d', hd, hbare⟩ := exists_of_written h hs hk
  exact ⟨source, d', hd, hbare⟩

def keywords : Document :=
  ⟨[.typeExtension ⟨⟨"implements", .nowhere⟩, none, [], .object [⟨"extend", .nowhere⟩] [], .nowhere⟩,
    .schema ⟨some "a \"schema\"\nof no operations",
      [⟨⟨"on", .nowhere⟩, [⟨⟨"null", .nowhere⟩, .list [.int (-Int.pow 2 63), .enum "type"], .nowhere⟩],
        .nowhere⟩], [], .nowhere⟩]⟩

theorem wellFormed_keywords : keywords.WellFormed := by
  have hvalue : (Literal.list [.int (-Int.pow 2 63), .enum "type"]).WellFormed := by
    refine .list (List.forall_mem_cons.mpr ⟨.int ⟨by decide, by decide⟩, List.forall_mem_singleton.mpr ?_⟩)
    exact .enum (by decide) (by decide)
  refine List.forall_mem_cons.mpr ⟨⟨rfl, by decide, nofun, ?_, nofun⟩, List.forall_mem_singleton.mpr
    ⟨List.forall_mem_singleton.mpr ⟨by decide, List.forall_mem_singleton.mpr ⟨by decide, hvalue⟩⟩,
      nofun⟩⟩
  exact List.forall_mem_singleton.mpr (by decide)

theorem floatFree_keywords : keywords.FloatFree := by
  refine List.forall_mem_singleton.mpr (.list (List.forall_mem_cons.mpr ⟨.int _, ?_⟩))
  exact List.forall_mem_singleton.mpr (.enum _)

theorem parse_range_keywords : keywords.WellFormed ∧ keywords.FloatFree ∧
    ∃ source d', parse source = .ok d' ∧ d'.bare = keywords.bare ∧ d'.WellFormed := by
  obtain ⟨source, d', hd, hbare⟩ := parse_range.2 keywords wellFormed_keywords floatFree_keywords
  exact ⟨wellFormed_keywords, floatFree_keywords, source, d', hd, hbare, parse_range.1 source d' hd⟩

end Document

end SchemaGraph
