import SchemaGraph.Proofs.Ancestry
import SchemaGraph.Proofs.Source
import SchemaGraph.Proofs.Lossless
import SchemaGraph.Schema.Coercion

namespace SchemaGraph

def Literal.ofText? (text : String) : Option Literal := do
  let ts ← (tokenize text).toOption
  let (v, c) ← (Parser.literal ⟨ts.items, .nowhere, ts.finish⟩).toOption
  if c.rest.isEmpty then some v else none

namespace NamedType

def tags (t : NamedType) : List String :=
  match record? t.body.variants with
  | some _ => []
  | none => t.body.variants.map Variant.name

theorem mem_tags {t : NamedType} {tag : String} : tag ∈ t.tags ↔
    ∃ variants, t.body = .data variants ∧ record? variants = none ∧ tag ∈ variants.map Variant.name := by
  unfold tags
  cases hb : t.body with
  | data variants =>
      dsimp only [Body.variants]
      cases hr : record? variants with
      | some v => simp [hr]
      | none => simp [hr]
  | _ => simp [Body.variants, record?]

end NamedType

namespace Literal

theorem ofName_eq_enum_iff {text : String} :
    ofName text = .enum text ↔ text ∉ ["true", "false", "null"] := by
  unfold ofName
  split_ifs with htrue hfalse hnull <;> simp [*]

theorem ofText?_name {text : String} (h : IsName text) : ofText? text = some (ofName text) := by
  obtain ⟨ts, hs, hk⟩ := Token.Spells.tokenize (Token.spells_name h)
  rw [String.ofList_toList] at hs
  obtain ⟨t, hitems, hkind⟩ : ∃ t, ts.items = [t] ∧ t.kind = .name text := by
    obtain ⟨t, us, hitems, hkind, hus⟩ := List.map_eq_cons_iff.mp hk
    exact ⟨t, by rw [hitems, List.map_eq_nil_iff.mp hus], hkind⟩
  have hread : Parser.literal ⟨[t], .nowhere, ts.finish⟩ =
      .ok (ofName text, ⟨[], t.span, ts.finish⟩) := by
    obtain ⟨kind, span⟩ := t
    obtain rfl : kind = .name text := hkind
    rfl
  simp [ofText?, hs, hitems, hread, Except.toOption]

end Literal

namespace Lineage

variable {l : Lineage} {r : Ref} {t : NamedType} {tag : String}

theorem value?_enum (ht : l.resolve? r = some t) (htag : tag ∈ t.tags) :
    l.value? (.enum tag) (.named r) = some (.string tag) := by
  obtain ⟨variants, hbody, hsum, hmem⟩ := NamedType.mem_tags.mp htag
  simp [value?, coerce, ht, NamedType.leafValue?, hbody, hsum, List.mem_map.mp hmem]

theorem value?_bool (ht : l.resolve? r = some t) (htag : tag ∈ t.tags) (b : Bool) :
    l.value? (.bool b) (.named r) = none := by
  obtain ⟨variants, hbody, -, -⟩ := NamedType.mem_tags.mp htag
  simp [value?, coerce, ht, NamedType.leafValue?, hbody]

theorem value?_null : l.value? .null (.named r) = some .null := by
  simp [value?, coerce]

theorem value?_ofName_iff (ht : l.resolve? r = some t) (htag : tag ∈ t.tags) :
    l.value? (.ofName tag) (.named r) = some (.string tag) ↔ tag ∉ ["true", "false", "null"] := by
  rw [← Literal.ofName_eq_enum_iff]
  constructor
  · intro h
    unfold Literal.ofName at h ⊢
    split_ifs at h ⊢
    · exact nomatch (value?_bool ht htag true).symm.trans h
    · exact nomatch (value?_bool ht htag false).symm.trans h
    · exact nomatch value?_null.symm.trans h
    · rfl
  · intro h
    rw [h]
    exact value?_enum ht htag

end Lineage

namespace Variant

theorem node_of_mem_mergeStep {acc added : List Variant} {v : Variant} (h : v ∈ mergeStep acc added) :
    v.node ∈ (acc ++ added).map node := by
  unfold mergeStep at h
  cases hr : record? acc with
  | none =>
      rw [hr] at h
      exact List.mem_map_of_mem (List.mem_append.mpr (Keyed.mem_of_mem_lastWriteWins name h))
  | some u =>
      rw [hr] at h
      obtain ⟨rfl, -⟩ := record?_eq_some_iff.mp hr
      rw [List.mem_singleton.mp h]
      exact List.mem_cons_self

theorem node_of_mem_mergeVariants {base : List Variant} {fragments : List (List Variant)} {v : Variant}
    (h : v ∈ mergeVariants base fragments) : v.node ∈ (base ++ fragments.flatten).map node := by
  induction fragments generalizing base with
  | nil =>
      rw [List.flatten_nil, List.append_nil]
      exact List.mem_map_of_mem h
  | cons f fs ih =>
      rw [List.flatten_cons, ← List.append_assoc, List.map_append, List.mem_append]
      rcases List.mem_append.mp (List.map_append ▸ ih h) with hstep | hrest
      · obtain ⟨u, hu, hnode⟩ := List.mem_map.mp hstep
        exact Or.inl (hnode ▸ node_of_mem_mergeStep hu)
      · exact Or.inr hrest

end Variant

namespace Body

variable {s : Scope}

theorem node_of_mem_grow {declared : List TypeDef} {b : Body} {v : Variant}
    (h : v ∈ (b.grow s declared).variants) :
    v.node ∈ b.variants.map Variant.node ∨ ∃ d ∈ declared, v.node ∈ d.body.variants := by
  cases b with
  | data variants =>
      have hnode := Variant.node_of_mem_mergeVariants h
      rw [List.map_append, List.mem_append] at hnode
      refine hnode.imp (fun hold => ?_) fun hnew => ?_
      · rw [List.map_map] at hold
        exact hold
      · obtain ⟨u, hu, hnode⟩ := List.mem_map.mp hnew
        obtain ⟨f, hf, hu⟩ := List.mem_flatten.mp hu
        obtain ⟨d, hd, rfl⟩ := List.mem_map.mp hf
        obtain ⟨x, hx, rfl⟩ := List.mem_map.mp (Keyed.mem_of_mem_ofList Variant.name hu)
        exact ⟨d, hd, hnode ▸ hx⟩
  | _ => exact nomatch h

theorem variants_empty (k : Kind) : (Body.empty k).variants = [] := by
  cases k <;> rfl

end Body

theorem NamedType.node_of_mem_place {s : Scope} {d : TypeDef} {extensions : List TypeDef} {v : Variant}
    (h : v ∈ (place s d extensions).body.variants) :
    ∃ e ∈ d :: extensions, v.node ∈ e.body.variants := by
  rcases Body.node_of_mem_grow h with hold | ⟨e, he, hv⟩
  · rw [Body.variants_empty] at hold
    exact absurd hold List.not_mem_nil
  · refine ⟨e, ?_, hv⟩
    exact (List.mem_cons.mp he).elim (fun h => h ▸ List.mem_cons_self) fun h =>
      List.mem_cons_of_mem _ (NamedType.mem_ofKind.mp h).1

def NamedType.Spelled (t : NamedType) : Prop := ∀ v ∈ t.body.variants, IsName v.name

theorem TypeDef.WellFormed.variants {d : TypeDef} (h : d.WellFormed) :
    ∀ x ∈ d.body.variants, IsName x.name.text := by
  have hbody := h.body
  cases hb : d.body with
  | data variants =>
      rw [hb] at hbody
      exact fun x hx => (hbody x hx).name
  | _ => exact nofun

theorem Builtin.spelled {t : NamedType} (ht : t ∈ types) : t.Spelled := by
  have hdefs : ∀ d ∈ scalarDefs ++ introspectionDefs, ∀ x ∈ d.body.variants, IsName x.name.text := by
    decide +kernel
  obtain ⟨d, hd, hbuild⟩ : ∃ d ∈ scalarDefs ++ introspectionDefs, NamedType.build scope d [] = .ok t := by
    rcases List.mem_append.mp ht with h | h
    · obtain ⟨d, hd, hbuild⟩ := mem_built h
      exact ⟨d, List.mem_append_left _ hd, hbuild⟩
    · obtain ⟨d, hd, hbuild⟩ := mem_built h
      exact ⟨d, List.mem_append_right _ hd, hbuild⟩
  rw [NamedType.build_eq_guard, Scope.guard_eq_ok_iff] at hbuild
  obtain ⟨-, rfl⟩ := hbuild
  intro v hv
  obtain ⟨e, he, hnode⟩ := NamedType.node_of_mem_place hv
  rw [List.mem_singleton] at he
  exact hdefs d hd v.node (he ▸ hnode)

namespace Document

variable {d : Document} {x : TypeDef}

theorem WellFormed.types (h : d.WellFormed) (hx : x ∈ d.types) : x.WellFormed := by
  obtain ⟨y, hy, he⟩ := List.mem_filterMap.mp hx
  cases y with
  | type t => exact Option.some.inj he ▸ h _ hy
  | _ => exact nomatch he

theorem WellFormed.typeExtensions (h : d.WellFormed) (hx : x ∈ d.typeExtensions) : x.WellFormed := by
  obtain ⟨y, hy, he⟩ := List.mem_filterMap.mp hx
  cases y with
  | typeExtension t => exact Option.some.inj he ▸ (h _ hy).2
  | _ => exact nomatch he

theorem WellFormed.extensionsOf (h : d.WellFormed) {name : String} (hx : x ∈ d.extensionsOf name) :
    x.WellFormed :=
  h.typeExtensions (mem_extensionsOf.mp hx).1

end Document

theorem Registry.spelled_extended {g : Registry} {home : Home} {d : Document}
    (hg : ∀ t ∈ g.types, t.Spelled) (hd : d.WellFormed) :
    ∀ t ∈ (g.extended home d).types, t.Spelled := by
  -- a variant keeps the node that declares it, however often its type has been extended
  intro t ht v hv
  obtain ⟨seed, hseed, rfl⟩ := List.mem_map.mp ht
  rcases seed_cases hseed with ⟨b, rfl, hb⟩ | ⟨t, hold, rfl, -⟩ | ⟨x, hx, rfl, -⟩
  · exact Builtin.spelled (Keyed.mem_of_get? _ hb) v hv
  · rcases Body.node_of_mem_grow hv with hnode | ⟨e, he, hnode⟩
    · obtain ⟨u, hu, he⟩ := List.mem_map.mp hnode
      have hname : v.name = u.name := by rw [Variant.name, ← he, Variant.name]
      exact hname ▸ hg t hold u hu
    · exact (hd.extensionsOf (NamedType.mem_ofKind.mp he).1).variants v.node hnode
  · obtain ⟨e, he, hnode⟩ := NamedType.node_of_mem_place hv
    rcases List.mem_cons.mp he with rfl | he
    · exact (hd.types hx).variants v.node hnode
    · exact (hd.extensionsOf he).variants v.node hnode

def Lineage.Spelled (l : Lineage) : Prop := ∀ g ∈ l.registries, ∀ t ∈ g.types, t.Spelled

theorem Lineage.Spelled.resolve? {l : Lineage} (hl : l.Spelled) {r : Ref} {t : NamedType}
    (h : l.resolve? r = some t) : t.Spelled := by
  rcases List.mem_append.mp (mem_types_of_resolve? h) with hb | hg
  · exact Builtin.spelled hb
  · obtain ⟨g, hg, ht⟩ := List.mem_flatMap.mp hg
    exact hl g hg t ht

namespace Snapshot

variable {s s' : Snapshot} {d : Document} {o : Options}

theorem spelled_empty : empty.lineage.Spelled := by
  intro g hg
  rw [List.mem_singleton.mp hg]
  exact nofun

theorem spelled_extend (hs : s.Sound) (hl : s.lineage.Spelled) (hd : d.WellFormed)
    (h : s.extend d o = .ok s') : s'.lineage.Spelled := by
  cases hempty : d.isEmpty with
  | true =>
      rw [extend_of_isEmpty hempty] at h
      exact Except.ok.inj h ▸ hl
  | false =>
      obtain rfl := eq_extended hempty h
      intro g hg
      rcases List.mem_append.mp hg with hold | hnew
      · exact hl g hold
      · rw [List.mem_singleton.mp hnew]
        exact Registry.spelled_extended (hl _ (List.mem_of_getElem? hs.current)) hd

end Snapshot

namespace Schema

variable {source : String} {D : Document} {o : Options} {S : Schema} {r : Ref} {t : NamedType}
  {tag : String}

theorem spelled_of_build (hd : D.WellFormed) (h : build D o = .ok S) : S.snapshot.lineage.Spelled := by
  obtain ⟨-, s, hs, rfl⟩ := exists_of_build h
  obtain ⟨u, hu, rfl⟩ := Snapshot.exists_of_build hs
  obtain ⟨roots, hroots⟩ := u.exists_withConventionalRoots
  have hl := Snapshot.spelled_extend Snapshot.sound_empty Snapshot.spelled_empty hd hu
  rw [hroots]
  exact hl

theorem tag_written_iff (hd : Document.parse source = .ok D) (h : build D o = .ok S)
    (ht : S.snapshot.lineage.resolve? r = some t) (htag : tag ∈ t.tags) :
    S.snapshot.lineage.value? (.enum tag) (.named r) = some (.string tag) ∧
      ∃ v, Literal.ofText? tag = some v ∧
        (S.snapshot.lineage.value? v (.named r) = some (.string tag) ↔
          tag ∉ ["true", "false", "null"]) := by
  have hspelled := (spelled_of_build (Document.wellFormed_of_parse hd) h).resolve? ht
  have hname : IsName tag := by
    obtain ⟨variants, hbody, -, hmem⟩ := NamedType.mem_tags.mp htag
    obtain ⟨v, hv, rfl⟩ := List.mem_map.mp hmem
    exact hspelled v (by rw [hbody]; exact hv)
  exact ⟨Lineage.value?_enum ht htag, _, Literal.ofText?_name hname, Lineage.value?_ofName_iff ht htag⟩

end Schema

namespace Replies

def reply : Ref := ⟨"Reply", .generation 1⟩

def tagsIn (source : String) : Option (List String) := do
  let d ← (Document.parse source).toOption
  let S ← (Schema.build d .default).toOption
  let t ← S.snapshot.lineage.resolve? reply
  return t.tags

theorem eq_ok_of_toOption {ε α : Type} {x : Except ε α} {a : α} (h : x.toOption = some a) :
    x = .ok a := by
  cases x with
  | error e => exact nomatch h
  | ok b => exact congrArg Except.ok (Option.some.inj h)

theorem exists_of_tagsIn {source : String} {tags : List String} (h : tagsIn source = some tags) :
    ∃ D S t, Document.parse source = .ok D ∧ Schema.build D .default = .ok S ∧
      S.snapshot.lineage.resolve? reply = some t ∧ t.tags = tags := by
  obtain ⟨D, hd, h⟩ := Option.bind_eq_some_iff.mp h
  obtain ⟨S, hS, h⟩ := Option.bind_eq_some_iff.mp h
  obtain ⟨t, ht, h⟩ := Option.bind_eq_some_iff.mp h
  exact ⟨D, S, t, eq_ok_of_toOption hd, eq_ok_of_toOption hS, ht, Option.some.inj h⟩

theorem yes_is_written : ∃ D S t, Document.parse "data Reply = YES | true" = .ok D ∧
    Schema.build D .default = .ok S ∧ S.snapshot.lineage.resolve? reply = some t ∧ "YES" ∈ t.tags ∧
    ∃ v, Literal.ofText? "YES" = some v ∧
      S.snapshot.lineage.value? v (.named reply) = some (.string "YES") := by
  have hbuilds : tagsIn "data Reply = YES | true" = some ["YES", "true"] := by decide +kernel
  obtain ⟨D, S, t, hd, hS, ht, htags⟩ := exists_of_tagsIn hbuilds
  have htag : "YES" ∈ t.tags := by rw [htags]; decide
  obtain ⟨-, v, hv, hvalue⟩ := Schema.tag_written_iff hd hS ht htag
  exact ⟨D, S, t, hd, hS, ht, htag, v, hv, hvalue.mpr (by decide)⟩

theorem true_is_no_reply : ∃ D S t, Document.parse "data Reply = true | false" = .ok D ∧
    Schema.build D .default = .ok S ∧ S.snapshot.lineage.resolve? reply = some t ∧
    t.tags = ["true", "false"] ∧ Literal.ofText? "true" = some (.bool true) ∧
    S.snapshot.lineage.value? (.bool true) (.named reply) = none := by
  have hbuilds : tagsIn "data Reply = true | false" = some ["true", "false"] := by decide +kernel
  obtain ⟨D, S, t, hd, hS, ht, htags⟩ := exists_of_tagsIn hbuilds
  have htag : "true" ∈ t.tags := by rw [htags]; decide
  exact ⟨D, S, t, hd, hS, ht, htags, Literal.ofText?_name (by decide),
    Lineage.value?_bool ht htag true⟩

end Replies

end SchemaGraph
