import SchemaGraph.Proofs.TypeMap

namespace SchemaGraph

theorem InputValue.leaf_move (s : Scope) (v : InputValue) : (v.move s).type.leaf = s.move v.type.leaf :=
  TypeExpr.leaf_map _ _

theorem Variant.refs_move (s : Scope) (v : Variant) : (v.move s).refs = v.refs.map s.move := by
  simp [refs, move, InputValue.leaf_move]

theorem Body.refs_move (s : Scope) (b : Body) : (b.move s).refs = b.refs.map s.move := by
  cases b with
  | scalar url => rfl
  | object fields interfaces =>
      simp [move, refs, List.flatMap_map, List.map_flatMap]
  | interface fields interfaces =>
      simp [move, refs, List.flatMap_map, List.map_flatMap]
  | union members => rfl
  | data variants => simp [move, refs, List.flatMap_map, List.map_flatMap, Variant.refs_move]

namespace NamedType

def bare (t : NamedType) : NamedType := t.move Builtin.scope

@[simp] theorem name_bare (t : NamedType) : t.bare.name = t.name := rfl

@[simp] theorem bare_place (s : Scope) (d : TypeDef) (extensions : List TypeDef) :
    (place s d extensions).bare = place Builtin.scope d extensions :=
  move_place s Builtin.scope d extensions

@[simp] theorem bare_grow (s : Scope) (t : NamedType) (extensions : List TypeDef) :
    (t.grow s extensions).bare = t.grow Builtin.scope extensions := by
  rw [bare, move, grow, Body.move_grow, grow]

theorem names_eq_of_bare {t u : NamedType} (h : t.bare = u.bare) :
    t.refs.map Ref.name = u.refs.map Ref.name := by
  have hr (t : NamedType) : t.bare.refs.map Ref.name = t.refs.map Ref.name := by
    rw [refs, bare, move, Body.refs_move, List.map_map]
    rfl
  rw [← hr t, ← hr u, h]

theorem map_name_eq_of_bare {ts us : List NamedType} (h : ts.map bare = us.map bare) :
    ts.map name = us.map name := by
  have hn (ts : List NamedType) : (ts.map bare).map name = ts.map name := by
    rw [List.map_map]
    rfl
  rw [← hn ts, ← hn us, h]

end NamedType

theorem Registry.lookup_bare {r r' : Registry}
    (h : r.types.map NamedType.bare = r'.types.map NamedType.bare) (n : String) :
    (r.lookup n).map NamedType.bare = (r'.lookup n).map NamedType.bare := by
  rw [lookup, lookup, Option.map_or, Option.map_or, get?, get?,
    ← Keyed.get?_map NamedType.name NamedType.name_bare, h,
    Keyed.get?_map NamedType.name NamedType.name_bare]

namespace Snapshot

structure Alike (s s' : Snapshot) : Prop where
  description : s.description = s'.description
  types : s.registry.types.map NamedType.bare = s'.registry.types.map NamedType.bare
  roots : s.roots.move Builtin.scope = s'.roots.move Builtin.scope
  directives : s.directives.map (Directive.move Builtin.scope) =
    s'.directives.map (Directive.move Builtin.scope)
  remarks : s.remarks = s'.remarks
  node : s.node = s'.node
  extensions : s.extensions = s'.extensions
  assumeValid : s.assumeValid = s'.assumeValid

variable {s s' : Snapshot}

theorem Alike.refl (s : Snapshot) : s.Alike s := ⟨rfl, rfl, rfl, rfl, rfl, rfl, rfl, rfl⟩

theorem Alike.names (h : s.Alike s') : s.registry.names = s'.registry.names :=
  NamedType.map_name_eq_of_bare h.types

theorem Settled.exists_alike
    (ht : s.registry.types.map NamedType.bare = s'.registry.types.map NamedType.bare)
    {seen seen' : List NamedType} (hseen : seen.map NamedType.bare = seen'.map NamedType.bare)
    {r r' : Ref} (hname : r'.name = r.name) (hr : s.Settled seen r) (hr' : s'.Settled seen' r')
    {t : NamedType} (hres : s.lineage.resolve? r = some t) (hn : t.name ∉ seen.map NamedType.name) :
    ∃ t', s'.lineage.resolve? r' = some t' ∧ t'.name ∉ seen'.map NamedType.name ∧ t'.bare = t.bare ∧
      s.registry.lookup r.name = some t ∧ s'.registry.lookup r'.name = some t' := by
  rw [Lineage.name_of_resolve? hres] at hn
  have hn' : r'.name ∉ seen'.map NamedType.name := by
    rw [hname, ← NamedType.map_name_eq_of_bare hseen]
    exact hn
  have hl := (hr.resolve? hn).symm.trans hres
  have hbare := Registry.lookup_bare ht r.name
  rw [hl] at hbare
  obtain ⟨t', hl', hb⟩ := Option.map_eq_some_iff.mp hbare.symm
  rw [← hname] at hl'
  refine ⟨t', (hr'.resolve? hn').trans hl', ?_, hb, hl, hl'⟩
  rw [Registry.name_of_lookup hl']
  exact hn'

theorem walk_alike (hs : s.Sound) (hs' : s'.Sound)
    (ht : s.registry.types.map NamedType.bare = s'.registry.types.map NamedType.bare)
    {seen seen' : List NamedType} {p p' : List Ref}
    (hseen : seen.map NamedType.bare = seen'.map NamedType.bare) (hp : p.map Ref.name = p'.map Ref.name)
    (hset : ∀ r ∈ p, s.Settled seen r) (hset' : ∀ r ∈ p', s'.Settled seen' r) :
    (s.lineage.walk seen p).map NamedType.bare = (s'.lineage.walk seen' p').map NamedType.bare := by
  induction seen, p using s.lineage.walk_induction generalizing seen' p' with
  | nil seen =>
      obtain rfl : p' = [] := List.map_eq_nil_iff.mp hp.symm
      rw [Lineage.walk_nil, Lineage.walk_nil, hseen]
  | skip seen r rest hr ih =>
      obtain ⟨r', rest', rfl, hname, hrest⟩ := List.map_eq_cons_iff.mp hp.symm
      obtain ⟨hsr, hsrest⟩ := List.forall_mem_cons.mp hset
      obtain ⟨hsr', hsrest'⟩ := List.forall_mem_cons.mp hset'
      have hr' : ∀ t, s'.lineage.resolve? r' = some t → t.name ∈ seen'.map NamedType.name := by
        intro t' ht'
        by_contra hno
        obtain ⟨t, hres, hn, -⟩ := hsr'.exists_alike ht.symm hseen.symm hname.symm hsr ht' hno
        exact hn (hr t hres)
      rw [Lineage.walk_skip _ hr, Lineage.walk_skip _ hr']
      exact ih hseen hrest.symm hsrest hsrest'
  | visit seen r rest t hr hn ih =>
      obtain ⟨r', rest', rfl, hname, hrest⟩ := List.map_eq_cons_iff.mp hp.symm
      have hsr := hset r List.mem_cons_self
      have hsr' := hset' r' List.mem_cons_self
      obtain ⟨t', hr', hn', hbare, hl, hl'⟩ := hsr.exists_alike ht hseen hname hsr' hr hn
      rw [Lineage.walk_visit _ hr hn, Lineage.walk_visit _ hr' hn']
      refine ih ?_ ?_ (hs.settled_visit hl hset) (hs'.settled_visit hl' hset')
      · rw [List.map_append, List.map_append, hseen, List.map_singleton, List.map_singleton, hbare]
      · rw [List.map_append, List.map_append, hrest, NamedType.names_eq_of_bare hbare]

theorem names_ownSeeds (s : Snapshot) : s.ownSeeds.map Ref.name = s.registry.names := by
  rw [ownSeeds, List.map_map]
  exact List.map_id _

theorem Alike.names_otherSeeds (h : s.Alike s') :
    s.otherSeeds.map Ref.name = s'.otherSeeds.map Ref.name := by
  have hd (d : Directive) : (d.move Builtin.scope).arguments.map (fun a => a.type.leaf.name) =
      d.arguments.map fun a => a.type.leaf.name := by
    simp [Directive.move, InputValue.leaf_move]
  have hn (s : Snapshot) : s.otherSeeds.map Ref.name =
      (s.directives.map (Directive.move Builtin.scope)).flatMap
        (fun d => d.arguments.map fun a => a.type.leaf.name) ++ Builtin.introspectionNames := by
    simp [otherSeeds, List.flatMap_map, List.map_flatMap, hd, Function.comp_def]
  rw [hn s, hn s', h.directives]

theorem Alike.typeMap (h : s.Alike s') (hs : s.Sound) (hs' : s'.Sound) :
    s.toSchema.typeMap.map NamedType.bare = s'.toSchema.typeMap.map NamedType.bare := by
  rw [typeMap_toSchema, typeMap_toSchema]
  refine walk_alike hs hs' h.types ?_ h.names_otherSeeds hs.settled_otherSeeds hs'.settled_otherSeeds
  refine walk_alike hs hs' h.types rfl ?_ hs.settled_ownSeeds hs'.settled_ownSeeds
  rw [names_ownSeeds, names_ownSeeds, h.names]

end Snapshot

end SchemaGraph
