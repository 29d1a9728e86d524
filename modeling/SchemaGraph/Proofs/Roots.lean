import SchemaGraph.Proofs.Report

namespace SchemaGraph

namespace Document

variable {d : Document} {o : Operation}

def rootEntries (d : Document) (o : Operation) : List OperationDef :=
  ((d.schemas.getLast?.toList ++ d.schemaExtensions).flatMap SchemaDef.operations).filter
    (·.operation = o)

def declaredRoot? (d : Document) (o : Operation) : Option String :=
  (d.rootEntries o).getLast?.map (·.type.text)

def conventionalRoot? (d : Document) (o : Operation) : Option String :=
  if d.schemas.isEmpty ∧ o.conventionalName ∈ d.types.map (·.name.text) then some o.conventionalName
  else none

theorem declaredRoot?_of_isEmpty (hd : d.isEmpty = true) : d.declaredRoot? o = none := by
  simp [declaredRoot?, rootEntries, schemas, schemaExtensions, List.isEmpty_iff.mp hd]

end Document

theorem Scope.toOption_resolve (s : Scope) {n : String} (hn : n ∈ s.names) :
    (s.resolve n).toOption = some (s.ref n) := by
  have hk : s.knows n = true := s.knows_eq_true_iff.mpr (Or.inr hn)
  rw [resolve_eq_guard, guard_of_known _ (by simpa using hk)]
  rfl

namespace Snapshot

variable {s s' : Snapshot} {d : Document} {options : Options} {o : Operation}

def rootName? (s : Snapshot) (o : Operation) : Option String := (s.roots.get o).map Ref.name

def RootIs (s : Snapshot) (o : Operation) : Option String → Prop
  | none => s.roots.get o = none
  | some n => ∃ r, s.roots.get o = some r ∧ r.name = n ∧ s.Owns r

theorem Sound.rootIs (hs : s.Sound) (o : Operation) : s.RootIs o (s.rootName? o) := by
  unfold rootName?
  cases hr : s.roots.get o with
  | none => exact hr
  | some r => exact ⟨r, hr, rfl, hs.owns (hs.roots o r hr)⟩

theorem rootName?_extended (s : Snapshot) (d : Document) (options : Options) (o : Operation) :
    (s.extended d options).rootName? o = (d.declaredRoot? o).or (s.rootName? o) := by
  rw [rootName?, extended, Roots.get_declared, Roots.get_move, Option.map_or, Option.map_map,
    Option.map_map, Document.declaredRoot?, rootName?]
  rfl

theorem rootName?_of_extend (h : s.extend d options = .ok s') (o : Operation) :
    s'.rootName? o = (d.declaredRoot? o).or (s.rootName? o) := by
  cases hd : d.isEmpty with
  | true =>
      rw [extend_of_isEmpty hd] at h
      rw [← Except.ok.inj h, Document.declaredRoot?_of_isEmpty hd, Option.none_or]
  | false => rw [eq_extended hd h, rootName?_extended]

def conventional? (s : Snapshot) (o : Operation) : Option Ref :=
  if o.conventionalName ∈ s.registry.names then some (s.scope.ref o.conventionalName) else none

theorem get_conventionalRoot (s : Snapshot) (r : Roots) (o o' : Operation) :
    (s.conventionalRoot r o).get o' = if o = o' then (r.get o').or (s.conventional? o') else r.get o' := by
  by_cases ho : o = o'
  · subst ho
    unfold conventionalRoot conventional?
    cases hr : r.get o with
    | some x => simp [hr]
    | none =>
        by_cases hn : o.conventionalName ∈ s.registry.names
        · have hres := s.scope.toOption_resolve hn
          simp only [hr, hn, hres, Option.isNone_none, List.contains_iff_mem.mpr hn, Bool.and_self,
            if_true, Roots.get_set, Option.none_or]
        · simp [hr, hn]
  · unfold conventionalRoot
    rw [if_neg ho]
    dsimp only
    split
    · rw [Roots.get_set, if_neg ho]
    · rfl

theorem get_withConventionalRoots (hn : s.node = none) (o : Operation) :
    s.withConventionalRoots.roots.get o = (s.roots.get o).or (s.conventional? o) := by
  unfold withConventionalRoots
  rw [hn]
  cases o <;> simp [Operation.all, get_conventionalRoot]

theorem node_of_extend_empty (h : empty.extend d options = .ok s) : s.node = d.schemas.getLast? := by
  cases hd : d.isEmpty with
  | true =>
      rw [extend_of_isEmpty hd] at h
      simp [← Except.ok.inj h, empty, Document.schemas, List.isEmpty_iff.mp hd]
  | false =>
      rw [eq_extended hd h]
      exact Option.or_none

theorem mem_names_of_extend_empty (h : empty.extend d options = .ok s) (n : String) :
    n ∈ s.registry.names ↔ n ∈ d.types.map (·.name.text) := by
  cases hd : d.isEmpty with
  | true =>
      rw [extend_of_isEmpty hd] at h
      simp [← Except.ok.inj h, empty, registry, Registry.names, Registry.empty, Document.types,
        List.isEmpty_iff.mp hd]
  | false =>
      rw [eq_extended hd h, registry_extended, Registry.names_extended]
      exact (Registry.mem_names_nextScope empty.registry empty.nextHome d).trans
        (or_iff_right List.not_mem_nil)

theorem rootName?_of_build (h : Snapshot.build d options = .ok s) (o : Operation) :
    s.rootName? o = (d.declaredRoot? o).or (d.conventionalRoot? o) := by
  obtain ⟨t, ht, rfl⟩ := exists_of_build h
  have hdeclared : t.rootName? o = d.declaredRoot? o := by
    rw [rootName?_of_extend ht]
    cases o <;> exact Option.or_none
  have hnode := node_of_extend_empty ht
  change t.withConventionalRoots.rootName? o = _
  cases hl : d.schemas.getLast? with
  | some x =>
      have hne : d.schemas ≠ [] := by
        rintro he
        simp [he] at hl
      rw [withConventionalRoots, hnode, hl, Document.conventionalRoot?]
      simp [hne, hdeclared]
  | none =>
      have he : d.schemas = [] := List.getLast?_eq_none_iff.mp hl
      rw [rootName?, get_withConventionalRoots (hnode.trans hl), Option.map_or]
      rw [rootName?] at hdeclared
      rw [hdeclared, Document.conventionalRoot?, conventional?]
      simp only [he, List.isEmpty_nil, true_and, mem_names_of_extend_empty ht]
      split <;> rfl

theorem extend_congr {d d' : Document} (he : d.isEmpty = d'.isEmpty) (ht : d.types = d'.types)
    (hx : d.typeExtensions = d'.typeExtensions) (hd : d.directives = d'.directives)
    (hs : d.schema? = d'.schema?) (hsx : d.schemaExtensions = d'.schemaExtensions)
    (s : Snapshot) (options : Options) : s.extend d options = s.extend d' options := by
  simp only [extend, Registry.extend, Registry.seeds, Document.extensionsOf, Document.operations,
    he, ht, hx, hd, hs, hsx]

theorem extend_of_superseded (s : Snapshot) (xs ys : List Definition) (x : SchemaDef)
    (hy : (⟨ys⟩ : Document).schemas ≠ []) (options : Options) :
    s.extend ⟨xs ++ .schema x :: ys⟩ options = s.extend ⟨xs ++ ys⟩ options := by
  apply extend_congr
  · cases ys with
    | nil => exact absurd rfl hy
    | cons y ys => cases xs <;> rfl
  · simp [Document.types]
  · simp [Document.typeExtensions]
  · simp [Document.directives]
  · obtain ⟨z, hz⟩ := Option.ne_none_iff_exists'.mp fun h => hy (List.getLast?_eq_none_iff.mp h)
    simp only [Document.schemas] at hz
    simp [Document.schema?, Document.schemas, List.getLast?_append, List.getLast?_cons, hz]
  · simp [Document.schemaExtensions]

theorem roots_follow_last_declaration (hs : s.Reachable) (d : Document) (options : Options) :
    (∀ s', s.extend d options = .ok s' →
      ∀ o, s'.RootIs o ((d.declaredRoot? o).or (s.rootName? o))) ∧
    (∀ S, Schema.build d options = .ok S →
      ∀ o, S.snapshot.RootIs o ((d.declaredRoot? o).or (d.conventionalRoot? o))) ∧
    (∀ xs x ys, d.definitions = xs ++ .schema x :: ys → (⟨ys⟩ : Document).schemas ≠ [] →
      s.extend d options = s.extend ⟨xs ++ ys⟩ options ∧
      Snapshot.build d options = Snapshot.build ⟨xs ++ ys⟩ options) := by
  refine ⟨fun s' h o => ?_, fun S h o => ?_, fun xs x ys hd hy => ?_⟩
  · rw [← rootName?_of_extend h]
    exact (hs.sound.extend h).rootIs o
  · obtain ⟨-, t, ht, rfl⟩ := Schema.exists_of_build h
    rw [← rootName?_of_build ht]
    exact (sound_build ht).rootIs o
  · obtain ⟨xs'⟩ := d
    obtain rfl : xs' = xs ++ .schema x :: ys := hd
    refine ⟨extend_of_superseded s xs ys x hy options, ?_⟩
    rw [build_eq, build_eq, extend_of_superseded empty xs ys x hy]

end Snapshot

namespace Pets

def root (operation : Operation) (name : String) : OperationDef :=
  ⟨operation, Builtin.ident name, .nowhere⟩

def firstRoots : SchemaDef := ⟨none, [], [root .subscription "Pet"], .nowhere⟩

-- The extension stands before the definition that counts, and still its mutation wins.
def laterRoots : List Definition := [
  .schemaExtension ⟨none, [], [root .mutation "Pet"], .nowhere⟩,
  .schema ⟨none, [], [root .query "Pet", root .query "Query", root .mutation "Owner"], .nowhere⟩]

theorem roots_of_pets : snapshot.Reachable ∧
    (∃ s', snapshot.extend ⟨.schema firstRoots :: laterRoots⟩ .default = .ok s' ∧
      snapshot.extend ⟨laterRoots⟩ .default = .ok s' ∧
      s'.RootIs .query (some "Query") ∧ s'.RootIs .mutation (some "Pet") ∧
      s'.RootIs .subscription none) ∧
    ∃ S, Schema.build document .default = .ok S ∧ S.snapshot.RootIs .query (some "Query") ∧
      S.snapshot.RootIs .mutation none := by
  have hextend : snapshot.extend ⟨.schema firstRoots :: laterRoots⟩ .default = .ok _ :=
    Snapshot.extend_of_known rfl (by decide +kernel) .default
  obtain ⟨hroots, -, hsuperseded⟩ :=
    Snapshot.roots_follow_last_declaration reachable_snapshot ⟨.schema firstRoots :: laterRoots⟩ .default
  obtain ⟨-, hbuilt, -⟩ :=
    Snapshot.roots_follow_last_declaration reachable_snapshot document .default
  have hlater := (hsuperseded [] firstRoots laterRoots rfl (by decide)).1
  exact ⟨reachable_snapshot,
    ⟨_, hextend, hlater.symm.trans hextend, hroots _ hextend .query, hroots _ hextend .mutation,
      hroots _ hextend .subscription⟩,
    _, declare_schema, hbuilt _ declare_schema .query, hbuilt _ declare_schema .mutation⟩

end Pets

end SchemaGraph
