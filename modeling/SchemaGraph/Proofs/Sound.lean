import SchemaGraph.Proofs.Invariant
import SchemaGraph.Token.Fault

namespace SchemaGraph

namespace Roots

theorem get_set (r : Roots) (root : Option Ref) (o o' : Operation) :
    (r.set root o).get o' = if o = o' then root else r.get o' := by
  cases o <;> cases o' <;> rfl

@[simp] theorem get_move (s : Scope) (r : Roots) (o : Operation) :
    (r.move s).get o = (r.get o).map s.move := by
  cases o <;> rfl

theorem mem_names {r : Roots} {n : String} :
    n ∈ r.names ↔ ∃ o x, r.get o = some x ∧ x.name = n := by
  simp only [names, List.mem_map, List.mem_append, Option.mem_toList]
  constructor
  · rintro ⟨x, h | h | h, hn⟩
    · exact ⟨.query, x, h, hn⟩
    · exact ⟨.mutation, x, h, hn⟩
    · exact ⟨.subscription, x, h, hn⟩
  · rintro ⟨o, x, h, hn⟩
    cases o with
    | query => exact ⟨x, Or.inl h, hn⟩
    | mutation => exact ⟨x, Or.inr (Or.inl h), hn⟩
    | subscription => exact ⟨x, Or.inr (Or.inr h), hn⟩

theorem get_declared (s : Scope) (r : Roots) (ops : List OperationDef) (o : Operation) :
    (r.declared s ops).get o =
      ((ops.filter (·.operation = o)).getLast?.map fun op => s.place op.type).or (r.get o) := by
  induction ops using List.reverseRecOn with
  | nil => rfl
  | append_singleton ops op ih =>
      have hstep : r.declared s (ops ++ [op]) =
          (r.declared s ops).set (some (s.place op.type)) op.operation := by
        rw [declared, List.foldl_append]
        rfl
      rw [hstep, get_set, List.filter_append]
      by_cases ho : op.operation = o
      · simp [ho]
      · rw [if_neg ho, ih]
        simp [ho]

theorem mem_of_get_declared {s : Scope} {r : Roots} {ops : List OperationDef} {o : Operation} {x : Ref}
    (h : (r.declared s ops).get o = some x) :
    (∃ op ∈ ops, x = s.place op.type) ∨ r.get o = some x := by
  rw [get_declared] at h
  rcases Option.or_eq_some_iff.mp h with hl | ⟨-, hr⟩
  · obtain ⟨op, hop, he⟩ := Option.map_eq_some_iff.mp hl
    exact Or.inl ⟨op, List.mem_of_mem_filter (List.mem_of_getLast? hop), he.symm⟩
  · exact Or.inr hr

end Roots

namespace Directive

variable {sc : Scope}

theorem gives_of_move {x : Directive}
    (hk : ∀ n ∈ x.arguments.map (fun a => a.type.leaf.name), sc.knows n = true) :
    ∀ a ∈ (x.move sc).arguments, sc.Gives a.type.leaf := by
  intro a ha
  obtain ⟨b, hb, rfl⟩ := List.mem_map.mp ha
  rw [InputValue.move, TypeExpr.leaf_map]
  exact Scope.gives_ref (hk _ (List.mem_map_of_mem hb))

theorem gives_of_place {x : DirectiveDef} (hk : ∀ n ∈ placeMentions x, sc.knows n = true) :
    ∀ a ∈ (place sc x).arguments, sc.Gives a.type.leaf := by
  intro a ha
  obtain ⟨n, hn, he⟩ := InputValue.leaf_of_mem_placeAll ha
  rw [he]
  refine Scope.gives_ref (hk n ?_)
  rw [placeMentions, List.map_map]
  exact hn

end Directive

namespace Snapshot

structure Sound (s : Snapshot) : Prop where
  current : s.lineage.registries[s.generation]? = some s.registry
  unique : s.registry.names.Nodup
  entries : ∀ t ∈ s.registry.types, NamedType.Entry s.scope t
  roots : ∀ o r, s.roots.get o = some r → s.scope.Gives r
  directives : ∀ d ∈ s.directives, ∀ a ∈ d.arguments, s.scope.Admits a.type.leaf

theorem sound_empty : empty.Sound where
  current := rfl
  unique := List.nodup_nil
  entries := nofun
  roots o r h := by cases o <;> exact nomatch h
  directives := nofun

variable {s : Snapshot} {d : Document} {options : Options}

theorem registry_extended : (s.extended d options).registry = s.registry.extended s.nextHome d := by
  simp [registry, extended]

theorem scope_extended : (s.extended d options).scope = s.nextScope d := by
  rw [scope, registry_extended, Registry.names_extended]
  rfl

theorem names_subset_nextScope : s.scope.names ⊆ (s.nextScope d).names :=
  s.registry.names_subset_nextScope s.nextHome d

theorem mem_directives_extended (hk : ∀ n ∈ s.mentions d, (s.nextScope d).knows n = true)
    {x : Directive} (hx : x ∈ (s.extended d options).directives) :
    (x ∈ s.directives ∧ Builtin.isDirective x.name = true) ∨
      ∀ a ∈ x.arguments, (s.nextScope d).Gives a.type.leaf := by
  simp only [mentions, List.forall_mem_append] at hk
  obtain ⟨-, hcarried, hadded, -⟩ := hk
  rcases List.mem_append.mp hx with hm | hm
  · obtain ⟨y, hy, rfl⟩ := List.mem_map.mp hm
    have hky : ∀ n ∈ y.carryMentions, (s.nextScope d).knows n = true := fun n hn =>
      hcarried n (List.mem_flatMap.mpr ⟨y, hy, hn⟩)
    by_cases hb : Builtin.isDirective y.name = true
    · rw [Directive.carried, if_pos hb]
      exact Or.inl ⟨hy, hb⟩
    · rw [Directive.carryMentions, if_neg hb] at hky
      rw [Directive.carried, if_neg hb]
      exact Or.inr (Directive.gives_of_move hky)
  · obtain ⟨y, hy, rfl⟩ := List.mem_map.mp hm
    exact Or.inr (Directive.gives_of_place fun n hn => hadded n (List.mem_flatMap.mpr ⟨y, hy, hn⟩))

theorem Sound.extended (hs : s.Sound) (hall : ∀ n ∈ s.mentions d, (s.nextScope d).knows n = true) :
    (s.extended d options).Sound := by
  have hk := hall
  simp only [mentions, List.forall_mem_append] at hk
  obtain ⟨htypes, -, -, hroots, hops⟩ := hk
  constructor
  · rw [registry_extended]
    exact List.getElem?_concat_length
  · rw [registry_extended]
    exact Registry.nodup_names_extended _ _ _
  · rw [scope_extended, registry_extended]
    exact Registry.entry_extended hs.entries htypes
  · rw [scope_extended]
    intro o r hr
    rcases Roots.mem_of_get_declared hr with ⟨op, hop, rfl⟩ | hm
    · exact Scope.gives_ref (hops _ (List.mem_map_of_mem hop))
    · rw [Roots.get_move] at hm
      obtain ⟨x, hx, rfl⟩ := Option.map_eq_some_iff.mp hm
      exact Scope.gives_ref (hroots _ (Roots.mem_names.mpr ⟨o, x, hx, rfl⟩))
  · rw [scope_extended]
    intro x hx a ha
    rcases mem_directives_extended hall hx with ⟨hm, -⟩ | hg
    · exact (hs.directives x hm a ha).mono names_subset_nextScope
    · exact (hg a ha).admits

theorem Sound.extend {s' : Snapshot} (hs : s.Sound) (h : s.extend d options = .ok s') : s'.Sound := by
  cases hd : d.isEmpty with
  | true =>
      rw [extend_of_isEmpty hd] at h
      exact Except.ok.inj h ▸ hs
  | false =>
      rw [extend_eq_guard hd, Scope.guard_eq_ok_iff] at h
      exact h.2 ▸ hs.extended h.1

theorem Sound.withRoots (hs : s.Sound) {roots : Roots}
    (hr : ∀ o r, roots.get o = some r → s.scope.Gives r) : { s with roots := roots }.Sound where
  current := hs.current
  unique := hs.unique
  entries := hs.entries
  roots := hr
  directives := hs.directives

theorem gives_conventionalRoot {roots : Roots}
    (hr : ∀ o r, roots.get o = some r → s.scope.Gives r) (operation : Operation) :
    ∀ o r, (s.conventionalRoot roots operation).get o = some r → s.scope.Gives r := by
  intro o r h
  unfold conventionalRoot at h
  dsimp only at h
  split at h
  · rename_i hc
    rw [Bool.and_eq_true] at hc
    have hk : s.scope.knows operation.conventionalName = true :=
      s.scope.knows_eq_true_iff.mpr (Or.inr (List.contains_iff_mem.mp hc.2))
    rw [Roots.get_set] at h
    split at h
    · rw [Scope.resolve_eq_guard, Scope.guard_of_known _ (by simpa using hk)] at h
      exact Option.some.inj h ▸ Scope.gives_ref hk
    · exact hr o r h
  · exact hr o r h

theorem exists_withConventionalRoots (s : Snapshot) :
    ∃ roots, s.withConventionalRoots = { s with roots := roots } := by
  unfold withConventionalRoots
  split
  · exact ⟨s.roots, rfl⟩
  · exact ⟨_, rfl⟩

theorem Sound.withConventionalRoots (hs : s.Sound) : s.withConventionalRoots.Sound := by
  unfold Snapshot.withConventionalRoots
  split
  · exact hs
  · refine hs.withRoots ?_
    generalize Operation.all = operations
    have hr := hs.roots
    generalize s.roots = roots at hr
    induction operations generalizing roots with
    | nil => exact hr
    | cons o os ih => exact ih _ (gives_conventionalRoot hr o)

theorem Sound.withSpecifiedDirectives (hs : s.Sound) : s.withSpecifiedDirectives.Sound where
  current := hs.current
  unique := hs.unique
  entries := hs.entries
  roots := hs.roots
  directives := by
    intro x hx a ha
    rcases List.mem_append.mp hx with hm | hm
    · exact hs.directives x hm a ha
    · exact Or.inl (Builtin.builtin_of_mem_arguments (List.mem_of_mem_filter hm) ha)

theorem build_eq (d : Document) (options : Options) : build d options =
    (empty.extend d options).map fun s => s.withConventionalRoots.withSpecifiedDirectives := by
  unfold build
  cases empty.extend d options <;> rfl

theorem exists_of_build (h : build d options = .ok s) : ∃ t, empty.extend d options = .ok t ∧
    s = t.withConventionalRoots.withSpecifiedDirectives := by
  obtain ⟨t, ht, h⟩ := exists_of_bind_eq_ok h
  exact ⟨t, ht, (Except.ok.inj h).symm⟩

theorem sound_build (h : build d options = .ok s) : s.Sound := by
  obtain ⟨t, ht, rfl⟩ := exists_of_build h
  exact (sound_empty.extend ht).withConventionalRoots.withSpecifiedDirectives

end Snapshot

end SchemaGraph
