import SchemaGraph.Proofs.Report

namespace SchemaGraph

namespace Scope

variable {s : Scope} {r : Ref}

theorem gives_of_builtin (hb : Builtin.isBuiltin r.name = true) (hh : r.home = .builtin) : s.Gives r := by
  refine ⟨s.knows_eq_true_iff.mpr (Or.inl hb), ?_⟩
  rw [ref, if_pos hb, ← hh]

end Scope

namespace Lineage

inductive Holds (l : Lineage) (r : Ref) : Prop where
  | builtin (hb : Builtin.isBuiltin r.name = true) (hh : r.home = .builtin)
  | declared (hb : Builtin.isBuiltin r.name = false) {i : Nat} (hi : i < l.registries.length)
      (hh : r.home = .generation i)

variable {l : Lineage} {r : Ref}

theorem Holds.append (h : l.Holds r) (more : List Registry) :
    (⟨l.registries ++ more⟩ : Lineage).Holds r := by
  cases h with
  | builtin hb hh => exact .builtin hb hh
  | declared hb hi hh =>
      refine .declared hb ?_ hh
      rw [List.length_append]
      exact Nat.lt_add_right _ hi

theorem Holds.resolve?_append (h : l.Holds r) (more : List Registry) :
    (⟨l.registries ++ more⟩ : Lineage).resolve? r = l.resolve? r := by
  unfold resolve?
  cases h with
  | builtin _ hh => rw [hh]
  | declared _ hi hh =>
      rw [hh]
      dsimp only
      rw [List.getElem?_append_left hi]

end Lineage

namespace Snapshot

variable {s : Snapshot} {d : Document} {o : Options}

theorem Sound.generation_lt (hs : s.Sound) : s.generation < s.lineage.registries.length :=
  (List.getElem?_eq_some_iff.mp hs.current).1

theorem Sound.holds_of_gives (hs : s.Sound) {r : Ref} (hr : s.scope.Gives r) : s.lineage.Holds r := by
  have hhome := (hs.owns hr).home
  cases hb : Builtin.isBuiltin r.name with
  | true =>
      rw [hb, if_pos rfl] at hhome
      exact .builtin hb hhome
  | false =>
      rw [hb, if_neg Bool.false_ne_true] at hhome
      exact .declared hb hs.generation_lt hhome

def Anchored (s : Snapshot) : Prop := ∀ x ∈ s.directives, ∀ a ∈ x.arguments, s.lineage.Holds a.type.leaf

theorem Anchored.extended (ha : s.Anchored) (hs : (s.extended d o).Sound)
    (hk : ∀ n ∈ s.mentions d, (s.nextScope d).knows n = true) : (s.extended d o).Anchored := by
  intro x hx a hm
  rcases mem_directives_extended hk hx with ⟨hold, -⟩ | hg
  · exact (ha x hold a hm).append _
  · refine hs.holds_of_gives ?_
    rw [scope_extended]
    exact hg a hm

theorem Anchored.extend {s' : Snapshot} (ha : s.Anchored) (hs : s.Sound)
    (h : s.extend d o = .ok s') : s'.Anchored := by
  have hs' := hs.extend h
  cases hd : d.isEmpty with
  | true =>
      rw [extend_of_isEmpty hd] at h
      exact Except.ok.inj h ▸ ha
  | false =>
      rw [extend_eq_guard hd, Scope.guard_eq_ok_iff] at h
      obtain ⟨hk, rfl⟩ := h
      exact ha.extended hs' hk

theorem Anchored.withConventionalRoots (ha : s.Anchored) : s.withConventionalRoots.Anchored := by
  unfold Snapshot.withConventionalRoots
  split <;> exact ha

theorem Anchored.withSpecifiedDirectives (ha : s.Anchored) : s.withSpecifiedDirectives.Anchored := by
  intro x hx a hm
  rcases List.mem_append.mp hx with hold | hspec
  · exact ha x hold a hm
  · obtain ⟨hb, hh⟩ := Builtin.builtin_of_mem_arguments (List.mem_of_mem_filter hspec) hm
    exact .builtin hb hh

end Snapshot

namespace Schema

variable {base : Option Schema} {S : Schema} {d : Document} {o : Options}

theorem Reachable.anchored (hS : S.Reachable) : S.snapshot.Anchored := by
  induction hS with
  | build h =>
      obtain ⟨-, s, hs, rfl⟩ := exists_of_build h
      obtain ⟨t, ht, rfl⟩ := Snapshot.exists_of_build hs
      have hempty : Snapshot.empty.Anchored := nofun
      exact (hempty.extend Snapshot.sound_empty ht).withConventionalRoots.withSpecifiedDirectives
  | extend hS h ih =>
      obtain ⟨-, ⟨-, rfl⟩ | ⟨-, s, hs, rfl⟩⟩ := exists_of_extend h
      · exact ih
      · exact ih.extend hS.sound hs

theorem anchored_under (hb : ∀ B ∈ base, B.Reachable) : (under base).Anchored := by
  cases base with
  | none => exact nofun
  | some B => exact (hb B rfl).anchored

theorem mem_directives_completed {s : Snapshot} (h : (under base).extend d o = .ok s) {x : Directive}
    (hx : x ∈ (completed base d s).snapshot.directives) : x ∈ s.directives ∨ x ∈ Builtin.directives := by
  cases base with
  | none =>
      obtain ⟨roots, he⟩ := s.exists_withConventionalRoots
      rw [completed, he] at hx
      exact (List.mem_append.mp hx).imp id List.mem_of_mem_filter
  | some B =>
      rw [completed] at hx
      cases hd : d.isEmpty with
      | true =>
          rw [if_pos hd] at hx
          rw [Snapshot.extend_of_isEmpty hd] at h
          exact Or.inl (Except.ok.inj h ▸ hx)
      | false =>
          rw [if_neg (by simp [hd])] at hx
          exact Or.inl hx

theorem mem_directives_declared (hd : base = none ∨ d.isEmpty = false)
    (h : declare base d o = .ok S) {x : Directive} (hx : x ∈ S.snapshot.directives) :
    (x ∈ (under base).directives ∧ Builtin.isDirective x.name = true) ∨
      ∀ a ∈ x.arguments, S.snapshot.scope.Gives a.type.leaf := by
  obtain ⟨-, s, hs, rfl⟩ := declare_eq_ok_iff.mp h
  rcases mem_directives_completed hs hx with hm | hm
  · cases he : d.isEmpty with
    | true =>
        obtain rfl := hd.resolve_right (by simp [he])
        rw [Snapshot.extend_of_isEmpty he] at hs
        exact absurd (Except.ok.inj hs ▸ hm) List.not_mem_nil
    | false =>
        rw [Snapshot.extend_eq_guard he, Scope.guard_eq_ok_iff] at hs
        obtain ⟨hk, rfl⟩ := hs
        refine (Snapshot.mem_directives_extended hk hm).imp id fun hg a ha => ?_
        rw [scope_completed (Snapshot.extend_of_known he hk o), Snapshot.scope_extended]
        exact hg a ha
  · refine Or.inr fun a ha => ?_
    obtain ⟨hb, hh⟩ := Builtin.builtin_of_mem_arguments hm ha
    exact Scope.gives_of_builtin hb hh

theorem lineage_declared {x : Directive} (hx : x ∈ (under base).directives)
    (hd : base = none ∨ d.isEmpty = false) (h : declare base d o = .ok S) :
    S.snapshot.generation = (under base).lineage.registries.length ∧
      ∃ r, S.snapshot.lineage = ⟨(under base).lineage.registries ++ [r]⟩ := by
  have hne : d.isEmpty = false := by
    refine hd.resolve_left ?_
    rintro rfl
    exact List.not_mem_nil hx
  obtain ⟨-, s, hs, rfl⟩ := declare_eq_ok_iff.mp h
  obtain ⟨hl, hg⟩ := lineage_completed hs
  obtain rfl := Snapshot.eq_extended hne hs
  exact ⟨hg, _, hl⟩

theorem owns_argument_iff (hb : ∀ B ∈ base, B.Reachable) (hd : base = none ∨ d.isEmpty = false)
    (h : declare base d o = .ok S) {x : Directive} (hx : x ∈ S.snapshot.directives) {a : InputValue}
    (ha : a ∈ x.arguments) :
    (S.snapshot.Owns a.type.leaf ↔ (Builtin.isDirective x.name = true → x ∈ (under base).directives →
      Builtin.isBuiltin a.type.leaf.name = true)) ∧
    (¬S.snapshot.Owns a.type.leaf →
      S.snapshot.lineage.resolve? a.type.leaf = (under base).lineage.resolve? a.type.leaf) := by
  have hsound := (reachable_of_declare hb h).sound
  have horigin := mem_directives_declared hd h hx
  refine ⟨⟨fun how _ hold => ?_, fun hbuiltin => ?_⟩, fun hnot => ?_⟩
  · cases anchored_under hb x hold a ha with
    | builtin hb' _ => exact hb'
    | declared hb' hi hh =>
        -- the schema owns what refers into its own registry, and that one is new
        have hhome := how.home
        rw [hb', if_neg Bool.false_ne_true, hh, (lineage_declared hold hd h).1] at hhome
        exact absurd (Home.generation.inj hhome) (Nat.ne_of_lt hi)
  · rcases horigin with ⟨hold, hdir⟩ | hg
    · cases anchored_under hb x hold a ha with
      | builtin hb' hh => exact hsound.owns (Scope.gives_of_builtin hb' hh)
      | declared hb' _ _ => exact absurd (hbuiltin hdir hold) (by simp [hb'])
    · exact hsound.owns (hg a ha)
  · rcases horigin with ⟨hold, -⟩ | hg
    · obtain ⟨-, r, hl⟩ := lineage_declared hold hd h
      rw [hl, (anchored_under hb x hold a ha).resolve?_append]
    · exact absurd (hsound.owns (hg a ha)) hnot

end Schema

namespace Pets

def coat (tags : List String) : TypeDef := ⟨Builtin.ident "Coat", none, [], Builtin.tags tags, .nowhere⟩

def byCoat (name : String) : DirectiveDef :=
  ⟨Builtin.ident name, none, [Builtin.input "coat" "Coat" (some (.enum "LONG"))], false, [.field], .nowhere⟩

def shortCoats : Document := ⟨[.type (coat ["SHORT"]), .directive (byCoat "skip"), .directive (byCoat "groom")]⟩

def longCoats : Document := ⟨[.typeExtension (coat ["LONG"])]⟩

def shorthaired : Schema :=
  (Snapshot.empty.extended shortCoats .default).withConventionalRoots.withSpecifiedDirectives.toSchema

def longhaired : Schema := (shorthaired.snapshot.extended longCoats .default).toSchema

theorem declare_shorthaired : Schema.declare none shortCoats .default = .ok shorthaired :=
  Schema.declare_of_validate (by simp) (by decide +kernel) rfl .default

theorem reachable_shorthaired : shorthaired.Reachable :=
  Schema.Reachable.build declare_shorthaired

theorem declare_longhaired : Schema.declare (some shorthaired) longCoats .default = .ok longhaired := by
  have hvalid : validate longCoats (some shorthaired) = [] := by
    rw [reachable_shorthaired.validate_eq (by decide +kernel)]
    decide +kernel
  exact Schema.declare_of_validate reachable_shorthaired.forall_mem_some hvalid rfl .default

theorem reachable_longhaired : longhaired.Reachable :=
  reachable_shorthaired.extend declare_longhaired

def tagsOf (t : NamedType) : List String := t.body.variants.map Variant.name

theorem skip_knows_short_coats_only : longhaired.Reachable ∧
    ∃ x ∈ longhaired.snapshot.directives, x.name = "skip" ∧ ∃ a ∈ x.arguments,
      (longhaired.snapshot.lineage.resolve? a.type.leaf).map tagsOf = some ["SHORT"] ∧
      (longhaired.snapshot.registry.lookup a.type.leaf.name).map tagsOf = some ["SHORT", "LONG"] ∧
      ¬longhaired.snapshot.Owns a.type.leaf := by
  refine ⟨reachable_longhaired, _, List.mem_cons_self, rfl, _, List.mem_cons_self, ?_, ?_, ?_⟩
  · decide +kernel
  · decide +kernel
  · exact fun h => absurd h.home (by decide +kernel)

theorem groom_knows_all_coats : Schema.declare (some shorthaired) longCoats .default = .ok longhaired ∧
    (∃ x ∈ longhaired.snapshot.directives, x.name = "groom" ∧
      ∃ a ∈ x.arguments, longhaired.snapshot.Owns a.type.leaf) ∧
    ∃ x ∈ longhaired.snapshot.directives, x.name = "skip" ∧
      ∃ a ∈ x.arguments, ¬longhaired.snapshot.Owns a.type.leaf := by
  have hbase := reachable_shorthaired.forall_mem_some
  refine ⟨declare_longhaired,
    ⟨_, List.mem_cons_of_mem _ List.mem_cons_self, rfl, _, List.mem_cons_self, ?_⟩,
    ⟨_, List.mem_cons_self, rfl, _, List.mem_cons_self, ?_⟩⟩
  · refine (Schema.owns_argument_iff hbase (Or.inr rfl) declare_longhaired
      (List.mem_cons_of_mem _ List.mem_cons_self) List.mem_cons_self).1.mpr fun hdir => ?_
    exact absurd hdir (by decide +kernel)
  · intro how
    have hiff := (Schema.owns_argument_iff hbase (Or.inr rfl) declare_longhaired
      List.mem_cons_self List.mem_cons_self).1.mp how
    exact absurd (hiff (by decide +kernel) List.mem_cons_self) (by decide +kernel)

end Pets

end SchemaGraph
