import SchemaGraph.Proofs.Concat
import SchemaGraph.Proofs.Reach
import SchemaGraph.Proofs.Report

namespace SchemaGraph

theorem Scope.eq_of_home {α : Type} (f : Scope → α)
    (hf : ∀ names names' home, f ⟨names, home⟩ = f ⟨names', home⟩) {s s' : Scope} (h : s.home = s'.home) :
    f s = f s' := by
  obtain ⟨names, home⟩ := s
  obtain ⟨names', home'⟩ := s'
  obtain rfl : home = home' := h
  exact hf names names' home

section Home

variable {s s' : Scope} (h : s.home = s'.home)
include h

theorem Seed.entry_congr (extensions : List TypeDef) : entry s extensions = entry s' extensions :=
  Scope.eq_of_home (entry · extensions) (fun _ _ _ => rfl) h

theorem Directive.place_congr : place s = place s' := Scope.eq_of_home place (fun _ _ _ => rfl) h

theorem Directive.carried_congr : carried s = carried s' := Scope.eq_of_home carried (fun _ _ _ => rfl) h

theorem Roots.declared_congr (r : Roots) (ops : List OperationDef) :
    (r.move s).declared s ops = (r.move s').declared s' ops :=
  Scope.eq_of_home (fun sc => (r.move sc).declared sc ops) (fun _ _ _ => rfl) h

end Home

namespace Document

structure Rearranges (d d' : Document) : Prop where
  definitions : d.definitions.Perm d'.definitions
  extensionsOf : ∀ n, d.extensionsOf n = d'.extensionsOf n
  schemaExtensions : d.schemaExtensions = d'.schemaExtensions

namespace Rearranges

variable {d d' : Document} (h : d.Rearranges d')
include h

theorem symm : d'.Rearranges d :=
  ⟨h.definitions.symm, fun n => (h.extensionsOf n).symm, h.schemaExtensions.symm⟩

theorem types : d.types.Perm d'.types := h.definitions.filterMap _

theorem typeExtensions : d.typeExtensions.Perm d'.typeExtensions := h.definitions.filterMap _

theorem directives : d.directives.Perm d'.directives := h.definitions.filterMap _

theorem schemas : d.schemas.Perm d'.schemas := h.definitions.filterMap _

theorem isEmpty : d.isEmpty = d'.isEmpty := h.definitions.isEmpty_eq

theorem typeNames_subset : d.typeNames ⊆ d'.typeNames := by
  intro n hn
  obtain ⟨x, hx, hm⟩ := mem_typeNames.mp hn
  exact mem_typeNames.mpr ⟨x, h.definitions.mem_iff.mp hx, hm⟩

theorem definition?_eq (hn : (d.types.map (·.name.text)).Nodup) (n : String) :
    d.definition? n = d'.definition? n := by
  rw [definition?, definition?, Keyed.filter_eq_of_perm (fun x : TypeDef => x.name.text) h.types hn]

theorem schemas_eq (hl : d.schemas.length ≤ 1) : d.schemas = d'.schemas := by
  have hp := h.schemas
  match hd : d.schemas with
  | [] =>
      rw [hd] at hp
      exact (List.nil_perm.mp hp).symm
  | [x] =>
      rw [hd] at hp
      exact List.singleton_perm.mp hp
  | _ :: _ :: _ =>
      rw [hd] at hl
      exact absurd hl (by simp)

theorem operations_eq (hl : d.schemas.length ≤ 1) : d.operations = d'.operations := by
  rw [operations, operations, schema?, schema?, h.schemas_eq hl, h.schemaExtensions]

end Rearranges

theorem rearranges_concat {a b : Document}
    (ht : ∀ e ∈ a.typeExtensions, ∀ f ∈ b.typeExtensions, e.name.text ≠ f.name.text)
    (hs : a.schemaExtensions = [] ∨ b.schemaExtensions = []) :
    (concat [a, b]).Rearranges (concat [b, a]) where
  definitions := by
    rw [definitions_concat, definitions_concat]
    exact List.perm_append_comm
  extensionsOf n := by
    rw [extensionsOf_concat, extensionsOf_concat]
    cases ha : a.extensionsOf n with
    | nil => rw [List.nil_append, List.append_nil]
    | cons e es =>
        have hb : b.extensionsOf n = [] := by
          refine List.eq_nil_iff_forall_not_mem.mpr fun f hf => ?_
          obtain ⟨he, hn⟩ := mem_extensionsOf.mp (ha ▸ List.mem_cons_self : e ∈ a.extensionsOf n)
          obtain ⟨hf, hm⟩ := mem_extensionsOf.mp hf
          exact ht e he f hf (hn.trans hm.symm)
        rw [hb, List.append_nil, List.nil_append]
  schemaExtensions := by
    rw [schemaExtensions_concat, schemaExtensions_concat]
    rcases hs with ha | hb
    · rw [ha, List.nil_append, List.append_nil]
    · rw [hb, List.append_nil, List.nil_append]

end Document

namespace Validation

variable {d d' : Document} {base : Option Schema}

theorem uniqueNames_eq_nil_of_perm {exists? : String → Bool} {existing duplicate : String → Problem}
    {names names' : List String} (hp : names.Perm names')
    (h : uniqueNames exists? existing duplicate [] names = []) :
    uniqueNames exists? existing duplicate [] names' = [] := by
  obtain ⟨hfresh, hn⟩ := uniqueNames_eq_nil_iff.mp h
  exact uniqueNames_eq_nil_iff.mpr ⟨fun n hm => hfresh n (hp.mem_iff.mpr hm), hp.nodup_iff.mp hn⟩

namespace Clean

variable (hc : Clean d base) (h : d.Rearranges d')
include hc h

theorem allowed?_eq (n : String) : allowed? d base n = allowed? d' base n := by
  rw [allowed?, allowed?, Keyed.filter_eq_of_perm (fun x : DirectiveDef => x.name.text) h.directives
    hc.nodup_directives]

theorem targetKind?_eq (n : String) : targetKind? d base n = targetKind? d' base n := by
  have hd := h.definition?_eq hc.nodup_types n
  rw [Document.definition?, Document.definition?] at hd
  rw [targetKind?, targetKind?, hd]

theorem rearranged : Clean d' base where
  loneSchema := by
    have hl := loneSchema_eq_nil_iff.mp hc.loneSchema
    rw [h.schemas_eq hl.2] at hl
    exact loneSchema_eq_nil_iff.mpr hl
  uniqueTypes := uniqueNames_eq_nil_of_perm (h.types.map _) hc.uniqueTypes
  uniqueDirectives := uniqueNames_eq_nil_of_perm (h.directives.map _) hc.uniqueDirectives
  knownTypes := by
    refine knownTypes_eq_nil_iff.mpr fun n hn => ?_
    have hk := knownTypes_eq_nil_iff.mp hc.knownTypes n (h.symm.typeNames_subset hn)
    rw [isKnownType, h.types.any_eq] at hk
    exact hk
  knownDirectives := by
    refine knownDirectives_eq_nil_iff.mpr fun site hsite x hx => ?_
    have hm := (h.definitions.flatMap_right Definition.sites).mem_iff.mpr hsite
    have hnone := knownDirectives_eq_nil_iff.mp hc.knownDirectives site hm x hx
    rw [checkApplied_eq_none_iff, hc.allowed?_eq h] at hnone
    exact checkApplied_eq_none_iff.mpr hnone
  typeExtensions := by
    refine List.filterMap_eq_nil_iff.mpr fun e he => ?_
    have hm := h.typeExtensions.mem_iff.mpr he
    have hnone := List.filterMap_eq_nil_iff.mp hc.typeExtensions e hm
    rw [checkExtension_eq_none_iff, hc.targetKind?_eq h] at hnone
    exact checkExtension_eq_none_iff.mpr hnone

end Clean

end Validation

namespace Snapshot

structure SameButOrder (s s' : Snapshot) : Prop where
  names : s.registry.names.Perm s'.registry.names
  types : ∀ n, s.registry.get? n = s'.registry.get? n
  directives : s.directives.Perm s'.directives
  resolve : ∀ r, s.lineage.resolve? r = s'.lineage.resolve? r
  generation : s.generation = s'.generation
  description : s.description = s'.description
  roots : s.roots = s'.roots
  remarks : s.remarks = s'.remarks
  node : s.node = s'.node
  extensions : s.extensions = s'.extensions
  assumeValid : s.assumeValid = s'.assumeValid

variable {s s' : Snapshot} {d d' : Document}

theorem SameButOrder.refl (s : Snapshot) : s.SameButOrder s where
  names := List.Perm.refl _
  types _ := rfl
  directives := List.Perm.refl _
  resolve _ := rfl
  generation := rfl
  description := rfl
  roots := rfl
  remarks := rfl
  node := rfl
  extensions := rfl
  assumeValid := rfl

theorem names_extended_rearranged (s : Snapshot) (h : d.Rearranges d') :
    (s.registry.extended s.nextHome d).names.Perm (s.registry.extended s.nextHome d').names := by
  refine (List.perm_ext_iff_of_nodup ?_ ?_).mpr fun n => ?_
  · exact Registry.nodup_names_extended _ _ _
  · exact Registry.nodup_names_extended _ _ _
  · rw [Registry.names_extended, Registry.names_extended]
    have hmem (x : Document) : n ∈ (s.registry.seeds x).map Seed.name ↔
        n ∈ s.registry.names ∨ n ∈ x.types.map (·.name.text) :=
      s.registry.mem_names_nextScope s.nextHome x
    rw [hmem, hmem, (h.types.map _).mem_iff]

section Extended

variable (hu : s.registry.names.Nodup) (hd : (d.types.map (·.name.text)).Nodup) (h : d.Rearranges d')
include hu hd h

theorem get?_extended_rearranged (n : String) : (s.registry.extended s.nextHome d).get? n =
    (s.registry.extended s.nextHome d').get? n := by
  have hhome : (s.registry.nextScope s.nextHome d).home = (s.registry.nextScope s.nextHome d').home := rfl
  rw [Registry.get?_extended, Registry.get?_extended, Registry.get?_seeds hu, Registry.get?_seeds hu,
    h.definition?_eq hd, h.extensionsOf, Seed.entry_congr hhome]

theorem resolve?_extended_rearranged (r : Ref) :
    (⟨s.lineage.registries ++ [s.registry.extended s.nextHome d]⟩ : Lineage).resolve? r =
      (⟨s.lineage.registries ++ [s.registry.extended s.nextHome d']⟩ : Lineage).resolve? r := by
  unfold Lineage.resolve?
  cases r.home with
  | builtin => rfl
  | generation i =>
      dsimp only
      rw [List.getElem?_append, List.getElem?_append]
      split
      · rfl
      · -- only the new registry differs
        cases i - s.lineage.registries.length with
        | zero => exact get?_extended_rearranged hu hd h r.name
        | succ => rfl

theorem sameButOrder_extended (hl : d.schemas.length ≤ 1) (o : Options) :
    (s.extended d o).SameButOrder (s.extended d' o) where
  names := by
    rw [registry_extended, registry_extended]
    exact s.names_extended_rearranged h
  types n := by
    rw [registry_extended, registry_extended]
    exact get?_extended_rearranged hu hd h n
  directives := by
    have hhome : (s.nextScope d).home = (s.nextScope d').home := rfl
    rw [extended, extended, Directive.carried_congr hhome, Directive.place_congr hhome]
    exact (h.directives.map _).append_left _
  resolve := resolve?_extended_rearranged hu hd h
  generation := rfl
  description := by rw [extended, extended, Document.schema?, Document.schema?, h.schemas_eq hl]
  roots := by
    rw [extended, extended, h.operations_eq hl]
    exact Roots.declared_congr rfl _ _
  remarks := rfl
  node := by rw [extended, extended, Document.schema?, Document.schema?, h.schemas_eq hl]
  extensions := by rw [extended, extended, h.schemaExtensions]
  assumeValid := rfl

end Extended

namespace SameButOrder

variable (h : s.SameButOrder s')
include h

theorem conventionalRoot_eq : s.conventionalRoot = s'.conventionalRoot := by
  funext roots operation
  have hn (n : String) : s.registry.names.contains n = s'.registry.names.contains n :=
    h.names.contains_eq
  have hr : s.scope.resolve = s'.scope.resolve := by
    funext n
    rw [Scope.resolve, Scope.resolve, scope, scope, hn, h.generation]
  rw [conventionalRoot, conventionalRoot, hn, hr]

theorem withConventionalRoots : s.withConventionalRoots.SameButOrder s'.withConventionalRoots := by
  have hnode : s.node.isSome = s'.node.isSome := by rw [h.node]
  rw [Snapshot.withConventionalRoots, Snapshot.withConventionalRoots, hnode]
  split
  · exact h
  · refine { h with roots := ?_ }
    rw [h.roots, h.conventionalRoot_eq]

theorem withSpecifiedDirectives :
    s.withSpecifiedDirectives.SameButOrder s'.withSpecifiedDirectives := by
  refine { h with directives := ?_ }
  have ha (n : String) : s.directives.any (·.name == n) = s'.directives.any (·.name == n) :=
    h.directives.any_eq
  rw [Snapshot.withSpecifiedDirectives, Snapshot.withSpecifiedDirectives]
  simp only [ha]
  exact h.directives.append_right _

theorem lookup_eq (n : String) : s.registry.lookup n = s'.registry.lookup n := by
  rw [Registry.lookup, Registry.lookup, h.types]

theorem symm : s'.SameButOrder s where
  names := h.names.symm
  types n := (h.types n).symm
  directives := h.directives.symm
  resolve r := (h.resolve r).symm
  generation := h.generation.symm
  description := h.description.symm
  roots := h.roots.symm
  remarks := h.remarks.symm
  node := h.node.symm
  extensions := h.extensions.symm
  assumeValid := h.assumeValid.symm

theorem seeds_subset : s.seeds ⊆ s'.seeds := by
  refine List.Perm.subset ?_
  rw [seeds, seeds, h.generation]
  exact ((h.names.map _).append (h.directives.flatMap_right _)).append_right _

theorem reaches_iff (n : String) : s.Reaches n ↔ s'.Reaches n :=
  ⟨.imp h.seeds_subset h.lookup_eq, .imp h.symm.seeds_subset h.symm.lookup_eq⟩

end SameButOrder

end Snapshot

namespace Schema

structure SameButOrder (S S' : Schema) : Prop where
  snapshot : S.snapshot.SameButOrder S'.snapshot
  names : (S.typeMap.map NamedType.name).Perm (S'.typeMap.map NamedType.name)
  types : ∀ n, S.type? n = S'.type? n

theorem SameButOrder.refl (S : Schema) : S.SameButOrder S :=
  ⟨.refl _, .refl _, fun _ => rfl⟩

end Schema

namespace Snapshot

variable {s s' : Snapshot}

theorem SameButOrder.toSchema (h : s.SameButOrder s') (hs : s.Sound) (hs' : s'.Sound) :
    s.toSchema.SameButOrder s'.toSchema where
  snapshot := h
  names := by
    refine (List.perm_ext_iff_of_nodup s.nodup_names_typeMap s'.nodup_names_typeMap).mpr fun n => ?_
    rw [hs.mem_names_typeMap_iff, hs'.mem_names_typeMap_iff, h.reaches_iff]
  types n := by
    ext t
    rw [hs.type?_eq_some_iff, hs'.type?_eq_some_iff, h.reaches_iff, h.lookup_eq]

end Snapshot

namespace Schema

open Validation

variable {base : Option Schema} {d d' : Document}

theorem sameButOrder_extend (hg : Grounded base) (hc : Clean d base) (h : d.Rearranges d')
    {o : Options} {s s' : Snapshot} (hs : (under base).extend d o = .ok s)
    (hs' : (under base).extend d' o = .ok s') : s.SameButOrder s' := by
  cases hd : d.isEmpty with
  | true =>
      rw [Snapshot.extend_of_isEmpty hd] at hs
      rw [Snapshot.extend_of_isEmpty (h.isEmpty ▸ hd)] at hs'
      exact Except.ok.inj hs ▸ Except.ok.inj hs' ▸ .refl _
  | false =>
      obtain rfl := Snapshot.eq_extended hd hs
      obtain rfl := Snapshot.eq_extended (h.isEmpty ▸ hd) hs'
      exact Snapshot.sameButOrder_extended hg.sound.unique hc.nodup_types h hc.schemas_length_le o

theorem sameButOrder_completed (hd : d.isEmpty = d'.isEmpty) {s s' : Snapshot} (hs : s.Sound)
    (hs' : s'.Sound) (h : s.SameButOrder s') :
    (completed base d s).SameButOrder (completed base d' s') := by
  cases base with
  | none =>
      exact h.withConventionalRoots.withSpecifiedDirectives.toSchema
        hs.withConventionalRoots.withSpecifiedDirectives
        hs'.withConventionalRoots.withSpecifiedDirectives
  | some S =>
      rw [completed, completed, hd]
      split
      · exact .refl S
      · exact h.toSchema hs hs'

theorem declare_rearranged (hb : ∀ S ∈ base, S.Reachable) (h : d.Rearranges d') :
    (validate d base = [] ↔ validate d' base = []) ∧
    (validate d base = [] → ∀ o, ∃ S S', declare base d o = .ok S ∧ declare base d' o = .ok S' ∧
      S.SameButOrder S') := by
  have hg := grounded_of_reachable hb
  simp only [validate_eq_nil_iff]
  refine ⟨⟨fun hc => hc.rearranged h, fun hc => hc.rearranged h.symm⟩, fun hc o => ?_⟩
  have hc' := hc.rearranged h
  obtain ⟨s, hs⟩ := hg.extend_ok hc.knownTypes (o := o)
  obtain ⟨s', hs'⟩ := hg.extend_ok hc'.knownTypes (o := o)
  have hcheck := check_of_validate (o := o) (validate_eq_nil_iff.mpr hc)
  have hcheck' := check_of_validate (o := o) (validate_eq_nil_iff.mpr hc')
  have hsame := sameButOrder_extend hg hc h hs hs'
  refine ⟨_, _, declare_eq_ok_iff.mpr ⟨hcheck, s, hs, rfl⟩,
    declare_eq_ok_iff.mpr ⟨hcheck', s', hs', rfl⟩, ?_⟩
  exact sameButOrder_completed h.isEmpty (hg.sound.extend hs) (hg.sound.extend hs') hsame

end Schema

namespace Pets

def salons : Document := ⟨[
  .typeExtension (object "Pet" [Builtin.field "weight" "Int"]),
  .type (object "Salon" [Builtin.field "grooms" "[Pet!]!"]),
  .typeExtension (object "Pet" [Builtin.field "weight" "Salon"])]⟩

def visits : Document := ⟨[
  .directive ⟨Builtin.ident "visits", none, [Builtin.input "most" "Int" none], false, [.object],
    .nowhere⟩,
  .type (object "Visit" [Builtin.field "to" "Salon"]),
  .typeExtension (object "Query" [Builtin.field "visits" "[Visit!]!"])]⟩

theorem salons_and_visits_either_way :
    (Document.concat [salons, visits]).Rearranges (Document.concat [visits, salons]) ∧
    validate (Document.concat [salons, visits]) (some schema) = [] ∧
    ∃ S S', Schema.declare (some schema) (Document.concat [salons, visits]) .default = .ok S ∧
      Schema.declare (some schema) (Document.concat [visits, salons]) .default = .ok S' ∧
      S.SameButOrder S' := by
  have hr : (Document.concat [salons, visits]).Rearranges (Document.concat [visits, salons]) :=
    Document.rearranges_concat (by decide) (Or.inl rfl)
  have hvalid : validate (Document.concat [salons, visits]) (some schema) = [] := by
    rw [reachable_schema.validate_eq (by decide +kernel)]
    decide +kernel
  exact ⟨hr, hvalid, (Schema.declare_rearranged reachable_schema.forall_mem_some hr).2 hvalid .default⟩

end Pets

end SchemaGraph
