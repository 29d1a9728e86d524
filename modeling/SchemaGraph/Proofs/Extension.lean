import SchemaGraph.Proofs.Mention
import SchemaGraph.Schema.Construction

namespace SchemaGraph

namespace Seed

def entry (s : Scope) (extensions : List TypeDef) : Seed → NamedType
  | .builtin t => t
  | .carried t => t.grow s extensions
  | .fresh d => NamedType.place s d extensions

def mentions (extensions : List TypeDef) : Seed → List String
  | .builtin _ => []
  | .carried t => t.growMentions extensions
  | .fresh d => NamedType.placeMentions d extensions

@[simp] theorem name_entry (s : Scope) (extensions : List TypeDef) (seed : Seed) :
    (seed.entry s extensions).name = seed.name := by
  cases seed <;> rfl

theorem grow_eq_guard (s : Scope) (extensions : List TypeDef) (seed : Seed) :
    seed.grow s extensions = s.guard (seed.mentions extensions) (seed.entry s extensions) := by
  cases seed with
  | builtin t => rfl
  | carried t => exact t.extend_eq_guard s extensions
  | fresh d => exact NamedType.build_eq_guard s d extensions

end Seed

namespace Registry

def nextScope (r : Registry) (home : Home) (d : Document) : Scope := ⟨(r.seeds d).map Seed.name, home⟩

def extended (r : Registry) (home : Home) (d : Document) : Registry :=
  ⟨(r.seeds d).map fun s => s.entry (r.nextScope home d) (d.extensionsOf s.name)⟩

def mentions (r : Registry) (d : Document) : List String :=
  (r.seeds d).flatMap fun s => s.mentions (d.extensionsOf s.name)

theorem names_extended (r : Registry) (home : Home) (d : Document) :
    (r.extended home d).names = (r.seeds d).map Seed.name := by
  rw [names, extended, List.map_map]
  exact List.map_congr_left fun s _ => Seed.name_entry _ _ s

theorem extend_eq_guard (r : Registry) (home : Home) (d : Document) :
    r.extend home d = (r.nextScope home d).guard (r.mentions d) (r.extended home d) := by
  simp only [extend, Seed.grow_eq_guard, Scope.mapM_guard, Scope.guard_bind_pure]
  rfl

end Registry

namespace Directive

def carried (s : Scope) (d : Directive) : Directive := if Builtin.isDirective d.name then d else d.move s

def carryMentions (d : Directive) : List String :=
  if Builtin.isDirective d.name then [] else d.arguments.map fun a => a.type.leaf.name

theorem carry_eq_guard (s : Scope) (d : Directive) :
    d.carry s = s.guard d.carryMentions (d.carried s) := by
  unfold carry carryMentions carried
  split
  · rfl
  · exact d.rebind_eq_guard s

theorem mapM_carry (s : Scope) (ds : List Directive) :
    ds.mapM (carry s) = s.guard (ds.flatMap carryMentions) (ds.map (carried s)) := by
  have hc : carry s = fun d => s.guard d.carryMentions (d.carried s) := by
    funext d
    exact carry_eq_guard s d
  rw [hc, s.mapM_guard]

def placeMentions (d : DirectiveDef) : List String := (d.arguments.map InputDef.typeName).map Ident.text

theorem mapM_build (s : Scope) (ds : List DirectiveDef) :
    ds.mapM (build s) = s.guard (ds.flatMap placeMentions) (ds.map (place s)) := by
  have hb : build s = fun d => s.guard (placeMentions d) (place s d) := by
    funext d
    exact build_eq_guard s d
  rw [hb, s.mapM_guard]

end Directive

namespace Roots

def move (s : Scope) (r : Roots) : Roots :=
  ⟨r.query.map s.move, r.mutation.map s.move, r.subscription.map s.move⟩

def names (r : Roots) : List String :=
  (r.query.toList ++ (r.mutation.toList ++ r.subscription.toList)).map Ref.name

def declared (s : Scope) (r : Roots) (ops : List OperationDef) : Roots :=
  ops.foldl (fun r op => r.set (some (s.place op.type)) op.operation) r

theorem rebindRoot_eq_guard (s : Scope) (root : Option Ref) :
    rebindRoot s root = s.guard (root.toList.map Ref.name) (root.map s.move) := by
  cases root with
  | none => rfl
  | some r => exact (congrArg (Except.map some) (s.rebind_eq_guard r)).trans (s.map_guard _ _ _)

theorem rebind_eq_guard (s : Scope) (r : Roots) : r.rebind s = s.guard r.names (r.move s) := by
  simp only [rebind, rebindRoot_eq_guard, Scope.guard_bind_pure, Scope.guard_bind_guard, names, move,
    List.map_append]

theorem declare_eq_guard (s : Scope) (r : Roots) (ops : List OperationDef) :
    r.declare s ops = s.guard (ops.map fun op => op.type.text) (r.declared s ops) := by
  unfold declare
  induction ops generalizing r with
  | nil => rfl
  | cons op ops ih =>
      rw [List.foldlM_cons, s.resolveIdent_eq_guard, s.guard_bind_pure]
      exact s.guard_bind (ih _)

end Roots

namespace Snapshot

def nextHome (s : Snapshot) : Home := .generation s.lineage.registries.length

def nextScope (s : Snapshot) (d : Document) : Scope := s.registry.nextScope s.nextHome d

def extended (s : Snapshot) (d : Document) (options : Options) : Snapshot where
  description := (d.schema?.bind SchemaDef.description).or s.description
  roots := (s.roots.move (s.nextScope d)).declared (s.nextScope d) d.operations
  lineage := ⟨s.lineage.registries ++ [s.registry.extended s.nextHome d]⟩
  generation := s.lineage.registries.length
  directives := s.directives.map (Directive.carried (s.nextScope d)) ++
    d.directives.map (Directive.place (s.nextScope d))
  remarks := []
  node := d.schema?.or s.node
  extensions := s.extensions ++ d.schemaExtensions
  assumeValid := options.assumeValid

def mentions (s : Snapshot) (d : Document) : List String :=
  s.registry.mentions d ++ (s.directives.flatMap Directive.carryMentions ++
    (d.directives.flatMap Directive.placeMentions ++
      (s.roots.names ++ d.operations.map fun op => op.type.text)))

theorem extend_of_isEmpty {d : Document} (hd : d.isEmpty = true) (s : Snapshot) (options : Options) :
    s.extend d options = .ok s := by
  rw [extend, if_pos hd]
  rfl

theorem extend_eq_guard {d : Document} (hd : d.isEmpty = false) (s : Snapshot) (options : Options) :
    s.extend d options = (s.nextScope d).guard (s.mentions d) (s.extended d options) := by
  have hscope (h : Home) : (⟨(s.registry.extended h d).names, h⟩ : Scope) = s.registry.nextScope h d := by
    rw [Registry.names_extended, Registry.nextScope]
  rw [extend, if_neg (by simp [hd])]
  dsimp only
  rw [Registry.extend_eq_guard]
  refine Scope.guard_bind _ ?_
  simp only [hscope, Directive.mapM_carry, Directive.mapM_build, Roots.rebind_eq_guard,
    Roots.declare_eq_guard, Scope.guard_bind_pure, Scope.guard_bind_guard]
  rfl

theorem extend_of_known {s : Snapshot} {d : Document} (hd : d.isEmpty = false)
    (hk : ∀ n ∈ s.mentions d, (s.nextScope d).knows n = true) (options : Options) :
    s.extend d options = .ok (s.extended d options) := by
  rw [extend_eq_guard hd]
  exact Scope.guard_of_known _ hk _

theorem eq_extended {s s' : Snapshot} {d : Document} {options : Options} (hd : d.isEmpty = false)
    (h : s.extend d options = .ok s') : s' = s.extended d options := by
  rw [extend_eq_guard hd, Scope.guard_eq_ok_iff] at h
  exact h.2.symm

end Snapshot

end SchemaGraph
