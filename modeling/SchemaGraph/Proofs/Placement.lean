import SchemaGraph.Proofs.Keyed
import SchemaGraph.Proofs.Scope
import SchemaGraph.Schema.Validation

namespace SchemaGraph

namespace InputValue

def place (s : Scope) (d : InputDef) : InputValue := ⟨d, d.type.map s.place⟩

def move (s : Scope) (v : InputValue) : InputValue := ⟨v.node, v.type.map s.move⟩

def placeAll (s : Scope) (ds : List InputDef) : List InputValue := Keyed.ofList name (ds.map (place s))

@[simp] theorem name_move (s : Scope) (v : InputValue) : (v.move s).name = v.name := rfl

@[simp] theorem move_move (s s' : Scope) (v : InputValue) : (v.move s).move s' = v.move s' := by
  simp [move]

@[simp] theorem move_place (s s' : Scope) (d : InputDef) : (place s d).move s' = place s' d := by
  simp [move, place]

@[simp] theorem build_eq_guard (s : Scope) (d : InputDef) :
    build s d = s.guard [d.typeName.text] (place s d) := by
  rw [build, Scope.resolveType_eq_guard, Scope.guard_bind_pure, place, InputDef.typeName]

@[simp] theorem rebind_eq_guard (s : Scope) (v : InputValue) :
    v.rebind s = s.guard [v.type.leaf.name] (v.move s) := by
  rw [rebind, Scope.rebindType_eq_guard, Scope.guard_bind_pure, move]

@[simp] theorem buildAll_eq_guard (s : Scope) (ds : List InputDef) :
    buildAll s ds = s.guard (ds.map fun d => d.typeName.text) (placeAll s ds) := by
  have hb : build s = fun d => s.guard [d.typeName.text] (place s d) := by
    funext d
    exact build_eq_guard s d
  rw [buildAll, hb, s.mapM_guard, s.guard_bind_pure, ← List.map_eq_flatMap, placeAll]

@[simp] theorem mapM_rebind (s : Scope) (vs : List InputValue) :
    vs.mapM (rebind s) = s.guard (vs.map fun v => v.type.leaf.name) (vs.map (move s)) := by
  have hr : rebind s = fun v => s.guard [v.type.leaf.name] (v.move s) := by
    funext v
    exact rebind_eq_guard s v
  rw [hr, s.mapM_guard, ← List.map_eq_flatMap]

@[simp] theorem map_move_placeAll (s s' : Scope) (ds : List InputDef) :
    (placeAll s ds).map (move s') = placeAll s' ds := by
  rw [placeAll, Keyed.map_ofList name (name_move s'), List.map_map, placeAll]
  congr 2
  funext d
  exact move_place s s' d

theorem mem_placeAll {s : Scope} {ds : List InputDef} {v : InputValue} (h : v ∈ placeAll s ds) :
    ∃ d ∈ ds, v = place s d := by
  obtain ⟨d, hd, he⟩ := List.mem_map.mp (Keyed.mem_of_mem_ofList name h)
  exact ⟨d, hd, he.symm⟩

theorem leaf_of_mem_placeAll {s : Scope} {ds : List InputDef} {v : InputValue}
    (h : v ∈ placeAll s ds) : ∃ n ∈ ds.map (fun d => d.typeName.text), v.type.leaf = s.ref n := by
  obtain ⟨d, hd, rfl⟩ := mem_placeAll h
  exact ⟨_, List.mem_map_of_mem hd, TypeExpr.leaf_map _ _⟩

end InputValue

namespace Field

def place (s : Scope) (d : FieldDef) : Field :=
  ⟨d, d.type.map s.place, InputValue.placeAll s d.arguments⟩

def move (s : Scope) (f : Field) : Field :=
  ⟨f.node, f.type.map s.move, f.arguments.map (InputValue.move s)⟩

@[simp] theorem name_move (s : Scope) (f : Field) : (f.move s).name = f.name := rfl

@[simp] theorem move_move (s s' : Scope) (f : Field) : (f.move s).move s' = f.move s' := by
  simp [move, Function.comp_def]

@[simp] theorem move_place (s s' : Scope) (d : FieldDef) : (place s d).move s' = place s' d := by
  simp [move, place]

theorem build_eq_guard (s : Scope) (d : FieldDef) :
    build s d = s.guard (d.typeNames.map Ident.text) (place s d) := by
  simp only [build, Scope.resolveType_eq_guard, InputValue.buildAll_eq_guard, Scope.guard_bind_pure,
    Scope.guard_bind_guard, place, FieldDef.typeNames, List.map_cons, List.map_map]
  rfl

theorem rebind_eq_guard (s : Scope) (f : Field) :
    f.rebind s = s.guard (f.refs.map Ref.name) (f.move s) := by
  simp only [rebind, Scope.rebindType_eq_guard, InputValue.mapM_rebind, Scope.guard_bind_pure,
    Scope.guard_bind_guard, move, refs, List.map_cons, List.map_map]
  rfl

theorem mapM_build (s : Scope) (ds : List FieldDef) :
    ds.mapM (build s) =
      s.guard ((ds.flatMap FieldDef.typeNames).map Ident.text) (ds.map (place s)) := by
  have hb : build s = fun d => s.guard (d.typeNames.map Ident.text) (place s d) := by
    funext d
    exact build_eq_guard s d
  rw [hb, s.mapM_guard, List.map_flatMap]

theorem mapM_rebind (s : Scope) (fs : List Field) :
    fs.mapM (rebind s) = s.guard ((fs.flatMap refs).map Ref.name) (fs.map (move s)) := by
  have hr : rebind s = fun f => s.guard (f.refs.map Ref.name) (f.move s) := by
    funext f
    exact rebind_eq_guard s f
  rw [hr, s.mapM_guard, List.map_flatMap]

@[simp] theorem refs_move (s : Scope) (f : Field) : (f.move s).refs = f.refs.map s.move := by
  simp [refs, move, InputValue.move]

theorem exists_of_mem_refs_place {s : Scope} {d : FieldDef} {r : Ref} (h : r ∈ (place s d).refs) :
    ∃ n ∈ d.typeNames.map Ident.text, r = s.ref n := by
  rcases List.mem_cons.mp h with rfl | h
  · exact ⟨_, List.mem_map_of_mem List.mem_cons_self, TypeExpr.leaf_map _ _⟩
  · obtain ⟨v, hv, rfl⟩ := List.mem_map.mp h
    obtain ⟨n, hn, he⟩ := InputValue.leaf_of_mem_placeAll hv
    refine ⟨n, ?_, he⟩
    obtain ⟨a, ha, rfl⟩ := List.mem_map.mp hn
    exact List.mem_map_of_mem (List.mem_cons_of_mem _ (List.mem_map_of_mem ha))

end Field

namespace Variant

def place (s : Scope) (d : VariantDef) : Variant := ⟨d, InputValue.placeAll s d.fields⟩

def move (s : Scope) (v : Variant) : Variant := ⟨v.node, v.fields.map (InputValue.move s)⟩

def placeAll (s : Scope) (ds : List VariantDef) : List Variant := Keyed.ofList name (ds.map (place s))

@[simp] theorem name_move (s : Scope) (v : Variant) : (v.move s).name = v.name := rfl

@[simp] theorem move_move (s s' : Scope) (v : Variant) : (v.move s).move s' = v.move s' := by
  simp [move, Function.comp_def]

@[simp] theorem move_place (s s' : Scope) (d : VariantDef) : (place s d).move s' = place s' d := by
  simp [move, place]

@[simp] theorem map_move_placeAll (s s' : Scope) (ds : List VariantDef) :
    (placeAll s ds).map (move s') = placeAll s' ds := by
  rw [placeAll, Keyed.map_ofList name (name_move s'), List.map_map, placeAll]
  congr 2
  funext d
  exact move_place s s' d

theorem buildAll_eq_guard (s : Scope) (ds : List VariantDef) :
    buildAll s ds = s.guard ((ds.flatMap fun d => d.fields.map InputDef.typeName).map Ident.text)
      (placeAll s ds) := by
  have hb : build s = fun d => s.guard ((d.fields.map InputDef.typeName).map Ident.text)
      (place s d) := by
    funext d
    simp only [build, InputValue.buildAll_eq_guard, Scope.guard_bind_pure, place, List.map_map]
    rfl
  rw [buildAll, hb, s.mapM_guard, s.guard_bind_pure, List.map_flatMap, placeAll]

theorem mapM_rebind (s : Scope) (vs : List Variant) :
    vs.mapM (rebind s) = s.guard ((vs.flatMap refs).map Ref.name) (vs.map (move s)) := by
  have hr : rebind s = fun v => s.guard (v.refs.map Ref.name) (v.move s) := by
    funext v
    simp only [rebind, InputValue.mapM_rebind, Scope.guard_bind_pure, move, refs, List.map_map]
    rfl
  rw [hr, s.mapM_guard, List.map_flatMap]

end Variant

namespace Directive

def place (s : Scope) (d : DirectiveDef) : Directive := ⟨d, InputValue.placeAll s d.arguments⟩

def move (s : Scope) (d : Directive) : Directive := ⟨d.node, d.arguments.map (InputValue.move s)⟩

@[simp] theorem move_move (s s' : Scope) (d : Directive) : (d.move s).move s' = d.move s' := by
  simp [move, Function.comp_def]

@[simp] theorem move_place (s s' : Scope) (d : DirectiveDef) : (place s d).move s' = place s' d := by
  simp [move, place]

theorem build_eq_guard (s : Scope) (d : DirectiveDef) :
    build s d = s.guard ((d.arguments.map InputDef.typeName).map Ident.text) (place s d) := by
  simp only [build, InputValue.buildAll_eq_guard, Scope.guard_bind_pure, place, List.map_map]
  rfl

theorem rebind_eq_guard (s : Scope) (d : Directive) :
    d.rebind s = s.guard (d.arguments.map fun a => a.type.leaf.name) (d.move s) := by
  simp only [rebind, InputValue.mapM_rebind, Scope.guard_bind_pure, move]

end Directive

end SchemaGraph
