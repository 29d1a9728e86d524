import SchemaGraph.Schema.Build

namespace SchemaGraph.Scope

variable {α β γ : Type} (s : Scope)

def knows (name : String) : Bool := Builtin.isBuiltin name || s.names.contains name

def ref (name : String) : Ref := ⟨name, if Builtin.isBuiltin name then .builtin else s.home⟩

def guard (names : List String) (a : α) : Except SchemaError α :=
  match names.find? (fun n => !s.knows n) with
  | none => .ok a
  | some n => .error (.unknownType n)

theorem knows_eq_true_iff {n : String} :
    s.knows n = true ↔ Builtin.isBuiltin n = true ∨ n ∈ s.names := by
  rw [knows, Bool.or_eq_true, List.contains_iff_mem]

theorem guard_of_known {names : List String} (h : ∀ n ∈ names, s.knows n = true) (a : α) :
    s.guard names a = .ok a := by
  have hn : names.find? (fun n => !s.knows n) = none :=
    List.find?_eq_none.mpr fun n hm => by simp [h n hm]
  rw [guard, hn]

theorem guard_eq_ok_iff {names : List String} {a b : α} :
    s.guard names a = .ok b ↔ (∀ n ∈ names, s.knows n = true) ∧ a = b := by
  constructor
  · intro h
    cases hf : names.find? (fun n => !s.knows n) with
    | none =>
        rw [guard, hf] at h
        exact ⟨fun n hm => by simpa using List.find?_eq_none.mp hf n hm, Except.ok.inj h⟩
    | some n =>
        rw [guard, hf] at h
        exact nomatch h
  · rintro ⟨h, rfl⟩
    exact s.guard_of_known h a

theorem exists_unknown_of_guard {names : List String} {a : α} {e : SchemaError}
    (h : s.guard names a = .error e) : ∃ n ∈ names, s.knows n = false ∧ e = .unknownType n := by
  cases hf : names.find? (fun n => !s.knows n) with
  | none =>
      rw [guard, hf] at h
      exact nomatch h
  | some n =>
      rw [guard, hf] at h
      exact ⟨n, List.mem_of_find?_eq_some hf, by simpa using List.find?_some hf,
        (Except.error.inj h).symm⟩

theorem guard_bind {names more : List String} {a : α} {b : β} {f : α → Except SchemaError β}
    (h : f a = s.guard more b) : (s.guard names a >>= f) = s.guard (names ++ more) b := by
  cases hf : names.find? (fun n => !s.knows n) with
  | none =>
      simp only [guard, List.find?_append, hf, Option.none_or, bind, Except.bind]
      exact h
  | some n => simp only [guard, List.find?_append, hf, Option.some_or, bind, Except.bind]

@[simp] theorem guard_bind_guard (names more : List String) (a : α) (f : α → β) :
    (s.guard names a >>= fun x => s.guard more (f x)) = s.guard (names ++ more) (f a) :=
  s.guard_bind rfl

@[simp] theorem guard_bind_pure (names : List String) (a : α) (f : α → β) :
    (s.guard names a >>= fun x => pure (f x)) = s.guard names (f a) := by
  refine (s.guard_bind ?_).trans (congrArg (s.guard · (f a)) (List.append_nil names))
  rfl

@[simp] theorem map_guard (names : List String) (a : α) (f : α → β) :
    (s.guard names a).map f = s.guard names (f a) := by
  unfold guard
  split <;> rfl

@[simp] theorem mapM_guard (names : α → List String) (f : α → β) (xs : List α) :
    (xs.mapM fun x => s.guard (names x) (f x)) = s.guard (xs.flatMap names) (xs.map f) := by
  induction xs with
  | nil => rfl
  | cons x xs ih =>
      rw [List.mapM_cons, ih, List.flatMap_cons, List.map_cons]
      exact s.guard_bind (s.guard_bind_pure _ _ _)

@[simp] theorem resolve_eq_guard (n : String) : s.resolve n = s.guard [n] (s.ref n) := by
  unfold resolve guard ref knows
  cases hb : Builtin.isBuiltin n with
  | true => simp [hb]
  | false => cases hn : s.names.contains n <;> simp only [hb, hn, List.find?] <;> rfl

theorem tryMap_guard (text : α → String) (f : α → β) (t : TypeExpr α) :
    t.tryMap (fun a => s.guard [text a] (f a)) = s.guard [text t.leaf] (t.map f) := by
  induction t with
  | named a => exact s.map_guard _ _ _
  | list t ih => rw [TypeExpr.tryMap, ih, map_guard, TypeExpr.map, TypeExpr.leaf]
  | nonNull t ih => rw [TypeExpr.tryMap, ih, map_guard, TypeExpr.map, TypeExpr.leaf]

def move (r : Ref) : Ref := s.ref r.name

@[simp] theorem name_move (r : Ref) : (s.move r).name = r.name := rfl

@[simp] theorem move_move (s s' : Scope) (r : Ref) : s.move (s'.move r) = s.move r := rfl

def place (n : Ident) : Ref := s.ref n.text

@[simp] theorem move_place (s s' : Scope) (n : Ident) : s.move (s'.place n) = s.place n := rfl

@[simp] theorem rebind_eq_guard (r : Ref) : s.rebind r = s.guard [r.name] (s.move r) :=
  s.resolve_eq_guard r.name

@[simp] theorem resolveIdent_eq_guard (n : Ident) : s.resolveIdent n = s.guard [n.text] (s.place n) :=
  s.resolve_eq_guard n.text

@[simp] theorem resolveType_eq_guard (t : TypeExpr Ident) :
    s.resolveType t = s.guard [t.leaf.text] (t.map s.place) := by
  rw [← s.tryMap_guard, resolveType]
  congr
  funext n
  exact s.resolveIdent_eq_guard n

@[simp] theorem rebindType_eq_guard (t : TypeExpr Ref) :
    s.rebindType t = s.guard [t.leaf.name] (t.map s.move) := by
  rw [← s.tryMap_guard, rebindType]
  congr
  funext r
  exact s.rebind_eq_guard r

end SchemaGraph.Scope

namespace SchemaGraph.TypeExpr

variable {α β γ : Type}

@[simp] theorem map_map (f : α → β) (g : β → γ) (t : TypeExpr α) :
    (t.map f).map g = t.map fun a => g (f a) := by
  induction t with
  | named a => rfl
  | list t ih => rw [map, map, map, ih]
  | nonNull t ih => rw [map, map, map, ih]

end SchemaGraph.TypeExpr
