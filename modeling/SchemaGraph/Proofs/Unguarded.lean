import SchemaGraph.Proofs.Expansion
import SchemaGraph.Proofs.Report

namespace SchemaGraph

namespace Conversion

variable {l : Lineage} {i n m : Nat} {busy busy' : List FieldKey} {literal : Literal} {t : TypeExpr Ref}
  {v : Option JsonValue} {k : FieldKey} {f f' : InputValue}

theorem attempt_free_succ : attempt l .free (n + 1) busy literal t =
    step l (attempt l .free n busy) (expand .free (attempt l .free n) busy) literal t :=
  if_neg fun h => nomatch h.1

theorem expand_free (convert : List FieldKey → Literal → TypeExpr Ref → Outcome JsonValue)
    (record : String) (hd : f.default? = some literal) :
    expand .free convert busy record f = convert ((record, f.name) :: busy) literal f.type := by
  rw [expand, hd]
  rfl

theorem attempt_free_busy (busy busy' : List FieldKey) :
    attempt l .free n busy = attempt l .free n busy' := by
  induction n generalizing busy busy' with
  | zero => rfl
  | succ n ih =>
      have hexpand : expand .free (attempt l .free n) busy = expand .free (attempt l .free n) busy' := by
        funext record f
        cases hd : f.default? with
        | none => rw [expand, expand, hd]
        | some literal => rw [expand_free _ _ hd, expand_free _ _ hd, ih]
      funext literal t
      rw [attempt_free_succ, attempt_free_succ, ih busy busy', hexpand]

def Ends (l : Lineage) (literal : Literal) (t : TypeExpr Ref) (n : Nat) : Prop :=
  ∃ v, attempt l .free n [] literal t = .ok v

def IsField (l : Lineage) (i : Nat) (k : FieldKey) (f : InputValue) : Prop :=
  ∃ r target, Lineage.Within i r ∧ l.resolve? r = some target ∧ f ∈ target.recordFields ∧
    k = (target.name, f.name)

theorem IsField.unique (hl : l.Regular) (h : IsField l i k f) (h' : IsField l i k f') : f = f' := by
  obtain ⟨r, target, hr, ht, hf, rfl⟩ := h
  obtain ⟨r', target', hr', ht', hf', hk⟩ := h'
  obtain ⟨htarget, hname⟩ := Prod.mk.inj hk
  obtain rfl := hl.eq_of_name hr hr' ht ht' htarget
  exact List.inj_on_of_nodup_map (NamedType.nodup_recordFields (hl.distinct ht)) hf hf' hname

theorem Touches.within {t' : TypeExpr Ref} (hl : l.Regular) (ht : Lineage.Within i t.leaf)
    (h : Touches l t t') : Lineage.Within i t'.leaf := by
  cases h with
  | same h => rwa [h]
  | field hr hf => exact hl.within ht hr _ (NamedType.leaf_mem_refs hf)

def Pending (l : Lineage) (i n : Nat) (busy : List FieldKey) : Prop :=
  ∀ k ∈ busy, ∀ f literal, IsField l i k f → f.default? = some literal →
    ∀ m < n, ¬Ends l literal f.type m

theorem Pending.mono (h : Pending l i n busy) (hm : m ≤ n) : Pending l i m busy :=
  fun k hk f literal hf hd j hj => h k hk f literal hf hd j (hj.trans_le hm)

theorem Pending.cons (h : Pending l i n busy) (hl : l.Regular) (hf : IsField l i k f)
    (hd : f.default? = some literal) (hleast : ∀ m < n, ¬Ends l literal f.type m) :
    Pending l i n (k :: busy) := by
  intro k' hk f' literal' hf' hd' m hm
  rcases List.mem_cons.mp hk with rfl | hk
  · obtain rfl := hf'.unique hl hf
    obtain rfl := Option.some.inj (hd'.symm.trans hd)
    exact hleast m hm
  · exact h k' hk f' literal' hf' hd' m hm

theorem exists_least (h : attempt l .free n busy literal t = .ok v) : ∃ m ≤ n,
    (∀ busy', attempt l .free m busy' literal t = .ok v) ∧ ∀ j < m, ¬Ends l literal t j := by
  classical
  rw [attempt_free_busy _ []] at h
  have hends : ∃ m, Ends l literal t m := ⟨n, v, h⟩
  have hle : Nat.find hends ≤ n := Nat.find_min' hends ⟨v, h⟩
  obtain ⟨w, hw⟩ := Nat.find_spec hends
  obtain rfl := Except.ok.inj ((attempt_mono hle hw).symm.trans h)
  exact ⟨Nat.find hends, hle, fun busy' => (congrFun₂ (attempt_free_busy busy' []) _ _).trans hw,
    fun j hj => Nat.find_min hends hj⟩

theorem coerce_of_free (hl : l.Regular) (ht : Lineage.Within i t.leaf)
    (hbusy : Pending l i n busy) (h : attempt l .free n busy literal t = .ok v) :
    coerce l busy literal t = v := by
  induction n using Nat.strongRecOn generalizing busy literal t v with
  | _ n ih =>
      cases n with
      | zero => exact nomatch h
      | succ n =>
          rw [attempt_free_succ] at h
          have hstep : step l (settled l busy) (expand .guarded (settled l) busy) literal t = .ok v := by
            refine step_transfer (fun t' ht' x w hw => ?_) (fun target f hr hf w hw => ?_) h
            · exact congrArg Except.ok
                (ih n n.lt_succ_self (ht'.within hl ht) (hbusy.mono n.le_succ) hw)
            · have hfield : IsField l i (target.name, f.name) f := ⟨t.leaf, target, ht, hr, hf, rfl⟩
              cases hd : f.default? with
              | none =>
                  rw [expand, hd] at hw ⊢
                  exact hw
              | some default =>
                  -- at the least depth at which the default ends it can be counted as pending
                  rw [expand_free _ _ hd] at hw
                  obtain ⟨m, hm, hattempt, hleast⟩ := exists_least hw
                  have hfree : (target.name, f.name) ∉ busy := fun hk =>
                    hbusy _ hk f default hfield hd m (Nat.lt_succ_of_le hm) ⟨w, hattempt []⟩
                  have hexpands : Mode.guarded.expands busy (target.name, f.name) = true := by
                    simp [Mode.expands, hfree]
                  have hpending := (hbusy.mono (hm.trans n.le_succ)).cons hl hfield hd hleast
                  have hwithin := hl.within ht hr _ (NamedType.leaf_mem_refs hf)
                  rw [expand, hd]
                  dsimp only
                  rw [if_pos hexpands, settled,
                    ih m (Nat.lt_succ_of_le hm) hwithin hpending (hattempt _)]
          rw [step_settled] at hstep
          exact Except.ok.inj hstep

end Conversion

namespace Schema

open Conversion

theorem value?_ends_as_unguarded {S : Schema} (hS : S.Reachable) (literal : Literal)
    (t : TypeExpr Ref) :
    (∃ N, ∀ n ≥ N, attempt S.snapshot.lineage .guarded n [] literal t =
      .ok (S.snapshot.lineage.value? literal t)) ∧
    ∀ n v, attempt S.snapshot.lineage .free n [] literal t = .ok v →
      S.snapshot.lineage.value? literal t = v := by
  refine ⟨Filter.eventually_atTop.mp (eventually_attempt _ [] List.nodup_nil literal t),
    fun n v h => ?_⟩
  have hpending (i : Nat) : Pending S.snapshot.lineage i n [] := nofun
  cases hr : t.leaf.home with
  | builtin => exact coerce_of_free hS.regular (Or.inl hr) (hpending 0) h
  | generation i => exact coerce_of_free hS.regular (Or.inr hr) (hpending i) h

end Schema

namespace Crates

def crate : TypeDef :=
  ⟨Builtin.ident "Crate", none, [], .data [⟨Builtin.ident "Crate", none, [],
    [Builtin.input "inside" "Crate" (some (.object [])), Builtin.input "size" "Int" (some (.int 3))],
    .nowhere⟩], .nowhere⟩

def document : Document := ⟨[.type crate]⟩

def schema : Schema :=
  (Snapshot.empty.extended document .default).withConventionalRoots.withSpecifiedDirectives.toSchema

theorem declare_schema : Schema.declare none document .default = .ok schema :=
  Schema.declare_of_validate (by simp) (by decide +kernel) rfl .default

theorem reachable_schema : schema.Reachable := Schema.Reachable.build declare_schema

abbrev lineage : Lineage := schema.snapshot.lineage

def type : TypeExpr Ref := .named ⟨"Crate", .generation 1⟩

def inside : InputValue := ⟨Builtin.input "inside" "Crate" (some (.object [])), type⟩

def boxed : JsonValue := .object [("inside", .object [("size", .int 3)]), ("size", .int 3)]

def solid : Literal := .object [(Builtin.ident "inside", .null)]

theorem value?_crates : schema.Reachable ∧
    lineage.value? solid type = some (.object [("inside", .null), ("size", .int 3)]) ∧
    ∃ N, ∀ n ≥ N, Conversion.attempt lineage .guarded n [] (.object []) type = .ok (some boxed) := by
  refine ⟨reachable_schema,
    (Schema.value?_ends_as_unguarded reachable_schema solid type).2 3 _ rfl, ?_⟩
  have hguarded := (Schema.value?_ends_as_unguarded reachable_schema (.object []) type).1
  rwa [Conversion.value?_of_attempt (n := 4) rfl] at hguarded

end Crates

end SchemaGraph
