import Mathlib.Order.Filter.AtTopBot.Basic
import SchemaGraph.Proofs.Ancestry
import SchemaGraph.Schema.Coercion

namespace SchemaGraph

namespace Conversion

inductive Halt where
  | unfinished
  | repeated
  deriving DecidableEq

abbrev Outcome (α : Type) := Except Halt (Option α)

section Step

variable (l : Lineage) (convert : Literal → TypeExpr Ref → Outcome JsonValue)
  (absent : String → InputValue → Outcome JsonValue)

def items (t : TypeExpr Ref) : List Literal → Outcome (List JsonValue)
  | [] => .ok (some [])
  | x :: xs =>
      match convert x t with
      | .error e => .error e
      | .ok none => .ok none
      | .ok (some v) => (items t xs).map (·.map (v :: ·))

def member (record : String) (entries : List (Ident × Literal)) (f : InputValue) :
    Outcome (List (String × JsonValue)) :=
  match entry? entries f.name with
  | some e => (convert e.2 f.type).map (·.map fun v => [(f.name, v)])
  | none => (absent record f).map fun
      | some v => some [(f.name, v)]
      | none => if f.type.isNonNull then none else some []

def members (record : String) (entries : List (Ident × Literal)) :
    List InputValue → Outcome (List (String × JsonValue))
  | [] => .ok (some [])
  | f :: fs =>
      match member convert absent record entries f with
      | .error e => .error e
      | .ok none => .ok none
      | .ok (some ms) => (members record entries fs).map (·.map (ms ++ ·))

def step (literal : Literal) : TypeExpr Ref → Outcome JsonValue
  | .nonNull t =>
      match literal with
      | .null => .ok none
      | single => convert single t
  | .list t =>
      match literal with
      | .null => .ok (some .null)
      | .list xs => (items convert t xs).map (·.map .array)
      | single => (convert single t).map (·.map fun v => .array [v])
  | .named r =>
      match literal with
      | .null => .ok (some .null)
      | .object entries =>
          match l.resolve? r with
          | none => .ok none
          | some target =>
              match record? target.body.variants with
              | some record =>
                  if entries.all fun e => record.fields.any (·.name == e.1.text) then
                    (members convert absent target.name entries record.fields).map (·.map .ofMembers)
                  else .ok none
              | none => .ok (target.leafValue? (.object entries))
      | single => .ok ((l.resolve? r).bind (·.leafValue? single))

end Step

inductive Mode where
  | guarded
  | free
  deriving DecidableEq

/-- Whether the default of a field is expanded while those in `busy` are. -/
def Mode.expands (mode : Mode) (busy : List FieldKey) (k : FieldKey) : Bool :=
  mode == .free || !busy.contains k

def expand (mode : Mode) (convert : List FieldKey → Literal → TypeExpr Ref → Outcome JsonValue)
    (busy : List FieldKey) (record : String) (f : InputValue) : Outcome JsonValue :=
  match f.default? with
  | none => .ok none
  | some literal =>
      if mode.expands busy (record, f.name) then convert ((record, f.name) :: busy) literal f.type
      else .ok none

def attempt (l : Lineage) (mode : Mode) :
    Nat → List FieldKey → Literal → TypeExpr Ref → Outcome JsonValue
  | 0, _, _, _ => .error .unfinished
  | n + 1, busy, literal, t =>
      if mode = .guarded ∧ ¬busy.Nodup then .error .repeated
      else step l (attempt l mode n busy) (expand mode (attempt l mode n) busy) literal t

variable {l : Lineage} {busy : List FieldKey}

def settled (l : Lineage) (busy : List FieldKey) (literal : Literal) (t : TypeExpr Ref) :
    Outcome JsonValue :=
  .ok (coerce l busy literal t)

theorem items_settled (t : TypeExpr Ref) (xs : List Literal) :
    items (settled l busy) t xs = .ok (coerceItems l busy xs t) := by
  induction xs with
  | nil => rw [items, coerceItems]
  | cons x xs ih =>
      rw [items, coerceItems, settled, ih]
      cases coerce l busy x t <;> rfl

theorem expand_settled (record : String) (f : InputValue) :
    expand .guarded (settled l) busy record f = .ok (f.default?.bind fun literal =>
      if busy.contains (record, f.name) then none
      else coerce l ((record, f.name) :: busy) literal f.type) := by
  unfold expand
  cases f.default? with
  | none => rfl
  | some literal =>
      change (if (!busy.contains (record, f.name)) = true then _ else _) = _
      rw [Option.bind_some]
      cases busy.contains (record, f.name) <;> rfl

theorem members_settled {record : NamedType} (hrecord : record ∈ l.types)
    (entries : List (Ident × Literal)) (fields : List InputValue)
    (hfields : fields ⊆ record.recordFields) :
    members (settled l busy) (expand .guarded (settled l) busy) record.name entries fields =
      .ok (coerceFields l busy record hrecord entries fields hfields) := by
  induction fields with
  | nil => rw [members, coerceFields]
  | cons f fs ih =>
      have hrest := ih fun _ h => hfields (List.mem_cons_of_mem _ h)
      rw [members, coerceFields, hrest, member]
      cases he : entry? entries f.name with
      | some e =>
          dsimp only [settled, Except.map]
          cases coerce l busy e.2 f.type <;> rfl
      | none =>
          rw [expand_settled]
          cases hd : f.default? with
          | none =>
              dsimp only [Except.map, Option.bind_none]
              cases f.type.isNonNull <;> rfl
          | some literal =>
              dsimp only [Except.map, Option.bind_some]
              by_cases hb : busy.contains (record.name, f.name) = true
              · rw [if_pos hb, dif_pos hb]
                dsimp only
                cases f.type.isNonNull <;> rfl
              · rw [if_neg hb, dif_neg hb]
                cases coerce l ((record.name, f.name) :: busy) literal f.type with
                | some v => rfl
                | none =>
                    dsimp only
                    cases f.type.isNonNull <;> rfl

theorem step_settled (literal : Literal) (t : TypeExpr Ref) :
    step l (settled l busy) (expand .guarded (settled l) busy) literal t =
      .ok (coerce l busy literal t) := by
  cases t with
  | nonNull t => cases literal <;> simp [step, coerce, settled]
  | list t =>
      cases literal with
      | list xs => simp [step, coerce, items_settled, Except.map]
      | _ => simp [step, coerce, settled, Except.map]
  | named r =>
      cases literal with
      | object entries =>
          rw [coerce]
          split
          · rename_i ht
            simp only [step, ht]
          · rename_i target ht
            split
            · rename_i record hr
              simp only [step, ht, hr]
              split
              · rw [members_settled (Lineage.mem_types_of_resolve? ht)]
                rfl
              · rfl
            · rename_i hr
              simp only [step, ht, hr]
      | _ => simp [step, coerce]

inductive Touches (l : Lineage) (t : TypeExpr Ref) : TypeExpr Ref → Prop
  | same {t' : TypeExpr Ref} (h : t'.leaf = t.leaf) : Touches l t t'
  | field {target : NamedType} {f : InputValue} (ht : l.resolve? t.leaf = some target)
      (hf : f ∈ target.recordFields) : Touches l t f.type

section Transfer

variable {c c' : Literal → TypeExpr Ref → Outcome JsonValue}
  {a a' : String → InputValue → Outcome JsonValue} {entries : List (Ident × Literal)} {record : String}

theorem items_transfer {t : TypeExpr Ref} (hc : ∀ x v, c x t = .ok v → c' x t = .ok v)
    {xs : List Literal} {vs : Option (List JsonValue)} (h : items c t xs = .ok vs) :
    items c' t xs = .ok vs := by
  induction xs generalizing vs with
  | nil => exact h
  | cons x xs ih =>
      rw [items] at h ⊢
      cases hx : c x t with
      | error e => exact nomatch (hx ▸ h :)
      | ok v =>
          rw [hx] at h
          rw [hc x v hx]
          cases v with
          | none => exact h
          | some v =>
              obtain ⟨ws, hws, rfl⟩ := exists_of_map_eq_ok h
              dsimp only
              rw [ih hws]
              rfl

theorem member_transfer {f : InputValue} (hc : ∀ x v, c x f.type = .ok v → c' x f.type = .ok v)
    (ha : ∀ v, a record f = .ok v → a' record f = .ok v) {m : Option (List (String × JsonValue))}
    (h : member c a record entries f = .ok m) : member c' a' record entries f = .ok m := by
  unfold member at h ⊢
  cases he : entry? entries f.name with
  | some e =>
      rw [he] at h
      obtain ⟨v, hv, rfl⟩ := exists_of_map_eq_ok h
      dsimp only
      rw [hc e.2 v hv]
      rfl
  | none =>
      rw [he] at h
      obtain ⟨v, hv, rfl⟩ := exists_of_map_eq_ok h
      dsimp only
      rw [ha v hv]
      rfl

theorem members_transfer {fields : List InputValue}
    (hc : ∀ f ∈ fields, ∀ x v, c x f.type = .ok v → c' x f.type = .ok v)
    (ha : ∀ f ∈ fields, ∀ v, a record f = .ok v → a' record f = .ok v)
    {ms : Option (List (String × JsonValue))} (h : members c a record entries fields = .ok ms) :
    members c' a' record entries fields = .ok ms := by
  induction fields generalizing ms with
  | nil => exact h
  | cons f fs ih =>
      rw [List.forall_mem_cons] at hc ha
      rw [members] at h ⊢
      cases hm : member c a record entries f with
      | error e => exact nomatch (hm ▸ h :)
      | ok m =>
          rw [hm] at h
          rw [member_transfer hc.1 ha.1 hm]
          cases m with
          | none => exact h
          | some m =>
              obtain ⟨rest, hrest, rfl⟩ := exists_of_map_eq_ok h
              dsimp only
              rw [ih hc.2 ha.2 hrest]
              rfl

theorem step_transfer {literal : Literal} {t : TypeExpr Ref}
    (hc : ∀ t', Touches l t t' → ∀ x v, c x t' = .ok v → c' x t' = .ok v)
    (ha : ∀ target f, l.resolve? t.leaf = some target → f ∈ target.recordFields →
      ∀ v, a target.name f = .ok v → a' target.name f = .ok v)
    {v : Option JsonValue} (h : step l c a literal t = .ok v) : step l c' a' literal t = .ok v := by
  cases t with
  | nonNull t =>
      have hsame := hc t (.same rfl)
      cases literal with
      | null => exact h
      | _ => exact hsame _ v h
  | list t =>
      have hsame := hc t (.same rfl)
      cases literal with
      | null => exact h
      | list xs =>
          obtain ⟨vs, hvs, rfl⟩ := exists_of_map_eq_ok h
          rw [step, items_transfer hsame hvs]
          rfl
      | _ =>
          obtain ⟨w, hw, rfl⟩ := exists_of_map_eq_ok h
          simp only [step, hsame _ w hw]
          rfl
  | named r =>
      cases literal with
      | object entries =>
          simp only [step] at h ⊢
          cases ht : l.resolve? r with
          | none => rwa [ht] at h
          | some target =>
              rw [ht] at h
              dsimp only at h ⊢
              cases hr : record? target.body.variants with
              | none => rwa [hr] at h
              | some record =>
                  have hfields := recordFields_of_record? hr
                  rw [hr] at h
                  dsimp only at h ⊢
                  split
                  · rename_i hknown
                    rw [if_pos hknown] at h
                    obtain ⟨ms, hms, rfl⟩ := exists_of_map_eq_ok h
                    rw [members_transfer (fun f hf => hc f.type (.field ht (hfields ▸ hf)))
                      (fun f hf => ha target f ht (hfields ▸ hf)) hms]
                    rfl
                  · rename_i hknown
                    rwa [if_neg hknown] at h
      | _ => exact h

end Transfer

theorem attempt_mono {mode : Mode} {n m : Nat} {busy : List FieldKey} {literal : Literal}
    {t : TypeExpr Ref} {v : Option JsonValue} (hnm : n ≤ m)
    (h : attempt l mode n busy literal t = .ok v) : attempt l mode m busy literal t = .ok v := by
  induction n generalizing m busy literal t v with
  | zero => exact nomatch h
  | succ n ih =>
      cases m with
      | zero => exact absurd hnm (Nat.not_succ_le_zero n)
      | succ m =>
          have hle := Nat.le_of_succ_le_succ hnm
          rw [attempt] at h ⊢
          split
          · rename_i hstop
            rw [if_pos hstop] at h
            exact nomatch h
          · rename_i hgo
            rw [if_neg hgo] at h
            refine step_transfer (fun t' _ x w hw => ih hle hw) (fun target f _ _ w hw => ?_) h
            unfold expand at hw ⊢
            split at hw
            · exact hw
            · split at hw
              · rename_i hexpands
                rw [if_pos hexpands]
                exact ih hle hw
              · rename_i hexpands
                rw [if_neg hexpands]
                exact hw

section Eventually

open Filter

variable {c : Nat → Literal → TypeExpr Ref → Outcome JsonValue}
  {c' : Literal → TypeExpr Ref → Outcome JsonValue} {a : Nat → String → InputValue → Outcome JsonValue}
  {a' : String → InputValue → Outcome JsonValue} {entries : List (Ident × Literal)}

theorem items_eventually {t : TypeExpr Ref} {xs : List Literal}
    (hc : ∀ x ∈ xs, ∀ᶠ n in atTop, c n x t = c' x t) :
    ∀ᶠ n in atTop, items (c n) t xs = items c' t xs := by
  induction xs with
  | nil => exact .of_forall fun _ => rfl
  | cons x xs ih =>
      rw [List.forall_mem_cons] at hc
      filter_upwards [hc.1, ih hc.2] with n hx hxs
      rw [items, items, hx, hxs]

theorem member_eventually {record : String} {f : InputValue}
    (hc : ∀ e ∈ entries, ∀ᶠ n in atTop, c n e.2 f.type = c' e.2 f.type)
    (ha : ∀ᶠ n in atTop, a n record f = a' record f) :
    ∀ᶠ n in atTop, member (c n) (a n) record entries f = member c' a' record entries f := by
  unfold member
  cases he : entry? entries f.name with
  | some e =>
      filter_upwards [hc e (List.mem_of_find?_eq_some he)] with n hn
      rw [hn]
  | none =>
      filter_upwards [ha] with n hn
      rw [hn]

theorem members_eventually {record : String} {fields : List InputValue}
    (hc : ∀ e ∈ entries, ∀ t, ∀ᶠ n in atTop, c n e.2 t = c' e.2 t)
    (ha : ∀ f ∈ fields, ∀ᶠ n in atTop, a n record f = a' record f) :
    ∀ᶠ n in atTop, members (c n) (a n) record entries fields = members c' a' record entries fields := by
  induction fields with
  | nil => exact .of_forall fun _ => rfl
  | cons f fs ih =>
      rw [List.forall_mem_cons] at ha
      filter_upwards [member_eventually (fun e he => hc e he f.type) ha.1, ih ha.2] with n hf hfs
      rw [members, members, hf, hfs]

theorem step_eventually {literal : Literal} {t : TypeExpr Ref}
    (hc : ∀ x t', Prod.Lex (· < ·) (· < ·) (sizeOf x, sizeOf t') (sizeOf literal, sizeOf t) →
      ∀ᶠ n in atTop, c n x t' = c' x t')
    (ha : ∀ target ∈ l.types, ∀ f ∈ target.recordFields,
      ∀ᶠ n in atTop, a n target.name f = a' target.name f) :
    ∀ᶠ n in atTop, step l (c n) (a n) literal t = step l c' a' literal t := by
  cases t with
  | nonNull t =>
      have hsame : ∀ᶠ n in atTop, c n literal t = c' literal t := by
        refine hc literal t (.right _ ?_)
        simp only [TypeExpr.nonNull.sizeOf_spec]
        omega
      filter_upwards [hsame] with n hn
      cases literal <;> first | rfl | exact hn
  | list t =>
      have hsame : ∀ᶠ n in atTop, c n literal t = c' literal t := by
        refine hc literal t (.right _ ?_)
        simp only [TypeExpr.list.sizeOf_spec]
        omega
      cases literal with
      | null => exact .of_forall fun _ => rfl
      | list xs =>
          have hitems : ∀ x ∈ xs, ∀ᶠ n in atTop, c n x t = c' x t := by
            refine fun x hx => hc x t (.left _ _ ?_)
            have := List.sizeOf_lt_of_mem hx
            simp only [Literal.list.sizeOf_spec]
            omega
          filter_upwards [items_eventually hitems] with n hn
          simp only [step, hn]
      | _ =>
          filter_upwards [hsame] with n hn
          simp only [step, hn]
  | named r =>
      cases literal with
      | object entries =>
          simp only [step]
          cases ht : l.resolve? r with
          | none => exact .of_forall fun _ => rfl
          | some target =>
              dsimp only
              cases hr : record? target.body.variants with
              | none => exact .of_forall fun _ => rfl
              | some record =>
                  have hentries : ∀ e ∈ entries, ∀ t', ∀ᶠ n in atTop, c n e.2 t' = c' e.2 t' := by
                    refine fun e he t' => hc e.2 t' (.left _ _ ?_)
                    have := List.sizeOf_lt_of_mem he
                    have : sizeOf e.2 < sizeOf e := by
                      cases e
                      simp only [Prod.mk.sizeOf_spec]
                      omega
                    simp only [Literal.object.sizeOf_spec]
                    omega
                  have hfields := recordFields_of_record? hr
                  filter_upwards [members_eventually hentries fun f hf =>
                    ha target (Lineage.mem_types_of_resolve? ht) f (hfields ▸ hf)] with n hn
                  simp only [hn]
      | _ => exact .of_forall fun _ => rfl

theorem eventually_attempt (l : Lineage) (busy : List FieldKey) (hbusy : busy.Nodup)
    (literal : Literal) (t : TypeExpr Ref) :
    ∀ᶠ n in atTop, attempt l .guarded n busy literal t = settled l busy literal t := by
  -- by the measure by which conversion is defined
  have hc (x : Literal) (t' : TypeExpr Ref)
      (hlt : Prod.Lex (· < ·) (· < ·) (sizeOf x, sizeOf t') (sizeOf literal, sizeOf t)) :
      ∀ᶠ n in atTop, attempt l .guarded n busy x t' = settled l busy x t' :=
    eventually_attempt l busy hbusy x t'
  have ha (target : NamedType) (ht : target ∈ l.types) (f : InputValue) (hf : f ∈ target.recordFields) :
      ∀ᶠ n in atTop, expand .guarded (attempt l .guarded n) busy target.name f =
        expand .guarded (settled l) busy target.name f := by
    unfold expand
    cases f.default? with
    | none => exact .of_forall fun _ => rfl
    | some default =>
        dsimp only
        split
        · rename_i hexpands
          have hfree : busy.contains (target.name, f.name) = false := by
            simpa [Mode.expands] using hexpands
          have hnodup : ((target.name, f.name) :: busy).Nodup :=
            List.nodup_cons.mpr ⟨by simpa using hfree, hbusy⟩
          exact eventually_attempt l _ hnodup default f.type
        · exact .of_forall fun _ => rfl
  rw [← map_add_atTop_eq_nat 1, eventually_map]
  filter_upwards [step_eventually hc ha] with n hn
  rw [attempt, if_neg (fun h => h.2 hbusy), hn, step_settled, settled]
termination_by (l.unexpanded busy, sizeOf literal, sizeOf t)
decreasing_by
  · exact .right _ hlt
  · exact .left _ _ (Lineage.unexpanded_cons_lt (Lineage.mem_fieldKeys ht hf) hfree)

theorem value?_of_attempt {n : Nat} {literal : Literal} {t : TypeExpr Ref} {v : Option JsonValue}
    (h : attempt l .guarded n [] literal t = .ok v) : l.value? literal t = v := by
  obtain ⟨N, hN⟩ := eventually_atTop.mp (eventually_attempt l [] List.nodup_nil literal t)
  have hmax := attempt_mono (Nat.le_max_right N n) h
  exact Except.ok.inj ((hN _ (Nat.le_max_left N n)).symm.trans hmax)

end Eventually

end Conversion

end SchemaGraph
