import SchemaGraph.Schema.Lineage
import SchemaGraph.Json.Value

namespace SchemaGraph

mutual

def Literal.toJson? : Literal → Option JsonValue
  | .null => some .null
  | .int n => some (.int n)
  | .float x => JsonValue.ofBinary64? x
  | .string s => some (.string s)
  | .bool b => some (.bool b)
  | .enum tag => some (.string tag)
  | .list items => (itemsToJson? items).map .array
  | .object entries => (entriesToJson? entries).map .ofMembers

def itemsToJson? : List Literal → Option (List JsonValue)
  | [] => some []
  | x :: xs => do
      let v ← x.toJson?
      let vs ← itemsToJson? xs
      return v :: vs

def entriesToJson? : List (Ident × Literal) → Option (List (String × JsonValue))
  | [] => some []
  | (k, x) :: es => do
      let v ← x.toJson?
      let vs ← entriesToJson? es
      return (k.text, v) :: vs

end

def scalarToJson? (scalar : String) (literal : Literal) : Option JsonValue :=
  if scalar = "Int" then
    match literal with
    | .int n => if -Int.pow 2 31 ≤ n ∧ n < Int.pow 2 31 then some (.int n) else none
    | _ => none
  else if scalar = "Float" then
    match literal with
    | .int n => JsonValue.ofBinary64? (.ofInt n)
    | .float x => JsonValue.ofBinary64? x
    | _ => none
  else if scalar = "String" then
    match literal with
    | .string s => some (.string s)
    | _ => none
  else if scalar = "Boolean" then
    match literal with
    | .bool b => some (.bool b)
    | _ => none
  else if scalar = "ID" then
    match literal with
    | .string s => some (.string s)
    | .int n => some (.string (toString n))
    | _ => none
  else literal.toJson?

abbrev FieldKey := String × String

namespace Lineage

def fieldKeys (l : Lineage) : List FieldKey :=
  l.types.flatMap fun t => t.recordFields.map fun f => (t.name, f.name)

def unexpanded (l : Lineage) (busy : List FieldKey) : Nat :=
  (l.fieldKeys.filter (!busy.contains ·)).length

theorem unexpanded_cons_lt {l : Lineage} {busy : List FieldKey} {k : FieldKey}
    (hk : k ∈ l.fieldKeys) (hb : busy.contains k = false) :
    l.unexpanded (k :: busy) < l.unexpanded busy := by
  unfold unexpanded
  have hsplit : l.fieldKeys.filter (!(k :: busy).contains ·) =
      (l.fieldKeys.filter (!busy.contains ·)).filter (· != k) := by
    rw [List.filter_filter]
    congr 1
    funext x
    by_cases hx : x = k <;> simp [hx]
  rw [hsplit]
  have hmem : k ∈ l.fieldKeys.filter (!busy.contains ·) := by
    simpa [List.mem_filter, hk] using hb
  exact List.length_filter_lt_length_iff_exists.mpr ⟨k, hmem, by simp⟩

theorem mem_fieldKeys {l : Lineage} {t : NamedType} {f : InputValue} (ht : t ∈ l.types)
    (hf : f ∈ t.recordFields) : (t.name, f.name) ∈ l.fieldKeys :=
  List.mem_flatMap.mpr ⟨t, ht, List.mem_map.mpr ⟨f, hf, rfl⟩⟩

end Lineage

theorem recordFields_of_record? {t : NamedType} {v : Variant}
    (hv : record? t.body.variants = some v) : t.recordFields = v.fields := by
  simp [NamedType.recordFields, hv]

def NamedType.leafValue? (t : NamedType) (literal : Literal) : Option JsonValue :=
  match t.body with
  | .scalar _ => scalarToJson? t.name literal
  | .data variants =>
      match record? variants, literal with
      | none, .enum tag => if variants.any (·.name == tag) then some (.string tag) else none
      | _, _ => none
  | _ => none

def entry? (entries : List (Ident × Literal)) (name : String) : Option (Ident × Literal) :=
  entries.find? (·.1.text == name)

theorem sizeOf_entry_lt {entries : List (Ident × Literal)} {name : String} {e : Ident × Literal}
    (h : entry? entries name = some e) : sizeOf e.2 < sizeOf entries := by
  have hm := List.mem_of_find?_eq_some h
  have h1 := List.sizeOf_lt_of_mem hm
  have h2 : sizeOf e.2 < sizeOf e := by
    cases e
    simp only [Prod.mk.sizeOf_spec]
    omega
  omega

mutual

/-- The value of a literal of type `t`, if it fits. The defaults of the fields in `busy` are being
expanded. -/
def coerce (l : Lineage) (busy : List FieldKey) (literal : Literal) :
    TypeExpr Ref → Option JsonValue
  | .nonNull t =>
      match literal with
      | .null => none
      | single => coerce l busy single t
  | .list t =>
      match literal with
      | .null => some .null
      | .list items => (coerceItems l busy items t).map .array
      | single => (coerce l busy single t).map fun v => .array [v]
  | .named r =>
      match literal with
      | .null => some .null
      | .object entries =>
          match ht : l.resolve? r with
          | none => none
          | some target =>
              match hr : record? target.body.variants with
              | some record =>
                  if entries.all fun e => record.fields.any (·.name == e.1.text) then
                    (coerceFields l busy target (Lineage.mem_types_of_resolve? ht) entries
                      record.fields (by rw [recordFields_of_record? hr]; simp)).map .ofMembers
                  else none
              | none => target.leafValue? (.object entries)
      | single => (l.resolve? r).bind (·.leafValue? single)
termination_by t => (l.unexpanded busy, sizeOf literal, sizeOf t)

def coerceItems (l : Lineage) (busy : List FieldKey) (items : List Literal) (t : TypeExpr Ref) :
    Option (List JsonValue) :=
  match items with
  | [] => some []
  | x :: xs =>
      match coerce l busy x t with
      | none => none
      | some v => (coerceItems l busy xs t).map (v :: ·)
termination_by (l.unexpanded busy, sizeOf items, 0)

def coerceFields (l : Lineage) (busy : List FieldKey) (record : NamedType)
    (hrecord : record ∈ l.types) (entries : List (Ident × Literal)) (fields : List InputValue)
    (hfields : fields ⊆ record.recordFields) : Option (List (String × JsonValue)) :=
  match fields with
  | [] => some []
  | f :: fs =>
      let given :=
        match he : entry? entries f.name with
        | some e => (coerce l busy e.2 f.type).map fun v => [(f.name, v)]
        | none =>
            let default :=
              match f.default? with
              | none => none
              | some literal =>
                  if hb : busy.contains (record.name, f.name) then none
                  else
                    have := Lineage.unexpanded_cons_lt
                      (Lineage.mem_fieldKeys hrecord (hfields List.mem_cons_self)) (by simpa using hb)
                    coerce l ((record.name, f.name) :: busy) literal f.type
            match default with
            | some v => some [(f.name, v)]
            | none => if f.type.isNonNull then none else some []
      match given with
      | none => none
      | some members =>
          (coerceFields l busy record hrecord entries fs
            (fun _ h => hfields (List.mem_cons_of_mem _ h))).map (members ++ ·)
termination_by (l.unexpanded busy, sizeOf entries, sizeOf fields)
decreasing_by
  · exact Prod.Lex.right _ (Prod.Lex.left _ _ (sizeOf_entry_lt he))
  · exact Prod.Lex.left _ _ this
  · exact Prod.Lex.right _ (Prod.Lex.right _ (by simp only [List.cons.sizeOf_spec]; omega))

end

def Lineage.value? (l : Lineage) (literal : Literal) (t : TypeExpr Ref) : Option JsonValue :=
  coerce l [] literal t

def InputValue.defaultValue? (l : Lineage) (v : InputValue) : Option JsonValue :=
  v.default?.bind (l.value? · v.type)

def Directive.values? (l : Lineage) (d : Directive) (applied : List Applied) :
    Option (List (String × JsonValue)) :=
  (Applied.find? d.name applied).map fun node =>
    d.arguments.filterMap fun a =>
      let value := match Applied.argument? a.name node with
        | some literal => l.value? literal a.type
        | none => a.defaultValue? l
      value.map (a.name, ·)

end SchemaGraph
