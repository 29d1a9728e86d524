import Mathlib.Data.List.Perm.Basic
import SchemaGraph.Proofs.Rules
import SchemaGraph.Proofs.SyntaxTree

namespace SchemaGraph

namespace SyntaxNode

section Gather

variable {α β : Type} (pick : SyntaxNode → Option β)

def gather (n : SyntaxNode) : List β := n.tree.filterMap pick

theorem gather_eq (n : SyntaxNode) :
    n.gather pick = (pick n).toList ++ n.children.flatMap (gather pick) := by
  rw [gather, tree_eq, List.filterMap_cons, List.filterMap_flatMap]
  cases pick n <;> rfl

theorem flatMap_none (xs : List α) : (xs.flatMap fun _ => ([] : List β)) = [] :=
  List.flatMap_eq_nil_iff.mpr fun _ _ => rfl

end Gather

@[simp] def reference? : SyntaxNode → Option Ident
  | .reference n => some n
  | _ => none

def references : SyntaxNode → List Ident := gather reference?

theorem references_eq (n : SyntaxNode) :
    n.references = (reference? n).toList ++ n.children.flatMap references := gather_eq reference? n

@[simp] theorem references_name (n : Ident) : (name n).references = [] := by
  rw [references_eq]
  rfl

@[simp] theorem references_reference (n : Ident) : (reference n).references = [n] := by
  rw [references_eq]
  rfl

@[simp] theorem references_argument (a : Argument) : (argument a).references = [] := by
  simp [references_eq (argument a)]

@[simp] theorem references_applied (l : DirectiveLocation) (a : Applied) :
    (applied l a).references = [] := by
  simp [references_eq (applied l a)]

@[simp] theorem references_input (l : DirectiveLocation) (d : InputDef) :
    (input l d).references = [d.typeName] := by
  simp [references_eq (input l d), InputDef.typeName]

@[simp] theorem references_field (d : FieldDef) :
    (field d).references = d.arguments.map InputDef.typeName ++ [d.type.leaf] := by
  simp [references_eq (field d), List.flatMap_map, flatMap_none, ← List.map_eq_flatMap]

@[simp] theorem references_variant (d : VariantDef) :
    (variant d).references = d.fields.map InputDef.typeName := by
  simp [references_eq (variant d), List.flatMap_map, flatMap_none, ← List.map_eq_flatMap]

@[simp] theorem references_record (d : VariantDef) :
    (record d).references = d.fields.map InputDef.typeName := by
  simp [references_eq (record d), List.flatMap_map, flatMap_none, ← List.map_eq_flatMap]

@[simp] theorem references_operation (d : OperationDef) : (operation d).references = [d.type] := by
  simp [references_eq (operation d)]

theorem flatMap_nodes {β : Type} {f : SyntaxNode → List β} (h : ∀ v, f (record v) = f (variant v))
    (type : Ident) (vs : List VariantDef) :
    (VariantDef.nodes type vs).flatMap f = vs.flatMap fun v => f (variant v) := by
  unfold VariantDef.nodes
  split
  · split <;> simp [h]
  · rw [List.flatMap_map]

theorem references_nodes (type : Ident) (vs : List VariantDef) :
    (VariantDef.nodes type vs).flatMap references =
      vs.flatMap fun v => v.fields.map InputDef.typeName := by
  rw [flatMap_nodes (fun v => by simp)]
  simp

theorem references_fields (fs : List FieldDef) :
    (fs.flatMap FieldDef.typeNames).Perm ((fs.map field).flatMap references) := by
  rw [List.flatMap_map]
  refine List.Perm.flatMap_left fs fun d _ => ?_
  rw [references_field]
  exact (List.perm_append_singleton _ _).symm

theorem references_body (type : Ident) (ds : List Applied) (b : TypeBody) :
    b.typeNames.Perm ((b.nodes type ds).flatMap references) := by
  cases b with
  | object interfaces fields =>
      simpa [TypeBody.typeNames, TypeBody.nodes, List.flatMap_map, flatMap_none] using
        (references_fields fields).append_left interfaces
  | interface interfaces fields =>
      simpa [TypeBody.typeNames, TypeBody.nodes, List.flatMap_map, flatMap_none] using
        (references_fields fields).append_left interfaces
  | _ => simp [TypeBody.typeNames, TypeBody.nodes, List.flatMap_map, flatMap_none, references_nodes]

theorem references_definition (x : Definition) :
    x.typeNames.Perm (definition x).references := by
  rw [references_eq]
  cases x <;> simp [Definition.typeNames, Definition.nodes, SchemaDef.nodes,
    TypeDef.nodes, DirectiveDef.nodes, List.flatMap_map, flatMap_none, references_body,
    ← List.map_eq_flatMap]

@[simp] def application? : SyntaxNode → Option (DirectiveLocation × Applied)
  | .applied l a => some (l, a)
  | _ => none

def applications : SyntaxNode → List (DirectiveLocation × Applied) := gather application?

theorem applications_eq (n : SyntaxNode) :
    n.applications = (application? n).toList ++ n.children.flatMap applications :=
  gather_eq application? n

@[simp] theorem applications_name (n : Ident) : (name n).applications = [] := by
  rw [applications_eq]
  rfl

@[simp] theorem applications_reference (n : Ident) : (reference n).applications = [] := by
  rw [applications_eq]
  rfl

@[simp] theorem applications_argument (a : Argument) : (argument a).applications = [] := by
  simp [applications_eq (argument a)]

@[simp] theorem applications_applied (l : DirectiveLocation) (a : Applied) :
    (applied l a).applications = [(l, a)] := by
  simp [applications_eq (applied l a)]

@[simp] theorem applications_input (l : DirectiveLocation) (d : InputDef) :
    (input l d).applications = d.directives.map (l, ·) := by
  simp [applications_eq (input l d), List.flatMap_map, flatMap_none, ← List.map_eq_flatMap]

@[simp] theorem applications_operation (d : OperationDef) : (operation d).applications = [] := by
  simp [applications_eq (operation d)]

end SyntaxNode

namespace Site

def applications (s : Site) : List (DirectiveLocation × Applied) := s.applied.map (s.location, ·)

end Site

namespace SyntaxNode

@[simp] theorem applications_field (d : FieldDef) : (d.sites.flatMap Site.applications).Perm
    (field d).applications := by
  simp [applications_eq (field d), List.flatMap_map, FieldDef.sites,
    Site.applications, InputDef.site, ← List.map_eq_flatMap, List.perm_append_comm]

@[simp] theorem applications_variant (d : VariantDef) :
    (variant d).applications = d.sites.flatMap Site.applications := by
  simp [applications_eq (variant d), List.flatMap_map, VariantDef.sites,
    Site.applications, InputDef.site, ← List.map_eq_flatMap]

@[simp] theorem applications_record (d : VariantDef) :
    (record d).applications = d.sites.flatMap Site.applications := by
  simp [applications_eq (record d), List.flatMap_map, VariantDef.sites,
    Site.applications, InputDef.site, ← List.map_eq_flatMap]

theorem applications_fields (fs : List FieldDef) :
    ((fs.flatMap FieldDef.sites).flatMap Site.applications).Perm
      ((fs.map field).flatMap applications) := by
  rw [List.flatMap_assoc, List.flatMap_map]
  exact List.Perm.flatMap_left fs fun d _ => applications_field d

theorem applications_body (type : Ident) (ds : List Applied) (b : TypeBody) :
    (ds.map (b.location, ·) ++ b.sites.flatMap Site.applications).Perm
      ((b.nodes type ds).flatMap applications) := by
  cases b with
  | object interfaces fields =>
      simpa [TypeBody.location, TypeBody.sites, TypeBody.nodes, List.flatMap_map, flatMap_none,
        ← List.map_eq_flatMap] using
        (applications_fields fields).append_left _
  | interface interfaces fields =>
      simpa [TypeBody.location, TypeBody.sites, TypeBody.nodes, List.flatMap_map, flatMap_none,
        ← List.map_eq_flatMap] using
        (applications_fields fields).append_left _
  | data vs =>
      simp [TypeBody.location, TypeBody.sites, TypeBody.nodes, List.flatMap_map, List.flatMap_assoc,
        flatMap_nodes (f := applications), ← List.map_eq_flatMap]
  | _ =>
      simp [TypeBody.location, TypeBody.sites, TypeBody.nodes, List.flatMap_map, flatMap_none,
        ← List.map_eq_flatMap]

theorem applications_definition (x : Definition) :
    (x.sites.flatMap Site.applications).Perm (definition x).applications := by
  rw [applications_eq]
  cases x <;> simp [Definition.sites, Definition.nodes, SchemaDef.nodes,
    TypeDef.nodes, DirectiveDef.nodes, List.flatMap_map, flatMap_none, applications_body,
    Site.applications, InputDef.site, ← List.map_eq_flatMap]

end SyntaxNode

namespace Document

variable (d : Document) (schema : Option Schema)

def Knows (n : String) : Prop :=
  Builtin.isBuiltin n = true ∨ n ∈ d.types.map (·.name.text) ∨
    ∃ S, schema = some S ∧ n ∈ S.typeMap.map NamedType.name

def declaration? (n : String) : Option DirectiveDef :=
  (d.directives.filter (·.name.text == n)).getLast?.or
    ((schema.bind fun S => (S.snapshot.directives.filter (·.name == n)).getLast?.map (·.node)).or
      ((Builtin.directives.filter (·.name == n)).getLast?.map (·.node)))

theorem isKnownType_iff {n : String} : Validation.isKnownType d schema n = true ↔ d.Knows schema n := by
  have hschema : Validation.hasType schema n = true ↔
      ∃ S, schema = some S ∧ n ∈ S.typeMap.map NamedType.name := by
    cases schema with
    | none => simp [Validation.hasType]
    | some S =>
        rw [Validation.hasType, Option.any_some, Schema.type?, Option.isSome_iff_ne_none, ne_eq,
          Keyed.get?_eq_none_iff]
        simp
  rw [Validation.isKnownType, Bool.or_eq_true, Bool.or_eq_true, hschema, Knows, or_assoc]
  simp

instance (n : String) : Decidable (d.Knows schema n) := decidable_of_iff _ (isKnownType_iff d schema)

theorem allowed?_eq_declaration? (n : String) :
    Validation.allowed? d schema n = (d.declaration? schema n).map DirectiveDef.locations := by
  rw [Validation.allowed?, declaration?, List.getLast?_append, List.getLast?_append]
  cases schema <;> simp

end Document

namespace SyntaxNode

variable (d : Document) (schema : Option Schema)

def unknownType? : SyntaxNode → Option Problem
  | .reference n => if d.Knows schema n.text then none else some (.unknownType n.text)
  | _ => none

def unknownDirective? : SyntaxNode → Option Problem
  | .applied _ a =>
      if (d.declaration? schema a.name.text).isNone then some (.unknownDirective a.name.text) else none
  | _ => none

def misplacedDirective? : SyntaxNode → Option Problem
  | .applied location a =>
      match d.declaration? schema a.name.text with
      | some x =>
          if location ∈ x.locations then none else some (.misplacedDirective a.name.text location)
      | none => none
  | _ => none

end SyntaxNode

namespace Problem

def isUnknownType : Problem → Bool
  | .unknownType _ => true
  | _ => false

def isUnknownDirective : Problem → Bool
  | .unknownDirective _ => true
  | _ => false

def isMisplacedDirective : Problem → Bool
  | .misplacedDirective _ _ => true
  | _ => false

def isLookup (p : Problem) : Bool :=
  p.isUnknownType || p.isUnknownDirective || p.isMisplacedDirective

end Problem

namespace Validation

variable {d : Document} {schema : Option Schema} {p : Problem}

theorem isLookup_loneSchema (hp : p ∈ loneSchema d schema) : p.isLookup = false := by
  unfold loneSchema at hp
  split at hp
  · rw [List.eq_of_mem_map_const hp]
    rfl
  · rw [List.eq_of_mem_map_const hp]
    rfl

theorem isLookup_uniqueTypes (hp : p ∈ uniqueTypes d schema) : p.isLookup = false := by
  by_contra hno
  refine not_mem_uniqueNames (fun n => ?_) (fun n => ?_) _ _ hp
  all_goals
    rintro rfl
    exact hno rfl

theorem isLookup_uniqueDirectives (hp : p ∈ uniqueDirectives d schema) : p.isLookup = false := by
  by_contra hno
  refine not_mem_uniqueNames (fun n => ?_) (fun n => ?_) _ _ hp
  all_goals
    rintro rfl
    exact hno rfl

theorem isLookup_typeExtensions (hp : p ∈ typeExtensions d schema) : p.isLookup = false := by
  obtain ⟨e, -, he⟩ := List.mem_filterMap.mp hp
  unfold checkExtension at he
  split at he
  · rw [← Option.some.inj he]
    rfl
  · split at he
    · exact nomatch he
    · rw [← Option.some.inj he]
      rfl

theorem filter_validate {kind : Problem → Bool} (hkind : ∀ p, kind p = true → p.isLookup = true) :
    (validate d schema).filter kind =
      (knownTypes d schema).filter kind ++ (knownDirectives d schema).filter kind := by
  have hnone {ps : List Problem} (hps : ∀ p ∈ ps, p.isLookup = false) : ps.filter kind = [] :=
    List.filter_eq_nil_iff.mpr fun p hp hk => nomatch (hps p hp).symm.trans (hkind p hk)
  simp only [validate, List.filter_append, hnone fun _ => isLookup_loneSchema,
    hnone fun _ => isLookup_uniqueTypes, hnone fun _ => isLookup_uniqueDirectives,
    hnone fun _ => isLookup_typeExtensions, List.nil_append, List.append_nil]

theorem knownTypes_eq_flatMap : knownTypes d schema = d.definitions.flatMap fun x =>
    x.typeNames.filterMap fun n => if d.Knows schema n.text then none else some (.unknownType n.text) := by
  have hname (ns : List Ident) : (ns.filter fun n => !isKnownType d schema n.text).map
      (fun n => Problem.unknownType n.text) = ns.filterMap fun n =>
        if d.Knows schema n.text then none else some (.unknownType n.text) := by
    rw [← List.filterMap_eq_map, List.filterMap_filter]
    refine List.filterMap_congr fun n _ => ?_
    by_cases hk : d.Knows schema n.text
    · simp [hk, (d.isKnownType_iff schema).mpr hk]
    · simp [hk, mt (d.isKnownType_iff schema).mp hk]
  rw [knownTypes, hname, List.filterMap_flatMap]

theorem knownDirectives_eq_flatMap : knownDirectives d schema = d.definitions.flatMap fun x =>
    (x.sites.flatMap Site.applications).filterMap fun a => checkApplied d schema a.1 a.2 := by
  rw [knownDirectives, List.flatMap_assoc]
  simp only [List.filterMap_flatMap, Site.applications, List.filterMap_map]
  rfl

end Validation

def Document.Reports (d : Document) (schema : Option Schema) (kind : Problem → Bool)
    (stray : SyntaxNode → Option Problem) : Prop :=
  ∃ found : Definition → List Problem, (validate d schema).filter kind = d.definitions.flatMap found ∧
    ∀ x, (found x).Perm ((SyntaxNode.definition x).tree.filterMap stray)

namespace Document

open Validation

variable (d : Document) (schema : Option Schema)

theorem reports_unknownType :
    d.Reports schema Problem.isUnknownType (SyntaxNode.unknownType? d schema) := by
  have hkind (p : Problem) (h : p.isUnknownType = true) : p.isLookup = true := by
    simp [Problem.isLookup, h]
  have htypes : (knownTypes d schema).filter Problem.isUnknownType = knownTypes d schema := by
    refine List.filter_eq_self.mpr fun p hp => ?_
    obtain ⟨n, -, -, rfl⟩ := mem_knownTypes.mp hp
    rfl
  have hdirectives : (knownDirectives d schema).filter Problem.isUnknownType = [] := by
    refine List.filter_eq_nil_iff.mpr fun p hp hp' => ?_
    cases p with
    | unknownType n => exact unknownType_not_mem_knownDirectives hp
    | _ => exact nomatch hp'
  have hall : (validate d schema).filter Problem.isUnknownType = _ := filter_validate hkind
  rw [htypes, hdirectives, List.append_nil, knownTypes_eq_flatMap] at hall
  refine ⟨_, hall, fun x => ?_⟩
  have hpick : SyntaxNode.unknownType? d schema = fun m => (SyntaxNode.reference? m).bind fun n =>
      if d.Knows schema n.text then none else some (.unknownType n.text) := by
    funext m
    cases m <;> rfl
  rw [hpick, ← List.filterMap_filterMap]
  exact (SyntaxNode.references_definition x).filterMap _

theorem reports_directive {kind : Problem → Bool} {stray : SyntaxNode → Option Problem}
    (hkind : ∀ p, kind p = true → p.isLookup = true) (htype : ∀ n, kind (.unknownType n) = false)
    (hstray : ∀ m, stray m = (SyntaxNode.application? m).bind fun a =>
      (checkApplied d schema a.1 a.2).filter kind) : d.Reports schema kind stray := by
  have htypes : (knownTypes d schema).filter kind = [] := by
    refine List.filter_eq_nil_iff.mpr fun p hp => ?_
    obtain ⟨n, -, -, rfl⟩ := mem_knownTypes.mp hp
    simp [htype]
  have hall : (validate d schema).filter kind = _ := filter_validate hkind
  rw [htypes, List.nil_append, knownDirectives_eq_flatMap, List.filter_flatMap] at hall
  simp only [List.filter_filterMap] at hall
  refine ⟨_, hall, fun x => ?_⟩
  rw [funext hstray, ← List.filterMap_filterMap]
  exact (SyntaxNode.applications_definition x).filterMap _

theorem checkApplied_eq (location : DirectiveLocation) (a : Applied) :
    checkApplied d schema location a =
      match d.declaration? schema a.name.text with
      | none => some (.unknownDirective a.name.text)
      | some x =>
          if location ∈ x.locations then none else some (.misplacedDirective a.name.text location) := by
  rw [checkApplied, allowed?_eq_declaration?]
  cases d.declaration? schema a.name.text with
  | none => rfl
  | some x => simp only [Option.map_some, List.contains_iff_mem]

theorem unknownDirective?_eq (m : SyntaxNode) : m.unknownDirective? d schema =
    (SyntaxNode.application? m).bind fun a =>
      (checkApplied d schema a.1 a.2).filter Problem.isUnknownDirective := by
  cases m with
  | applied location a =>
      simp only [SyntaxNode.unknownDirective?, SyntaxNode.application?, Option.bind_some, checkApplied_eq]
      cases d.declaration? schema a.name.text with
      | none => rfl
      | some x =>
          simp only [Option.isNone_some, Bool.false_eq_true, if_false]
          split <;> rfl
  | _ => rfl

theorem misplacedDirective?_eq (m : SyntaxNode) : m.misplacedDirective? d schema =
    (SyntaxNode.application? m).bind fun a =>
      (checkApplied d schema a.1 a.2).filter Problem.isMisplacedDirective := by
  cases m with
  | applied location a =>
      simp only [SyntaxNode.misplacedDirective?, SyntaxNode.application?, Option.bind_some, checkApplied_eq]
      cases d.declaration? schema a.name.text with
      | none => rfl
      | some x =>
          dsimp only
          split <;> rfl
  | _ => rfl

theorem validate_reports_every_node (d : Document) (schema : Option Schema) :
    d.Reports schema Problem.isUnknownType (SyntaxNode.unknownType? d schema) ∧
    d.Reports schema Problem.isUnknownDirective (SyntaxNode.unknownDirective? d schema) ∧
    d.Reports schema Problem.isMisplacedDirective (SyntaxNode.misplacedDirective? d schema) := by
  refine ⟨reports_unknownType d schema,
    reports_directive d schema ?_ (fun _ => rfl) (unknownDirective?_eq d schema),
    reports_directive d schema ?_ (fun _ => rfl) (misplacedDirective?_eq d schema)⟩
  · intro p h
    simp [Problem.isLookup, h]
  · intro p h
    simp [Problem.isLookup, h]

end Document

end SchemaGraph
