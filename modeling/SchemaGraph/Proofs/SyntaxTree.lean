import Mathlib.Data.List.Basic
import SchemaGraph.Sdl.Document

namespace SchemaGraph

open Text (Span)

mutual

def Literal.names : Literal → List Ident
  | .list items => Literal.namesOfItems items
  | .object entries => Literal.namesOfEntries entries
  | _ => []

def Literal.namesOfItems : List Literal → List Ident
  | [] => []
  | v :: vs => v.names ++ Literal.namesOfItems vs

def Literal.namesOfEntries : List (Ident × Literal) → List Ident
  | [] => []
  | (name, v) :: es => name :: (v.names ++ Literal.namesOfEntries es)

end

/-- A place in a document: a definition or a part of one. Where the directives of a node may be
declared for depends on the node, so they are told apart by it, and so are input values. -/
inductive SyntaxNode where
  | name (n : Ident)
  | reference (n : Ident)
  | argument (a : Argument)
  | applied (location : DirectiveLocation) (a : Applied)
  | input (location : DirectiveLocation) (d : InputDef)
  | field (d : FieldDef)
  | variant (d : VariantDef)
  | record (d : VariantDef)
  | operation (d : OperationDef)
  | definition (d : Definition)

def VariantDef.nodes (type : Ident) : List VariantDef → List SyntaxNode
  | [v] => if v.name = type then [.record v] else [.variant v]
  | vs => vs.map .variant

def TypeBody.nodes (type : Ident) (ds : List Applied) : TypeBody → List SyntaxNode
  | .scalar => ds.map (.applied .scalar)
  | .object interfaces fields =>
      interfaces.map .reference ++ ds.map (.applied .object) ++ fields.map .field
  | .interface interfaces fields =>
      interfaces.map .reference ++ ds.map (.applied .interface) ++ fields.map .field
  | .union members => ds.map (.applied .union) ++ members.map .reference
  | .data vs => ds.map (.applied .data) ++ VariantDef.nodes type vs

def SchemaDef.nodes (d : SchemaDef) : List SyntaxNode :=
  d.directives.map (.applied .schema) ++ d.operations.map .operation

def TypeDef.nodes (d : TypeDef) : List SyntaxNode := .name d.name :: d.body.nodes d.name d.directives

def DirectiveDef.nodes (d : DirectiveDef) : List SyntaxNode :=
  .name d.name :: d.arguments.map (.input .argumentDefinition)

def Definition.nodes : Definition → List SyntaxNode
  | .schema d => d.nodes
  | .schemaExtension d => d.nodes
  | .type d => d.nodes
  | .typeExtension d => d.nodes
  | .directive d => d.nodes

namespace SyntaxNode

@[simp] def children : SyntaxNode → List SyntaxNode
  | .name _ => []
  | .reference _ => []
  | .argument a => .name a.name :: a.value.names.map .name
  | .applied _ a => .name a.name :: a.arguments.map .argument
  | .input location d =>
      .name d.name :: .reference d.type.leaf :: (d.default.elim [] Literal.names).map .name ++
        d.directives.map (.applied location)
  | .field d =>
      .name d.name :: d.arguments.map (.input .argumentDefinition) ++ .reference d.type.leaf ::
        d.directives.map (.applied .fieldDefinition)
  | .variant d =>
      .name d.name :: d.directives.map (.applied .variant) ++ d.fields.map (.input .inputFieldDefinition)
  | .record d => d.directives.map (.applied .variant) ++ d.fields.map (.input .inputFieldDefinition)
  | .operation d => [.reference d.type]
  | .definition d => d.nodes

def level : SyntaxNode → Nat
  | .name _ => 0
  | .reference _ => 0
  | .argument _ => 1
  | .applied _ _ => 2
  | .input _ _ => 3
  | .field _ => 4
  | .variant _ => 4
  | .record _ => 4
  | .operation _ => 1
  | .definition _ => 5

theorem of_mem_nodes {type : Ident} {vs : List VariantDef} {m : SyntaxNode}
    (h : m ∈ VariantDef.nodes type vs) : ∃ v ∈ vs, m = .variant v ∨ m = .record v := by
  unfold VariantDef.nodes at h
  split at h
  · split at h <;> simp_all
  · obtain ⟨v, hv, rfl⟩ := List.mem_map.mp h
    exact ⟨v, hv, Or.inl rfl⟩

theorem level_of_mem_body (type : Ident) (ds : List Applied) (b : TypeBody) :
    ∀ m ∈ b.nodes type ds, m.level ≤ 4 := by
  cases b with
  | data vs =>
      intro m hm
      rcases List.mem_append.mp hm with h | h
      · obtain ⟨a, -, rfl⟩ := List.mem_map.mp h
        simp [level]
      · obtain ⟨v, -, rfl | rfl⟩ := of_mem_nodes h <;> simp [level]
  | _ => simp [TypeBody.nodes, or_imp, forall_and, level]

theorem level_of_mem_definition (x : Definition) : ∀ m ∈ x.nodes, m.level ≤ 4 := by
  cases x with
  | schema d => simp [Definition.nodes, SchemaDef.nodes, or_imp, forall_and, level]
  | schemaExtension d => simp [Definition.nodes, SchemaDef.nodes, or_imp, forall_and, level]
  | type d =>
      exact List.forall_mem_cons.mpr ⟨by simp [level], level_of_mem_body d.name d.directives d.body⟩
  | typeExtension d =>
      exact List.forall_mem_cons.mpr ⟨by simp [level], level_of_mem_body d.name d.directives d.body⟩
  | directive d => simp [Definition.nodes, DirectiveDef.nodes, level]

theorem level_of_mem_children (n : SyntaxNode) : ∀ m ∈ n.children, m.level < n.level := by
  cases n with
  | definition x => exact fun m hm => Nat.lt_succ_of_le (level_of_mem_definition x m hm)
  | _ => simp [or_imp, forall_and, level]

def tree (n : SyntaxNode) : List SyntaxNode := n :: n.children.attach.flatMap fun ⟨m, _⟩ => m.tree
termination_by n.level
decreasing_by exact level_of_mem_children n m ‹_›

theorem tree_eq (n : SyntaxNode) : n.tree = n :: n.children.flatMap tree := by
  rw [tree]
  simp

theorem eq_or_level_lt {m n : SyntaxNode} (h : m ∈ n.tree) : m = n ∨ m.level < n.level := by
  induction hl : n.level using Nat.strongRecOn generalizing n with
  | _ l ih =>
      rw [tree_eq] at h
      rcases List.mem_cons.mp h with rfl | h
      · exact Or.inl rfl
      · obtain ⟨k, hk, hm⟩ := List.mem_flatMap.mp h
        have hlt := level_of_mem_children n k hk
        rcases ih k.level (hl ▸ hlt) hm rfl with rfl | hm
        · exact Or.inr (hl ▸ hlt)
        · exact Or.inr (Nat.lt_trans hm (hl ▸ hlt))

theorem record_of_mem_body {type : Ident} {ds : List Applied} {b : TypeBody} {v : VariantDef}
    (h : .record v ∈ b.nodes type ds) : b = .data [v] ∧ v.name = type := by
  cases b with
  | data vs =>
      have hv : SyntaxNode.record v ∈ VariantDef.nodes type vs := by simpa [TypeBody.nodes] using h
      unfold VariantDef.nodes at hv
      split at hv
      · split at hv
        · rename_i w hw
          obtain rfl : v = w := by simpa using hv
          exact ⟨rfl, hw⟩
        · simp at hv
      · simp at hv
  | _ => simp [TypeBody.nodes] at h

end SyntaxNode

namespace Document

def nodes (d : Document) : List SyntaxNode :=
  d.definitions.flatMap fun x => (SyntaxNode.definition x).tree

theorem record_of_mem_nodes {d : Document} {v : VariantDef} (h : .record v ∈ d.nodes) :
    ∃ t, (.type t ∈ d.definitions ∨ .typeExtension t ∈ d.definitions) ∧ t.body = .data [v] ∧
      v.name = t.name := by
  obtain ⟨x, hx, hv⟩ := List.mem_flatMap.mp h
  rw [SyntaxNode.tree_eq, List.mem_cons] at hv
  obtain ⟨k, hk, hv⟩ := List.mem_flatMap.mp (hv.resolve_left nofun)
  -- nothing below the parts of a definition is on the level of a record
  have hmem : .record v ∈ x.nodes := by
    rcases SyntaxNode.eq_or_level_lt hv with rfl | hlt
    · exact hk
    · have hle := SyntaxNode.level_of_mem_definition x k hk
      exact absurd hlt (Nat.not_lt.mpr hle)
  have htype {t : TypeDef} (ht : .record v ∈ t.nodes) : t.body = .data [v] ∧ v.name = t.name :=
    SyntaxNode.record_of_mem_body ((List.mem_cons.mp ht).resolve_left nofun)
  cases x with
  | type t => exact ⟨t, Or.inl hx, htype hmem⟩
  | typeExtension t => exact ⟨t, Or.inr hx, htype hmem⟩
  | schema d => simp [Definition.nodes, SchemaDef.nodes] at hmem
  | schemaExtension d => simp [Definition.nodes, SchemaDef.nodes] at hmem
  | directive d => simp [Definition.nodes, DirectiveDef.nodes] at hmem

end Document

end SchemaGraph
