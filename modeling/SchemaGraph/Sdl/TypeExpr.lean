namespace SchemaGraph

inductive TypeExpr (α : Type) where
  | named (leaf : α)
  | list (inner : TypeExpr α)
  | nonNull (inner : TypeExpr α)
  deriving DecidableEq, Repr

namespace TypeExpr

variable {α β ε : Type}

def leaf : TypeExpr α → α
  | .named a => a
  | .list t => t.leaf
  | .nonNull t => t.leaf

def map (f : α → β) : TypeExpr α → TypeExpr β
  | .named a => .named (f a)
  | .list t => .list (t.map f)
  | .nonNull t => .nonNull (t.map f)

def tryMap (f : α → Except ε β) : TypeExpr α → Except ε (TypeExpr β)
  | .named a => (f a).map .named
  | .list t => (t.tryMap f).map .list
  | .nonNull t => (t.tryMap f).map .nonNull

def isNonNull : TypeExpr α → Bool
  | .nonNull _ => true
  | _ => false

def IsSimple : TypeExpr α → Prop
  | .named _ => True
  | .list t => t.IsSimple
  | .nonNull t => t.isNonNull = false ∧ t.IsSimple

def chars (text : α → String) : TypeExpr α → List Char
  | .named a => (text a).toList
  | .list t => '[' :: (t.chars text ++ [']'])
  | .nonNull t => t.chars text ++ ['!']

def render (text : α → String) (t : TypeExpr α) : String := String.ofList (t.chars text)

@[simp] theorem leaf_map (f : α → β) (t : TypeExpr α) : (t.map f).leaf = f t.leaf := by
  induction t with
  | named a => rfl
  | list t ih => exact ih
  | nonNull t ih => exact ih

theorem chars_map (f : α → β) (text : β → String) (t : TypeExpr α) :
    (t.map f).chars text = t.chars (text ∘ f) := by
  induction t with
  | named a => rfl
  | list t ih => simp [map, chars, ih]
  | nonNull t ih => simp [map, chars, ih]

end TypeExpr

end SchemaGraph
