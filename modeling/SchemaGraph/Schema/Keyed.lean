namespace SchemaGraph.Keyed

variable {α κ : Type} [DecidableEq κ] (key : α → κ)

def put (a : α) : List α → List α
  | [] => [a]
  | b :: bs => if key b = key a then a :: bs else b :: put a bs

def ofList (xs : List α) : List α := xs.foldl (fun acc a => put key a acc) []

def lastWriteWins (base added : List α) : List α := ofList key (base ++ added)

def get? (k : κ) (xs : List α) : Option α := xs.find? (key · == k)

def append (base added : List α) : List α := base ++ added

def lastDeclared (current : Option α) (declared : List (Option α)) : Option α :=
  declared.foldl (fun acc d => d.or acc) current

theorem key_of_get? {k : κ} {xs : List α} {a : α} (h : get? key k xs = some a) : key a = k := by
  have := List.find?_some h
  simpa using this

theorem mem_of_get? {k : κ} {xs : List α} {a : α} (h : get? key k xs = some a) : a ∈ xs :=
  List.mem_of_find?_eq_some h

end SchemaGraph.Keyed
