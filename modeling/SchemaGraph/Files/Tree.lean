import SchemaGraph.Files.Access
import SchemaGraph.Files.Path

namespace SchemaGraph

inductive FileEntry where
  | file (text : Option String)
  | directory
  deriving DecidableEq, Repr

structure FileTree where
  entries : List (List String × FileEntry)
  deriving DecidableEq, Repr

namespace FileTree

inductive Spot where
  | inside (names : List String)
  | outside
  | nowhere
  deriving DecidableEq, Repr

namespace Spot

def child (name : String) : Spot → Spot
  | .inside names => .inside (names ++ [name])
  | _ => .nowhere

def parent : Spot → Spot
  | .inside [] => .outside
  | .inside names => .inside names.dropLast
  | s => s

end Spot

def file? (t : FileTree) (names : List String) : Option (Option String) :=
  match t.entries.lookup names with
  | some (.file text) => some text
  | _ => none

def kindAt (t : FileTree) : Spot → PathKind
  | .inside names =>
      if (t.file? names).isSome then .file
      else if names.isEmpty || t.entries.any fun e => names.isPrefixOf e.1 then .directory
      else .missing
  | .outside => .directory
  | .nowhere => .missing

def step (t : FileTree) (s : Spot) (name : String) : Except String Spot :=
  match t.kindAt s with
  | .missing => .error ReadFault.noEntry
  | .file => .error ReadFault.notDirectory
  | .directory =>
      if Path.isLongName name then .error ReadFault.nameTooLong
      else if name = "" ∨ name = "." then .ok s
      else if name = ".." then .ok s.parent
      else .ok (s.child name)

def locate (t : FileTree) (path : String) : Except String Spot := do
  if path = "" then .error ReadFault.noEntry
  if Path.isLong path then .error ReadFault.nameTooLong
  let first := if Path.isAbsolute path then Spot.outside else .inside []
  let s ← ((Path.components path.toList).map String.ofList).foldlM t.step first
  if t.kindAt s = .missing then .error ReadFault.noEntry else .ok s

def kind (t : FileTree) (path : String) : PathKind :=
  match t.locate path with
  | .ok s => t.kindAt s
  | .error _ => .missing

def namesAt (t : FileTree) : Spot → List String
  | .inside names =>
      (t.entries.filterMap fun e =>
        if names.isPrefixOf e.1 then (e.1.drop names.length).head? else none).eraseDups
  | _ => []

def names (t : FileTree) (path : String) : Except String (List String) :=
  (t.locate path).map t.namesAt

def readAt (t : FileTree) : Spot → Except ReadFault String
  | .inside names =>
      match t.file? names with
      | some (some text) => .ok text
      | some none => .error .notText
      | none => .error (.unreadable ReadFault.isDirectory)
  | _ => .error (.unreadable ReadFault.isDirectory)

def read (t : FileTree) (path : String) : Except ReadFault String :=
  match t.locate path with
  | .ok s => t.readAt s
  | .error reason => .error (.unopened reason)

def access (t : FileTree) : FileAccess Id := ⟨t.kind, t.names, t.read⟩

end FileTree

end SchemaGraph
