import SchemaGraph.Command.Run

namespace SchemaGraph.Disk

def reason : IO.Error → String
  | .noFileOrDirectory .. => ReadFault.noEntry
  | .inappropriateType _ 20 _ => ReadFault.notDirectory
  | .inappropriateType _ 21 _ => ReadFault.isDirectory
  | .invalidArgument _ 36 _ => ReadFault.nameTooLong
  | e => e.toString

def attempt {α : Type} (act : IO α) : IO (Except String α) := do
  match ← act.toBaseIO with
  | .ok a => return .ok a
  | .error e => return .error (reason e)

def kind (path : String) : IO PathKind := do
  if Path.isLong path then return .missing
  match ← attempt (IO.FS.realPath path) with
  | .error _ => return .missing
  | .ok real =>
      match ← attempt real.metadata with
      | .error _ => return .missing
      | .ok m =>
          match m.type with
          | .dir => return .directory
          | .file => return .file
          | _ => return .missing

def names (path : String) : IO (Except String (List String)) := attempt do
  let real ← IO.FS.realPath path
  return (← real.readDir).toList.map (·.fileName)

def read (path : String) : IO (Except ReadFault String) := do
  match ← attempt (IO.FS.Handle.mk path .read) with
  | .error reason => return .error (.unopened reason)
  | .ok handle =>
      match ← attempt handle.readBinToEnd with
      | .error reason => return .error (.unreadable reason)
      | .ok bytes =>
          match String.fromUTF8? bytes with
          | some text => return .ok text
          | none => return .error .notText

def access : FileAccess IO := ⟨kind, names, read⟩

end SchemaGraph.Disk

def main (args : List String) : IO UInt32 := do
  let o ← SchemaGraph.run SchemaGraph.Disk.access args
  IO.print o.stdout
  IO.eprint o.stderr
  return o.code.toUInt32
