namespace SchemaGraph

inductive PathKind where
  | file
  | directory
  | missing
  deriving DecidableEq, Repr

inductive ReadFault where
  | unopened (reason : String)
  | unreadable (reason : String)
  deriving DecidableEq, Repr

namespace ReadFault

def reason : ReadFault → String
  | .unopened r => r
  | .unreadable r => r

def noEntry : String := "No such file or directory (os error 2)"

def notDirectory : String := "Not a directory (os error 20)"

def isDirectory : String := "Is a directory (os error 21)"

def nameTooLong : String := "File name too long (os error 36)"

def notText : ReadFault := .unreadable "stream did not contain valid UTF-8"

end ReadFault

structure FileAccess (m : Type → Type) where
  kind : String → m PathKind
  names : String → m (Except String (List String))
  read : String → m (Except ReadFault String)

end SchemaGraph
