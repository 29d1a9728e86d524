namespace SchemaGraph.Path

def isAbsolute (path : String) : Bool := path.toList.head? = some '/'

def join (root path : String) : String :=
  let last := root.toList.getLast?
  if isAbsolute path then path
  else if last = none ∨ last = some '/' then root ++ path
  else root ++ "/" ++ path

def trim : List Char → List Char
  | '/' :: c :: r => trim (c :: r)
  | '.' :: '/' :: r => trim ('/' :: r)
  | cs => cs

def parent (path : String) : String :=
  String.ofList (trim (path.toList.reverse.dropWhile (· != '/'))).reverse

def components : List Char → List (List Char)
  | [] => [[]]
  | c :: r =>
      if c = '/' then [] :: components r
      else
        match components r with
        | [] => [[c]]
        | w :: ws => (c :: w) :: ws

def isLongName (name : String) : Bool := 255 < name.utf8ByteSize

def isLong (path : String) : Bool := 4096 ≤ path.utf8ByteSize

def extension? (name : String) : Option String :=
  let behind := name.toList.reverse.takeWhile (· != '.')
  let before := name.toList.reverse.dropWhile (· != '.')
  if 1 < before.length then some (String.ofList behind.reverse) else none

end SchemaGraph.Path
