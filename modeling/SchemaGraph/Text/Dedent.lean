import SchemaGraph.Text.Blank

namespace SchemaGraph.Text

def splitLines : List Char → List (List Char)
  | [] => [[]]
  | c :: cs =>
      match splitLines cs with
      | [] => [[]]
      | l :: ls => if c = '\n' then [] :: l :: ls else (c :: l) :: ls

def joinLines : List (List Char) → List Char
  | [] => []
  | [l] => l
  | l :: ls => l ++ '\n' :: joinLines ls

def dropTrailing (p : Char → Bool) (l : List Char) : List Char :=
  (l.reverse.dropWhile p).reverse

def isIndent (c : Char) : Bool := c == ' ' || c == '\t'

def indentOf (line : List Char) : Nat := (line.takeWhile isIndent).length

def isBlankLine (line : List Char) : Bool := line.all isBlank

def dropBytes : Nat → List Char → Option (List Char)
  | 0, cs => some cs
  | _ + 1, [] => none
  | n + 1, c :: cs => if c.utf8Size ≤ n + 1 then dropBytes (n + 1 - c.utf8Size) cs else none

def commonIndent (lines : List (List Char)) : Nat :=
  (((lines.filter (!isBlankLine ·)).map indentOf).min?).getD 0

def unindent (n : Nat) (line : List Char) : List Char :=
  (dropBytes n line).getD (line.dropWhile isIndent)

def trimBlankLines (lines : List (List Char)) : List (List Char) :=
  ((lines.dropWhile isBlankLine).reverse.dropWhile isBlankLine).reverse

def dedentLines : List (List Char) → List (List Char)
  | [] => []
  | first :: others => first :: others.map (unindent (commonIndent others))

def dedent (raw : List Char) : List Char :=
  let lines := (splitLines raw).map (dropTrailing (· == '\r'))
  joinLines (trimBlankLines (dedentLines lines))

end SchemaGraph.Text
