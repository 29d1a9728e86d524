import SchemaGraph.Yaml.Scalar
import SchemaGraph.Outline.Basic

namespace SchemaGraph.Outline

open Yaml

mutual

def yamlValue (indent : Nat) : Outline → String
  | .text s => " " ++ scalarLine (indent + 2) s
  | .count n => " " ++ Nat.repr n ++ "\n"
  | .flag b => if b then " true\n" else " false\n"
  | .list [] => " []\n"
  | .list (x :: xs) => "\n" ++ padding indent ++ "- " ++ x.yamlItem indent ++ yamlItems indent xs
  | .record [] => " \x7b\x7d\n"
  | .record ((k, x) :: xs) =>
      "\n" ++ padding (indent + 2) ++ k ++ ":" ++ x.yamlValue (indent + 2) ++
        yamlEntries (indent + 2) xs

def yamlItem (indent : Nat) : Outline → String
  | .text s => scalarLine (indent + 2) s
  | .count n => Nat.repr n ++ "\n"
  | .flag b => if b then "true\n" else "false\n"
  | .list [] => "[]\n"
  | .list (x :: xs) => "- " ++ x.yamlItem (indent + 2) ++ yamlItems (indent + 2) xs
  | .record [] => "\x7b\x7d\n"
  | .record ((k, x) :: xs) =>
      k ++ ":" ++ x.yamlValue (indent + 2) ++ yamlEntries (indent + 2) xs

def yamlItems (indent : Nat) : List Outline → String
  | [] => ""
  | x :: xs => padding indent ++ "- " ++ x.yamlItem indent ++ yamlItems indent xs

def yamlEntries (indent : Nat) : List (String × Outline) → String
  | [] => ""
  | (k, x) :: xs => padding indent ++ k ++ ":" ++ x.yamlValue indent ++ yamlEntries indent xs

end

def yaml : Outline → String
  | .record [] => "\x7b\x7d\n"
  | .record (e :: es) => yamlEntries 0 (e :: es)
  | .list [] => "[]\n"
  | .list (x :: xs) => yamlItems 0 (x :: xs)
  | .text s => scalarLine 2 s
  | .count n => Nat.repr n ++ "\n"
  | .flag b => if b then "true\n" else "false\n"

end SchemaGraph.Outline
