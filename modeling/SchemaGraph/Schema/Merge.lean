import SchemaGraph.Schema.Type

namespace SchemaGraph

def mergeStep (acc added : List Variant) : List Variant :=
  match record? acc with
  | some v =>
      [{ v with
        fields := Keyed.lastWriteWins InputValue.name v.fields (added.flatMap Variant.fields) }]
  | none => Keyed.lastWriteWins Variant.name acc added

def mergeVariants (base : List Variant) (fragments : List (List Variant)) : List Variant :=
  fragments.foldl mergeStep base

end SchemaGraph
