import SchemaGraph.Proofs.Fit

namespace SchemaGraph

namespace Document

variable (a b : Document)

theorem definitions_concat : (concat [a, b]).definitions = a.definitions ++ b.definitions := by
  rw [concat, List.flatMap_cons, List.flatMap_cons, List.flatMap_nil, List.append_nil]

theorem isEmpty_concat {a : Document} (ha : a.isEmpty = false) (b : Document) :
    (concat [a, b]).isEmpty = false := by
  have hne : a.definitions ≠ [] := List.isEmpty_eq_false_iff.mp ha
  rw [isEmpty, definitions_concat, List.isEmpty_eq_false_iff]
  exact List.append_ne_nil_of_left_ne_nil hne _

theorem concat_of_isEmpty_first {a : Document} (ha : a.isEmpty = true) (b : Document) :
    concat [a, b] = b := by
  have hnil : a.definitions = [] := List.isEmpty_iff.mp ha
  have h := definitions_concat a b
  rw [hnil, List.nil_append] at h
  exact congrArg Document.mk h

theorem concat_of_isEmpty_second (a : Document) {b : Document} (hb : b.isEmpty = true) :
    concat [a, b] = a := by
  have hnil : b.definitions = [] := List.isEmpty_iff.mp hb
  have h := definitions_concat a b
  rw [hnil, List.append_nil] at h
  exact congrArg Document.mk h

theorem types_concat : (concat [a, b]).types = a.types ++ b.types := by
  rw [types, definitions_concat, List.filterMap_append, types, types]

theorem typeExtensions_concat :
    (concat [a, b]).typeExtensions = a.typeExtensions ++ b.typeExtensions := by
  rw [typeExtensions, definitions_concat, List.filterMap_append, typeExtensions, typeExtensions]

theorem directives_concat : (concat [a, b]).directives = a.directives ++ b.directives := by
  rw [directives, definitions_concat, List.filterMap_append, directives, directives]

theorem schemas_concat : (concat [a, b]).schemas = a.schemas ++ b.schemas := by
  rw [schemas, definitions_concat, List.filterMap_append, schemas, schemas]

theorem schemaExtensions_concat :
    (concat [a, b]).schemaExtensions = a.schemaExtensions ++ b.schemaExtensions := by
  rw [schemaExtensions, definitions_concat, List.filterMap_append, schemaExtensions, schemaExtensions]

theorem typeNames_concat :
    (concat [a, b]).typeNames = a.typeNames ++ b.typeNames := by
  rw [typeNames, definitions_concat, List.flatMap_append, List.map_append, typeNames, typeNames]

theorem extensionsOf_concat (n : String) :
    (concat [a, b]).extensionsOf n = a.extensionsOf n ++ b.extensionsOf n := by
  rw [extensionsOf, typeExtensions_concat, List.filter_append, extensionsOf, extensionsOf]

theorem schema?_concat : (concat [a, b]).schema? = b.schema?.or a.schema? := by
  rw [schema?, schemas_concat, List.getLast?_append, schema?, schema?]

theorem schema?_eq_none {d : Document} (h : d.schemas = []) : d.schema? = none := by
  rw [schema?, h, List.getLast?_nil]

variable {a b}

def OneSchema (a b : Document) : Prop := b.schemas = [] ∨ a.schemas = [] ∧ a.operations = []

theorem OneSchema.operations_concat (h : OneSchema a b) :
    (concat [a, b]).operations = a.operations ++ b.operations := by
  rw [operations, schema?_concat, schemaExtensions_concat]
  rcases h with hb | ⟨ha, ho⟩
  · rw [operations, operations, schema?_eq_none hb, Option.none_or, Option.toList_none,
      List.nil_append, ← List.flatMap_append, List.append_assoc]
  · rw [ho, List.nil_append, operations, schema?_eq_none ha, Option.or_none, List.flatMap_append,
      List.flatMap_append, List.flatMap_append]
    rw [operations, schema?_eq_none ha, Option.toList_none, List.nil_append] at ho
    rw [ho, List.nil_append]

theorem OneSchema.description_concat (h : OneSchema a b) (current : Option String) :
    ((concat [a, b]).schema?.bind SchemaDef.description).or current =
      (b.schema?.bind SchemaDef.description).or ((a.schema?.bind SchemaDef.description).or current) := by
  rw [schema?_concat]
  rcases h with hb | ⟨ha, -⟩
  · rw [schema?_eq_none hb, Option.none_or, Option.bind_none, Option.none_or]
  · rw [schema?_eq_none ha, Option.or_none, Option.bind_none, Option.none_or]

end Document

end SchemaGraph
