import SchemaGraph.Files.Tree
import SchemaGraph.Proofs.Commands

namespace SchemaGraph

theorem Command.orElse_empty (paths : List String) :
    orElse paths (Settings.of .none .empty).project.base = paths := by
  cases paths <;> rfl

namespace Request

variable {files : FileAccess Id} {inputs : List String} {e : String}

theorem exitCode_build : exitCode files ⟨.none, .build inputs⟩ = 0 ↔ files.Clean inputs := by
  rw [exitCode_none, Command.run, Command.runBuild_succeeds rfl, Command.orElse_empty]

theorem exitCode_validate :
    exitCode files ⟨.none, .validate inputs []⟩ = 0 ↔ files.Clean inputs := by
  rw [exitCode_none, Command.run, Command.runValidate_succeeds, Command.orElse_empty]

theorem exitCode_validate_with (he : files.kind e = .file) :
    exitCode files ⟨.none, .validate inputs [e]⟩ = 0 ↔ files.CleanWith inputs e := by
  rw [exitCode_none, Command.run, Command.runValidate_with_succeeds rfl he, Command.orElse_empty]

theorem exitCode_extend (he : files.kind e = .file) :
    exitCode files ⟨.none, .extend inputs [e]⟩ = 0 ↔ files.CleanWith inputs e := by
  rw [exitCode_none, Command.run, Command.runExtend_succeeds rfl he rfl, Command.orElse_empty]

end Request

section Lines

open Arguments

variable {files : FileAccess Id} {inputs extensions : List String}
  (hi : ∀ p ∈ inputs, isOption p = false) (he : ∀ p ∈ extensions, isOption p = false)

include hi in
theorem exitCode_build : exitCode files ("build" :: inputs) = 0 ↔
    "" ∉ inputs ∧ Request.exitCode files ⟨.none, .build inputs⟩ = 0 := by
  rw [exitCode_eq_zero_iff, parse_build hi]
  by_cases hempty : "" ∈ inputs <;> simp [hempty]

include hi he in
theorem exitCode_validate :
    exitCode files ("validate" :: (inputs ++ extensions.flatMap fun e => ["--extension", e])) = 0 ↔
      "" ∉ inputs ∧ "" ∉ extensions ∧
        Request.exitCode files ⟨.none, .validate inputs extensions⟩ = 0 := by
  rw [exitCode_eq_zero_iff, parse_validate hi he]
  by_cases hempty : "" ∈ inputs <;> by_cases hempty' : "" ∈ extensions <;> simp [hempty, hempty']

include hi he in
theorem exitCode_extend :
    exitCode files ("extend" :: (inputs.flatMap (fun p => ["--base", p]) ++ extensions)) = 0 ↔
      "" ∉ inputs ∧ "" ∉ extensions ∧
        Request.exitCode files ⟨.none, .extend inputs extensions⟩ = 0 := by
  rw [exitCode_eq_zero_iff, parse_extend hi he]
  by_cases hempty : "" ∈ inputs <;> by_cases hempty' : "" ∈ extensions <;> simp [hempty, hempty']

end Lines

theorem validate_agrees (files : FileAccess Id) (inputs : List String) :
    (Request.exitCode files ⟨.none, .validate inputs []⟩ = 0 ↔
      Request.exitCode files ⟨.none, .build inputs⟩ = 0) ∧
    (∀ e, files.kind e = .file →
      (Request.exitCode files ⟨.none, .validate inputs [e]⟩ = 0 ↔
        Request.exitCode files ⟨.none, .extend inputs [e]⟩ = 0)) ∧
    ((∀ p ∈ inputs, Arguments.isOption p = false) →
      (exitCode files ("validate" :: inputs) = 0 ↔ exitCode files ("build" :: inputs) = 0) ∧
      ∀ e, files.kind e = .file → Arguments.isOption e = false →
        (exitCode files ("validate" :: (inputs ++ ["--extension", e])) = 0 ↔
          exitCode files ("extend" :: (inputs.flatMap (fun p => ["--base", p]) ++ [e])) = 0)) := by
  have hbuild : Request.exitCode files ⟨.none, .validate inputs []⟩ = 0 ↔
      Request.exitCode files ⟨.none, .build inputs⟩ = 0 :=
    Request.exitCode_validate.trans Request.exitCode_build.symm
  have hextend (e : String) (he : files.kind e = .file) :
      Request.exitCode files ⟨.none, .validate inputs [e]⟩ = 0 ↔
        Request.exitCode files ⟨.none, .extend inputs [e]⟩ = 0 :=
    (Request.exitCode_validate_with he).trans (Request.exitCode_extend he).symm
  refine ⟨hbuild, hextend, fun hi => ⟨?_, fun e he hw => ?_⟩⟩
  · have hline := @exitCode_validate files inputs [] hi nofun
    rw [List.flatMap_nil, List.append_nil] at hline
    rw [hline, exitCode_build hi, hbuild]
    simp
  · have hwords : ∀ p ∈ [e], Arguments.isOption p = false := List.forall_mem_singleton.mpr hw
    rw [exitCode_extend hi hwords, ← hextend e he]
    exact exitCode_validate hi hwords

namespace Kennel

def petsText : String := "type Query { pet: Pet } type Pet { name: String }"

def toysText : String := "extend type Pet { toy: String }"

def ownersText : String := "extend type Owner { pet: Pet }"

def tree : FileTree where
  entries := [
    (["pets.graphql"], .file (some petsText)),
    (["toys.graphql"], .file (some toysText)),
    (["owners.graphql"], .file (some ownersText)),
    (["toys.yaml"], .file (some "base: [pets.graphql]\nextensions: [toys.graphql]\n")),
    (["owners.yaml"], .file (some "base: [pets.graphql]\nextensions: [owners.graphql]\n"))]

def parsed (text : String) : Document := (Document.parse text).toOption.getD ⟨[]⟩

theorem gives_parsed {path text : String} (hread : tree.read path = .ok text)
    (hparse : (Document.parse text).toOption.isSome = true) {d : Document} :
    (tree.access.loadDocument path).Gives d ↔ parsed text = d := by
  have hok : tree.access.read path = .ok text := hread
  rw [FileAccess.gives_loadDocument, hok, parsed]
  cases hp : Document.parse text with
  | ok d' =>
      constructor
      · rintro ⟨_, htext, h⟩
        obtain rfl := Except.ok.inj htext
        exact Except.ok.inj (hp.symm.trans h)
      · rintro rfl
        exact ⟨text, rfl, hp⟩
  | error e =>
      rw [hp] at hparse
      exact nomatch hparse

def schema : Schema :=
  Schema.completed none (parsed petsText) (Snapshot.empty.extended (parsed petsText) .default)

theorem pets_fit : (Document.parse petsText).toOption.isSome = true ∧
    (parsed petsText).isEmpty = false ∧ validate (parsed petsText) none = [] := by decide +kernel

theorem toys_fit : (Document.parse toysText).toOption.isSome = true ∧
    (∀ x ∈ (parsed toysText).types, Builtin.isBuiltin x.name.text = false) ∧
    validate (parsed toysText) (some (Schema.ofRegistry schema.snapshot)) = [] := by decide +kernel

theorem owners_stray : (Document.parse ownersText).toOption.isSome = true ∧
    (∀ x ∈ (parsed ownersText).types, Builtin.isBuiltin x.name.text = false) ∧
    validate (parsed ownersText) (some (Schema.ofRegistry schema.snapshot)) ≠ [] := by decide +kernel

theorem build_pets : Schema.build (parsed petsText) .default = .ok schema :=
  Schema.declare_of_validate (by simp) pets_fit.2.2 pets_fit.2.1 .default

theorem kind_toys : tree.kind "toys.graphql" = .file := by rfl

theorem joins_pets_iff {d : Document} :
    tree.access.Joins ["pets.graphql"] d ↔ parsed petsText = d := by
  have hkind : tree.kind "pets.graphql" = .file := by rfl
  rw [FileAccess.joins_file_iff hkind]
  exact gives_parsed rfl pets_fit.1

theorem clean_pets : tree.access.Clean ["pets.graphql"] :=
  ⟨_, joins_pets_iff.mpr rfl, pets_fit.2.2⟩

theorem cleanWith_toys : tree.access.CleanWith ["pets.graphql"] "toys.graphql" := by
  obtain ⟨hparse, hcustom, hclean⟩ := toys_fit
  refine ⟨_, schema, _, joins_pets_iff.mpr rfl, build_pets, (gives_parsed rfl hparse).mpr rfl, ?_⟩
  rw [(Schema.Reachable.build build_pets).validate_eq hcustom, hclean]

theorem not_cleanWith_owners : ¬tree.access.CleanWith ["pets.graphql"] "owners.graphql" := by
  rintro ⟨d, S, x, hd, hS, hx, h⟩
  obtain ⟨hparse, hcustom, hstray⟩ := owners_stray
  obtain rfl := joins_pets_iff.mp hd
  obtain rfl : schema = S := Except.ok.inj (build_pets.symm.trans hS)
  obtain rfl : parsed ownersText = x := (gives_parsed rfl hparse).mp hx
  rw [(Schema.Reachable.build build_pets).validate_eq hcustom] at h
  exact hstray h

theorem toys_agree : exitCode tree.access ["validate", "pets.graphql"] = 0 ∧
    exitCode tree.access ["validate", "pets.graphql", "--extension", "toys.graphql"] = 0 := by
  have hwords : ∀ p ∈ ["pets.graphql"], Arguments.isOption p = false := by decide
  have hbuild : exitCode tree.access ["build", "pets.graphql"] = 0 :=
    (exitCode_build hwords).mpr ⟨by decide, Request.exitCode_build.mpr clean_pets⟩
  have hextend : exitCode tree.access ["extend", "--base", "pets.graphql", "toys.graphql"] = 0 := by
    have hline := @exitCode_extend tree.access ["pets.graphql"] ["toys.graphql"] hwords (by decide)
    exact hline.mpr ⟨by decide, by decide, (Request.exitCode_extend kind_toys).mpr cleanWith_toys⟩
  obtain ⟨hinputs, hextension⟩ := (validate_agrees tree.access ["pets.graphql"]).2.2 hwords
  exact ⟨hinputs.mpr hbuild, (hextension "toys.graphql" kind_toys (by decide)).mpr hextend⟩

end Kennel

theorem Settings.options_project {p : Project} (ho : p.options = .default) (config : String) :
    (Settings.of (.project config) p).options = .default := by
  rw [Settings.of, ho]
  rfl

section Project

variable {files : FileAccess Id} {config e : String} {p : Project}

namespace Request

variable (hp : (files.loadProject config).Gives p)
include hp

theorem exitCode_validate_project :
    exitCode files ⟨.project config, .validate [] []⟩ = 0 ↔ files.Clean p.base := by
  rw [exitCode_project hp]
  exact Command.runValidate_succeeds

theorem exitCode_validate_project_with (ho : p.options = .default) (he : files.kind e = .file) :
    exitCode files ⟨.project config, .validate [] [e]⟩ = 0 ↔ files.CleanWith p.base e := by
  rw [exitCode_project hp]
  exact Command.runValidate_with_succeeds (Settings.options_project ho config) he

theorem exitCode_extend_project (ho : p.options = .default) (hx : p.extensions = [e])
    (he : files.kind e = .file) :
    exitCode files ⟨.project config, .extend [] []⟩ = 0 ↔ files.CleanWith p.base e := by
  rw [exitCode_project hp]
  exact Command.runExtend_succeeds (Settings.options_project ho config) he hx

end Request

section Lines

variable (hc : Arguments.isOption config = false) (hne : config ≠ "")
include hc hne

theorem exitCode_validate_project : exitCode files ["validate", "--config", config] =
    Request.exitCode files ⟨.project config, .validate [] []⟩ :=
  exitCode_of_parse (Arguments.parse_project hc hne .validate)

theorem exitCode_extend_project : exitCode files ["extend", "--config", config] =
    Request.exitCode files ⟨.project config, .extend [] []⟩ :=
  exitCode_of_parse (Arguments.parse_project hc hne .extend)

theorem exitCode_validate_project_with (hw : Arguments.isOption e = false) (hempty : e ≠ "") :
    exitCode files ["validate", "--config", config, "--extension", e] =
      Request.exitCode files ⟨.project config, .validate [] [e]⟩ := by
  refine exitCode_of_parse ?_
  exact (Arguments.parse_validate_project hc hne (List.forall_mem_singleton.mpr hw)).trans
    (if_neg (by simpa using hempty.symm))

end Lines

theorem project_extends_iff (hp : (files.loadProject config).Gives p) (ho : p.options = .default)
    (hx : p.extensions = [e]) (he : files.kind e = .file) :
    (Request.exitCode files ⟨.project config, .validate [] []⟩ = 0 ↔ files.Clean p.base) ∧
    (Request.exitCode files ⟨.project config, .extend [] []⟩ = 0 ↔ files.CleanWith p.base e) ∧
    (Request.exitCode files ⟨.project config, .validate [] [e]⟩ = 0 ↔
      Request.exitCode files ⟨.project config, .extend [] []⟩ = 0) ∧
    (Arguments.isOption config = false → config ≠ "" →
      (exitCode files ["validate", "--config", config] = 0 ↔ files.Clean p.base) ∧
      (exitCode files ["extend", "--config", config] = 0 ↔ files.CleanWith p.base e) ∧
      (Arguments.isOption e = false → e ≠ "" →
        (exitCode files ["validate", "--config", config, "--extension", e] = 0 ↔
          exitCode files ["extend", "--config", config] = 0))) := by
  have hvalidate := Request.exitCode_validate_project hp
  have hextend := Request.exitCode_extend_project hp ho hx he
  have hnamed := (Request.exitCode_validate_project_with hp ho he).trans hextend.symm
  refine ⟨hvalidate, hextend, hnamed, fun hc hne => ⟨?_, ?_, fun hw hempty => ?_⟩⟩
  · rw [exitCode_validate_project hc hne, hvalidate]
  · rw [exitCode_extend_project hc hne, hextend]
  · rw [exitCode_validate_project_with hc hne hw hempty, exitCode_extend_project hc hne, hnamed]

end Project

namespace Kennel

theorem gives_projects :
    (tree.access.loadProject "toys.yaml").Gives
      ⟨["pets.graphql"], ["toys.graphql"], .default, none, false⟩ ∧
    (tree.access.loadProject "owners.yaml").Gives
      ⟨["pets.graphql"], ["owners.graphql"], .default, none, false⟩ := by decide +kernel

theorem toys_project_extends :
    Request.exitCode tree.access ⟨.project "toys.yaml", .extend [] []⟩ = 0 ∧
    exitCode tree.access ["extend", "--config", "toys.yaml"] = 0 ∧
    exitCode tree.access
      ["validate", "--config", "toys.yaml", "--extension", "toys.graphql"] = 0 := by
  obtain ⟨-, hrequest, -, hlines⟩ := project_extends_iff gives_projects.1 rfl rfl kind_toys
  obtain ⟨-, hextend, hnamed⟩ := hlines (by decide) (by decide)
  have hok := hextend.mpr cleanWith_toys
  exact ⟨hrequest.mpr cleanWith_toys, hok, (hnamed (by decide) (by decide)).mpr hok⟩

theorem owners_pass_unseen :
    (tree.access.loadProject "owners.yaml").Gives
      ⟨["pets.graphql"], ["owners.graphql"], .default, none, false⟩ ∧
    tree.kind "owners.graphql" = .file ∧
    exitCode tree.access ["validate", "--config", "owners.yaml"] = 0 ∧
    exitCode tree.access ["extend", "--config", "owners.yaml"] ≠ 0 := by
  have hp := gives_projects.2
  have hkind : tree.kind "owners.graphql" = .file := by rfl
  refine ⟨hp, hkind, ?_, ?_⟩
  · rw [exitCode_validate_project (by decide) (by decide)]
    exact (Request.exitCode_validate_project hp).mpr clean_pets
  · rw [exitCode_extend_project (by decide) (by decide)]
    exact fun h => not_cleanWith_owners
      ((Request.exitCode_extend_project hp rfl rfl hkind).mp h)

end Kennel

end SchemaGraph
