import SchemaGraph.Command.Run
import SchemaGraph.Proofs.CommandLine
import SchemaGraph.Proofs.Report

namespace SchemaGraph

namespace Task

variable {α β : Type} {a b : α} {x : Task Id α}

def Gives (x : Task Id α) (a : α) : Prop := Id.run x.run = .ok a

def Succeeds (x : Task Id α) : Prop := ∃ a, x.Gives a

instance decidableGives [DecidableEq α] (x : Task Id α) (a : α) : Decidable (x.Gives a) :=
  match h : Id.run x.run with
  | .ok b => decidable_of_iff (b = a) (by rw [Gives, h]; exact ⟨congrArg Except.ok, Except.ok.inj⟩)
  | .error _ => isFalse (by rw [Gives, h]; exact nofun)

theorem Gives.iff (h : x.Gives a) : x.Gives b ↔ a = b := by
  rw [Gives] at h
  rw [Gives, h]
  exact ⟨Except.ok.inj, congrArg Except.ok⟩

@[simp] theorem gives_pure : (pure a : Task Id α).Gives b ↔ a = b :=
  ⟨Except.ok.inj, congrArg Except.ok⟩

@[simp] theorem not_gives_throw {f : Failure} : ¬(throw f : Task Id α).Gives a :=
  fun h => nomatch h

@[simp] theorem gives_bind {f : α → Task Id β} {c : β} :
    (x >>= f).Gives c ↔ ∃ a, x.Gives a ∧ (f a).Gives c := by
  have hbind : Id.run (x >>= f).run = Id.run x.run >>= fun a => Id.run (f a).run := by
    change Id.run (ExceptT.bindCont f (Id.run x.run)) = _
    cases Id.run x.run <;> rfl
  rw [Gives, hbind]
  cases h : Id.run x.run with
  | ok a =>
      constructor
      · exact fun hc => ⟨a, h, hc⟩
      · rintro ⟨b, hb, hc⟩
        rw [Gives, h] at hb
        cases hb
        exact hc
  | error e =>
      constructor
      · exact fun hc => nomatch hc
      · rintro ⟨b, hb, -⟩
        rw [Gives, h] at hb
        exact nomatch hb

@[simp] theorem gives_map {f : α → β} {c : β} : (f <$> x).Gives c ↔ ∃ a, x.Gives a ∧ f a = c := by
  rw [← bind_pure_comp, gives_bind]
  simp only [gives_pure]

@[simp] theorem liftM_eq_lift {m : Type → Type} [Monad m] (x : m α) :
    (liftM x : Task m α) = ExceptT.lift x := rfl

@[simp] theorem gives_lift {x : Id α} : Gives (ExceptT.lift x) a ↔ Id.run x = a :=
  ⟨Except.ok.inj, congrArg Except.ok⟩

@[simp] theorem gives_ofExcept {ε : Type} {f : ε → Failure} {e : Except ε α} :
    (ofExcept f e : Task Id α).Gives a ↔ e = .ok a := by
  cases e <;> simp [ofExcept]

@[simp] theorem gives_guarded {p : Prop} [Decidable p] {f : Failure} :
    (if p then x else throw f).Gives a ↔ p ∧ x.Gives a := by
  by_cases hp : p <;> simp [hp]

end Task

theorem Options.checks_default : Options.default.checks = true := rfl

open Options (checks_default)

namespace Schema

variable {base : Option Schema} {d : Document} {o : Options}

theorem validate_of_check (ho : o.checks = true) (h : check d base o = .ok ()) :
    validate d base = [] := by
  rw [check, if_pos ho] at h
  split at h
  · assumption
  · cases h

theorem exists_declare_iff (hb : ∀ S ∈ base, S.Reachable) (ho : o.checks = true) :
    (∃ S, declare base d o = .ok S) ↔ validate d base = [] := by
  constructor
  · rintro ⟨S, hS⟩
    exact validate_of_check ho (declare_eq_ok_iff.mp hS).1
  · intro h
    have hk := (Validation.validate_eq_nil_iff.mp h).knownTypes
    obtain ⟨s, hs⟩ := (grounded_of_reachable hb).extend_ok hk
    exact declare_ok (check_of_validate h) hs

theorem exists_build_iff (ho : o.checks = true) :
    (∃ S, build d o = .ok S) ↔ validate d none = [] :=
  @exists_declare_iff none d o (fun _ h => nomatch h) ho

theorem Reachable.exists_supersede_iff {S : Schema} (hS : S.Reachable) (ho : o.checks = true) :
    (∃ S', S.supersede d o = .ok S') ↔ validate d (some S) = [] := by
  rw [← exists_declare_iff hS.forall_mem_some ho, declare, supersede]
  cases S.extend d o with
  | ok S' => exact ⟨fun _ => ⟨S', rfl⟩, fun _ => ⟨_, rfl⟩⟩
  | error e =>
      constructor
      · rintro ⟨_, h⟩
        cases h
      · rintro ⟨_, h⟩
        cases h

end Schema

namespace FileAccess

variable (files : FileAccess Id)

def Joins (inputs : List String) (d : Document) : Prop :=
  ∃ paths, (files.sdlPaths inputs).Gives paths ∧ (files.loadDocuments paths).Gives d

def Clean (inputs : List String) : Prop := ∃ d, files.Joins inputs d ∧ validate d none = []

def CleanWith (inputs : List String) (path : String) : Prop :=
  ∃ d S x, files.Joins inputs d ∧ Schema.build d .default = .ok S ∧
    (files.loadDocument path).Gives x ∧ validate x (some S) = []

variable {files}

theorem exists_joins_iff {inputs : List String} {P : Document → Prop} :
    (∃ paths, (files.sdlPaths inputs).Gives paths ∧
      ∃ d, (files.loadDocuments paths).Gives d ∧ P d) ↔ ∃ d, files.Joins inputs d ∧ P d := by
  constructor
  · rintro ⟨paths, hp, d, hd, h⟩
    exact ⟨d, ⟨paths, hp, hd⟩, h⟩
  · rintro ⟨d, ⟨paths, hp, hd⟩, h⟩
    exact ⟨paths, hp, d, hd, h⟩

theorem gives_loadDocument {path : String} {d : Document} : (files.loadDocument path).Gives d ↔
    ∃ text, files.read path = .ok text ∧ Document.parse text = .ok d := by
  simp [loadDocument, Id.run]

theorem gives_sdlPaths_file {path : String} (h : files.kind path = .file) {paths : List String} :
    (files.sdlPaths [path]).Gives paths ↔ [path] = paths := by
  have hkind : Id.run (files.kind path) = .file := h
  simp [sdlPaths, expand, hkind]

theorem gives_loadDocuments_singleton {path : String} {d : Document} :
    (files.loadDocuments [path]).Gives d ↔ (files.loadDocument path).Gives d := by
  have hconcat (x : Document) : Document.concat [x] = x :=
    congrArg Document.mk (List.flatMap_singleton ..)
  simp [loadDocuments, hconcat]

theorem joins_file_iff {path : String} (h : files.kind path = .file) {d : Document} :
    files.Joins [path] d ↔ (files.loadDocument path).Gives d := by
  simp only [Joins, gives_sdlPaths_file h, exists_eq_left', gives_loadDocuments_singleton]

end FileAccess

namespace Command

open FileAccess

variable {files : FileAccess Id} {s : Settings} {inputs extensions : List String} {e : String}

theorem gives_buildSchema {S : Schema} : (buildSchema files s inputs).Gives S ↔
    ∃ d, files.Joins inputs d ∧ Schema.build d s.options = .ok S := by
  rw [← exists_joins_iff]
  simp [buildSchema]

theorem gives_extendBy {S S' : Schema} : (extendBy files s S e).Gives S' ↔
    ∃ x, (files.loadDocument e).Gives x ∧ S.supersede x s.options = .ok S' := by
  simp [extendBy]

theorem runValidate_succeeds :
    (runValidate files s inputs []).Succeeds ↔ files.Clean (orElse inputs s.project.base) := by
  rw [FileAccess.Clean, ← exists_joins_iff]
  simp [runValidate, Task.Succeeds]

section Checked

variable (ho : s.options = .default)
include ho

theorem runBuild_succeeds :
    (runBuild files s inputs).Succeeds ↔ files.Clean (orElse inputs s.project.base) := by
  have hrun : (runBuild files s inputs).Succeeds ↔
      ∃ S, (buildSchema files s (orElse inputs s.project.base)).Gives S := by
    simp [runBuild, Task.Succeeds]
  simp only [hrun, gives_buildSchema, ho]
  rw [exists_comm]
  simp only [exists_and_left, Schema.exists_build_iff checks_default, FileAccess.Clean]

theorem runValidate_with_succeeds (he : files.kind e = .file) :
    (runValidate files s inputs [e]).Succeeds ↔
      files.CleanWith (orElse inputs s.project.base) e := by
  have hrun : (runValidate files s inputs [e]).Succeeds ↔
      ∃ paths, (files.sdlPaths (orElse inputs s.project.base)).Gives paths ∧
        ∃ d, (files.loadDocuments paths).Gives d ∧ SchemaGraph.validate d none = [] ∧
          ∃ S, Schema.build d .default = .ok S ∧
            ∃ x, (files.loadDocument e).Gives x ∧ SchemaGraph.validate x (some S) = [] := by
    simp [runValidate, Task.Succeeds, gives_sdlPaths_file he, gives_loadDocuments_singleton, ho]
  rw [hrun, exists_joins_iff]
  constructor
  · rintro ⟨d, hd, -, S, hS, x, hx, h⟩
    exact ⟨d, S, x, hd, hS, hx, h⟩
  · rintro ⟨d, S, x, hd, hS, hx, h⟩
    exact ⟨d, hd, (Schema.exists_build_iff checks_default).mp ⟨S, hS⟩, S, hS, x, hx, h⟩

theorem runExtend_succeeds (he : files.kind e = .file)
    (hx : orElse extensions s.project.extensions = [e]) :
    (runExtend files s inputs extensions).Succeeds ↔
      files.CleanWith (orElse inputs s.project.base) e := by
  have hrun : (runExtend files s inputs extensions).Succeeds ↔
      ∃ S, (buildSchema files s (orElse inputs s.project.base)).Gives S ∧
        ∃ S', (extendBy files s S e).Gives S' := by
    simp [runExtend, Task.Succeeds, gives_sdlPaths_file he, hx]
  simp only [hrun, gives_buildSchema, gives_extendBy, ho]
  constructor
  · rintro ⟨S, ⟨d, hd, hS⟩, S', x, hx, h⟩
    exact ⟨d, S, x, hd, hS, hx,
      ((Schema.Reachable.build hS).exists_supersede_iff checks_default).mp ⟨S', h⟩⟩
  · rintro ⟨d, S, x, hd, hS, hx, h⟩
    obtain ⟨S', hS'⟩ := ((Schema.Reachable.build hS).exists_supersede_iff checks_default).mpr h
    exact ⟨S, ⟨d, hd, hS⟩, S', x, hx, hS'⟩

end Checked

end Command

section ExitCode

variable (files : FileAccess Id)

def Request.exitCode (r : Request) : Nat := (Id.run (r.outcome files)).code

def exitCode (args : List String) : Nat := (Id.run (run files args)).code

variable {files}

theorem Request.exitCode_eq_zero_iff {r : Request} :
    r.exitCode files = 0 ↔ (r.run files).Succeeds := by
  unfold Request.exitCode Request.outcome Task.Succeeds Task.Gives
  rw [Id.run_bind]
  cases Id.run (r.run files).run with
  | ok text => exact iff_of_true rfl ⟨text, rfl⟩
  | error f =>
      refine iff_of_false Nat.one_ne_zero ?_
      rintro ⟨_, h⟩
      cases h

theorem exitCode_of_parse {args : List String} {r : Request} (h : Arguments.parse args = .ok r) :
    exitCode files args = r.exitCode files := by
  unfold exitCode run
  rw [h]
  rfl

theorem exitCode_eq_zero_iff {args : List String} : exitCode files args = 0 ↔
    (∃ r, Arguments.parse args = .ok r ∧ r.exitCode files = 0) ∨
      Arguments.parse args = .error .help ∨ Arguments.parse args = .error .version := by
  unfold exitCode run
  cases Arguments.parse args with
  | ok r =>
      change r.exitCode files = 0 ↔ _
      simp
  | error stop => cases stop <;> simp [Stop.outcome]

end ExitCode

namespace Request

variable {files : FileAccess Id} {flags : Flags} {c : Command} {s : Settings}

theorem run_succeeds (h : ∀ s', (Settings.load files flags).Gives s' ↔ s = s') :
    (run files ⟨flags, c⟩).Succeeds ↔ (c.run files s).Succeeds := by
  simp only [Task.Succeeds, run, Task.gives_bind, h, exists_eq_left']

theorem exitCode_none :
    exitCode files ⟨.none, c⟩ = 0 ↔ (c.run files (.of .none .empty)).Succeeds := by
  rw [exitCode_eq_zero_iff, run_succeeds]
  exact fun _ => Task.gives_pure

theorem exitCode_project {config : String} {p : Project} (hp : (files.loadProject config).Gives p) :
    exitCode files ⟨.project config, c⟩ = 0 ↔ (c.run files (.of (.project config) p)).Succeeds := by
  rw [exitCode_eq_zero_iff, run_succeeds]
  intro s
  simp [Settings.load, Flags.project, hp.iff]

end Request

end SchemaGraph
