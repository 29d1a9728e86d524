import SchemaGraph.Command.Arguments
import SchemaGraph.Command.Failure
import SchemaGraph.Files.Access
import SchemaGraph.Project.Basic
import SchemaGraph.Schema.Construction
import SchemaGraph.Sdl.Grammar

namespace SchemaGraph

structure Outcome where
  code : Nat
  stdout : String
  stderr : String
  deriving DecidableEq, Repr

variable {m : Type → Type} [Monad m]

abbrev Task (m : Type → Type) := ExceptT Failure m

namespace Task

def ofExcept {ε α : Type} (f : ε → Failure) (e : Except ε α) : Task m α :=
  match e with
  | .ok a => pure a
  | .error e => throw (f e)

end Task

namespace FileAccess

variable (files : FileAccess m)

def sdlExtensions : List String := ["graphql", "gql", "sdl"]

def isSdlName (name : String) : Bool := (Path.extension? name).elim false sdlExtensions.contains

def sdlFiles (directory : String) : Task m (List String) := do
  let names ← Task.ofExcept (Failure.unreadableDirectory directory) (← files.names directory)
  let found ← (names.filter isSdlName).filterM fun name => do
    return (← files.kind (Path.join directory name)) == .file
  return (found.mergeSort fun a b => decide (a ≤ b)).map (Path.join directory)

def expand (path : String) : Task m (List String) := do
  match ← files.kind path with
  | .directory => files.sdlFiles path
  | .file => return [path]
  | .missing => throw (.missingPath path)

def sdlPaths (inputs : List String) : Task m (List String) := do
  if inputs.isEmpty then throw .noPaths
  return (← inputs.mapM files.expand).flatten

def loadDocument (path : String) : Task m Document := do
  let text ← Task.ofExcept (fun e => .unreadableFile path e.reason) (← files.read path)
  Task.ofExcept (.badSyntax path) (Document.parse text)

def loadDocuments (paths : List String) : Task m Document := do
  return .concat (← paths.mapM files.loadDocument)

def loadProject (path : String) : Task m Project := do
  match ← files.read path with
  | .error (.unopened reason) => throw (.unopenedProject path reason)
  | .error (.unreadable _) => throw (.badProject path)
  | .ok text =>
      match Project.parse? text with
      | some p => return p.within (Path.parent path)
      | none => throw (.badProject path)

end FileAccess

structure Settings where
  options : Options
  format : Format
  builtins : Bool
  project : Project

namespace Settings

def of (flags : Flags) (project : Project) : Settings :=
  { options :=
      ⟨flags.assumeValid || project.options.assumeValid,
        flags.assumeValidSdl || project.options.assumeValidSdl⟩
    format := (flags.format.or project.format).getD .text
    builtins := flags.builtins || project.builtins
    project := project }

def load (files : FileAccess m) (flags : Flags) : Task m Settings := do
  match flags.config with
  | some path => return .of flags (← files.loadProject path)
  | none => return .of flags .empty

def summaryText (s : Settings) (schema : Schema) : String :=
  let text := (schema.summary s.builtins).render s.format
  if text.toList.getLast? = some '\n' then text else text ++ "\n"

end Settings

namespace Command

def orElse (given fallback : List String) : List String := if given.isEmpty then fallback else given

variable (files : FileAccess m) (s : Settings)

def buildSchema (inputs : List String) : Task m Schema := do
  let d ← files.loadDocuments (← files.sdlPaths inputs)
  Task.ofExcept .badSchema (Schema.build d s.options)

def extendBy (schema : Schema) (path : String) : Task m Schema := do
  let d ← files.loadDocument path
  Task.ofExcept (.badExtension path) (schema.supersede d s.options)

def runBuild (inputs : List String) : Task m String := do
  return s.summaryText (← buildSchema files s (orElse inputs s.project.base))

def runExtend (base extensions : List String) : Task m String := do
  let schema ← buildSchema files s (orElse base s.project.base)
  let paths ← files.sdlPaths (orElse extensions s.project.extensions)
  return s.summaryText (← paths.foldlM (extendBy files s) schema)

def validated (count : Nat) : String := "Validated " ++ Nat.repr count ++ " schema file(s).\n"

def runValidate (inputs extensions : List String) : Task m String := do
  let paths ← files.sdlPaths (orElse inputs s.project.base)
  let d ← files.loadDocuments paths
  let problems := SchemaGraph.validate d none
  if !problems.isEmpty then throw (.problems problems)
  if extensions.isEmpty then return validated paths.length
  let schema ← Task.ofExcept .badSchema (Schema.build d s.options)
  let added ← files.sdlPaths extensions
  let problems := SchemaGraph.validate (← files.loadDocuments added) (some schema)
  if !problems.isEmpty then throw (.problems problems)
  return validated (paths.length + added.length)

def run : Command → Task m String
  | .build inputs => runBuild files s inputs
  | .extend base extensions => runExtend files s base extensions
  | .validate inputs extensions => runValidate files s inputs extensions

end Command

namespace Request

def run (files : FileAccess m) (r : Request) : Task m String := do
  r.command.run files (← Settings.load files r.flags)

def outcome (files : FileAccess m) (r : Request) : m Outcome := do
  match ← (r.run files).run with
  | .ok text => return ⟨0, text, ""⟩
  | .error f => return ⟨1, "", f.report⟩

end Request

namespace Stop

def usage : String :=
  "Usage: adtql [OPTIONS] <COMMAND>\n\nCommands:\n" ++
    "  build [INPUTS]...                         Build a schema and print its summary\n" ++
    "  extend [--base <PATH>]... [EXTENSIONS]... Extend a schema and print its summary\n" ++
    "  validate [INPUTS]... [--extension <PATH>]... Check documents for errors\n\nOptions:\n" ++
    "  --config <PATH>     Project file listing base and extension documents\n" ++
    "  --format <FORMAT>   Summary format: json, yaml or text\n" ++
    "  --assume-valid      Mark the schema valid and skip all validation\n" ++
    "  --assume-valid-sdl  Skip validation of the documents\n" ++
    "  --include-builtins  Show builtin types and directives\n" ++
    "  -v, --verbose       Accepted; nothing more is printed\n" ++
    "  -h, --help          Print help\n  -V, --version       Print version\n"

def versionText : String := "adtql 0.1.0\n"

def outcome : Stop → Outcome
  | .help => ⟨0, usage, ""⟩
  | .version => ⟨0, versionText, ""⟩
  | .misuse e => ⟨2, "", "error: " ++ e.message ++ "\n\n" ++ usage⟩

end Stop

def run (files : FileAccess m) (args : List String) : m Outcome :=
  match Arguments.parse args with
  | .ok r => r.outcome files
  | .error stop => pure stop.outcome

end SchemaGraph
