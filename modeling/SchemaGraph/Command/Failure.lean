import SchemaGraph.Schema.Problem
import SchemaGraph.Sdl.SyntaxError

namespace SchemaGraph

inductive Failure where
  | noPaths
  | missingPath (path : String)
  | unreadableDirectory (path reason : String)
  | unreadableFile (path reason : String)
  | badSyntax (path : String) (e : SyntaxError)
  | badSchema (e : SchemaError)
  | badExtension (path : String) (e : SchemaError)
  | problems (ps : List Problem)
  | unopenedProject (path reason : String)
  | badProject (path : String)

namespace Failure

def quoted (path : String) : String := "'" ++ path ++ "'"

def message : Failure → String
  | .noPaths => "No schema paths were provided"
  | .missingPath path => "Schema path " ++ quoted path ++ " does not exist"
  | .unreadableDirectory path reason => "Failed to read directory " ++ quoted path ++ ": " ++ reason
  | .unreadableFile path reason => "Failed to read " ++ quoted path ++ ": " ++ reason
  | .badSyntax path e => path ++ ": " ++ e.message
  | .badSchema e => e.message
  | .badExtension path e => "Failed to apply " ++ quoted path ++ ": " ++ e.message
  | .problems ps => Nat.repr ps.length ++ " validation error(s)"
  | .unopenedProject path reason => "Failed to open config " ++ quoted path ++ ": " ++ reason
  | .badProject path => "Failed to parse config " ++ quoted path

def details : Failure → List String
  | .problems ps => ps.map Problem.message
  | _ => []

def report (f : Failure) : String :=
  String.join (f.details.map (· ++ "\n")) ++ "error: " ++ f.message ++ "\n"

end Failure

end SchemaGraph
