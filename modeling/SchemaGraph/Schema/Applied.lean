import SchemaGraph.Sdl.Document

namespace SchemaGraph.Applied

def deprecatedName : String := "deprecated"

def specifiedByName : String := "specifiedBy"

def defaultReason : String := "No longer supported"

def find? (name : String) (directives : List Applied) : Option Applied :=
  directives.find? (·.name.text == name)

def argument? (name : String) (a : Applied) : Option Literal :=
  (a.arguments.find? (·.name.text == name)).map Argument.value

def string? : Literal → Option String
  | .string s => some s
  | _ => none

def deprecation? (directives : List Applied) : Option String := do
  let a ← find? deprecatedName directives
  match argument? "reason" a with
  | none => some defaultReason
  | some value => string? value

def specifiedBy? (directives : List Applied) : Option String := do
  let a ← find? specifiedByName directives
  string? (← argument? "url" a)

end SchemaGraph.Applied
