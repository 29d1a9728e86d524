import SchemaGraph.Command.Request

namespace SchemaGraph

inductive OptionName where
  | config
  | format
  | assumeValid
  | assumeValidSdl
  | includeBuiltins
  | verbose
  | base
  | extension
  deriving DecidableEq, Repr

namespace OptionName

def text : OptionName → String
  | .config => "config"
  | .format => "format"
  | .assumeValid => "assume-valid"
  | .assumeValidSdl => "assume-valid-sdl"
  | .includeBuiltins => "include-builtins"
  | .verbose => "verbose"
  | .base => "base"
  | .extension => "extension"

def shared : List OptionName :=
  [.config, .format, .assumeValid, .assumeValidSdl, .includeBuiltins, .verbose]

def takesValue : OptionName → Bool
  | .config | .format | .base | .extension => true
  | _ => false

def repeats : OptionName → Bool
  | .base | .extension => true
  | _ => false

def accepts (o : OptionName) (value : String) : Bool :=
  match o with
  | .format => (Format.ofName? value).isSome
  | _ => value != ""

end OptionName

inductive CommandName where
  | build
  | extend
  | validate
  deriving DecidableEq, Repr

namespace CommandName

def text : CommandName → String
  | .build => "build"
  | .extend => "extend"
  | .validate => "validate"

def all : List CommandName := [.build, .extend, .validate]

def options : CommandName → List OptionName
  | .build => OptionName.shared
  | .extend => .base :: OptionName.shared
  | .validate => .extension :: OptionName.shared

end CommandName

inductive Misuse where
  | unknownOption (text : String)
  | repeatedOption (name : OptionName)
  | missingValue (name : OptionName)
  | needlessValue (name : String)
  | badValue (name : OptionName) (value : String)
  | emptyPath
  | missingCommand
  | unknownCommand (name : String)
  deriving DecidableEq, Repr

def Misuse.message : Misuse → String
  | .unknownOption text => "unexpected argument '" ++ text ++ "' found"
  | .repeatedOption o => "the argument '--" ++ o.text ++ "' cannot be used multiple times"
  | .missingValue o => "a value is required for '--" ++ o.text ++ "' but none was supplied"
  | .needlessValue name => "unexpected value for '--" ++ name ++ "' found; no more were expected"
  | .badValue o value => "invalid value '" ++ value ++ "' for '--" ++ o.text ++ "'"
  | .emptyPath => "a path must not be empty"
  | .missingCommand => "a command is required"
  | .unknownCommand name => "unrecognized command '" ++ name ++ "'"

inductive Stop where
  | help
  | version
  | misuse (m : Misuse)
  deriving DecidableEq, Repr

inductive Item where
  | option (name : OptionName) (value : String)
  | operand (text : String)
  deriving DecidableEq, Repr

namespace Arguments

def isOption (arg : String) : Bool :=
  match arg.toList with
  | '-' :: _ :: _ => true
  | _ => false

def splitValue (cs : List Char) : String × Option String :=
  let name := String.ofList (cs.takeWhile (· != '='))
  match cs.dropWhile (· != '=') with
  | [] => (name, none)
  | _ :: value => (name, some (String.ofList value))

structure Level where
  known : List OptionName
  top : Bool

def Level.find? (l : Level) (name : String) : Option OptionName := l.known.find? (·.text == name)

def given (items : List Item) (o : OptionName) : Bool :=
  items.any fun
    | .option name _ => name == o
    | .operand _ => false

def addOption (items : List Item) (o : OptionName) (value : String) : Except Stop (List Item) :=
  if o.takesValue && !o.accepts value then .error (.misuse (.badValue o value))
  else if !o.repeats && given items o then .error (.misuse (.repeatedOption o))
  else .ok (items ++ [.option o value])

def addLetters (l : Level) (items : List Item) : List Char → Except Stop (List Item)
  | [] => .ok items
  | 'v' :: r => do addLetters l (← addOption items .verbose "") r
  | 'h' :: _ => .error .help
  | c :: _ =>
      if c = 'V' ∧ l.top then .error .version
      else .error (.misuse (.unknownOption ("-" ++ c.toString)))

def addLong (l : Level) (items : List Item) (cs : List Char) :
    Except Stop (List Item × Option OptionName) :=
  let (name, value?) := splitValue cs
  match l.find? name with
  | some o =>
      match o.takesValue, value? with
      | true, some value => (addOption items o value).map (·, none)
      | true, none => .ok (items, some o)
      | false, some _ => .error (.misuse (.needlessValue name))
      | false, none => (addOption items o "").map (·, none)
  | none =>
      if name = "help" ∨ (name = "version" ∧ l.top) then
        if value?.isSome then .error (.misuse (.needlessValue name))
        else .error (if name = "help" then .help else .version)
      else .error (.misuse (.unknownOption ("--" ++ name)))

def addOperand (items : List Item) (text : String) : Except Stop (List Item) :=
  if text = "" then .error (.misuse .emptyPath) else .ok (items ++ [.operand text])

def readItems (l : Level) (items : List Item) (waiting : Option OptionName) :
    List String → Except Stop (List Item × List String)
  | [] =>
      match waiting with
      | some o => .error (.misuse (.missingValue o))
      | none => .ok (items, [])
  | arg :: rest =>
      match waiting with
      | some o => do
          if isOption arg then .error (.misuse (.missingValue o))
          readItems l (← addOption items o arg) none rest
      | none =>
          match arg.toList with
          | ['-', '-'] => do
              if l.top then .error (.misuse (.unknownOption arg))
              return (← rest.foldlM addOperand items, [])
          | '-' :: '-' :: cs => do
              let (items, waiting) ← addLong l items cs
              readItems l items waiting rest
          | '-' :: c :: cs => do readItems l (← addLetters l items (c :: cs)) none rest
          | _ =>
              if l.top then .ok (items, arg :: rest)
              else do readItems l (← addOperand items arg) none rest

def values (items : List Item) (o : OptionName) : List String :=
  items.filterMap fun
    | .option name value => if name = o then some value else none
    | .operand _ => none

def operands (items : List Item) : List String :=
  items.filterMap fun
    | .option .. => none
    | .operand text => some text

def flags (before behind : List Item) : Flags :=
  let value? (o : OptionName) := (values behind o).head?.or (values before o).head?
  let flag (o : OptionName) := (value? o).isSome
  { config := value? .config
    format := (value? .format).bind Format.ofName?
    assumeValid := flag .assumeValid
    assumeValidSdl := flag .assumeValidSdl
    builtins := flag .includeBuiltins }

def command (name : CommandName) (items : List Item) : Command :=
  match name with
  | .build => .build (operands items)
  | .extend => .extend (values items .base) (operands items)
  | .validate => .validate (operands items) (values items .extension)

def help (names : List String) : Stop :=
  let known (name : String) : Bool := name == "help" || CommandName.all.any (·.text == name)
  match names with
  | [] => .help
  | [name] => if known name then .help else .misuse (.unknownCommand name)
  | name :: next :: _ => .misuse (.unknownCommand (if known name then next else name))

def parse (args : List String) : Except Stop Request := do
  let (before, rest) ← readItems ⟨OptionName.shared, true⟩ [] none args
  match rest with
  | [] => .error (.misuse .missingCommand)
  | name :: rest =>
      match CommandName.all.find? (·.text == name) with
      | some c => do
          let (behind, _) ← readItems ⟨c.options, false⟩ [] none rest
          return ⟨flags before behind, command c behind⟩
      | none => .error (if name = "help" then help rest else .misuse (.unknownCommand name))

end Arguments

end SchemaGraph
