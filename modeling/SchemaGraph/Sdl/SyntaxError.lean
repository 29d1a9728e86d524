import SchemaGraph.Token.Basic
import SchemaGraph.Token.Lexer

namespace SchemaGraph

inductive Expectation where
  | punct (p : Punct)
  | keyword (text : String)
  | name
  | definition
  | extendable
  | operation
  | value
  deriving DecidableEq, Repr

def Expectation.describe : Expectation → String
  | .punct p => (TokenKind.punct p).describe
  | .keyword text => "\"" ++ text ++ "\""
  | .name => "Name"
  | .definition => "a definition"
  | .extendable => "an extendable definition"
  | .operation => "\"query\", \"mutation\" or \"subscription\""
  | .value => "a value"

inductive SyntaxFault where
  | lexical (fault : LexFault)
  | unexpected (wanted : Expectation) (found : Option TokenKind)
  | unknownLocation (name : String)
  deriving DecidableEq, Repr

def SyntaxFault.message : SyntaxFault → String
  | .lexical fault => fault.message
  | .unexpected wanted found =>
      "Expected " ++ wanted.describe ++ ", found " ++
        found.elim Tokens.endText TokenKind.describe ++ "."
  | .unknownLocation name => "Unexpected " ++ (TokenKind.name name).describe ++ "."

structure SyntaxError where
  fault : SyntaxFault
  line : Nat
  column : Nat
  deriving DecidableEq, Repr

def SyntaxError.ofLex (e : LexError) : SyntaxError := ⟨.lexical e.fault, e.place.line, e.place.column⟩

def SyntaxError.message (e : SyntaxError) : String :=
  "Syntax Error: " ++ e.fault.message ++ " (" ++ toString e.line ++ ":" ++ toString e.column ++ ")"

end SchemaGraph
