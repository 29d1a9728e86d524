import SchemaGraph.Text.Location
import SchemaGraph.Decimal.Layout

namespace SchemaGraph

inductive Punct where
  | bang
  | amp
  | parenLeft
  | parenRight
  | colon
  | equals
  | atSign
  | bracketLeft
  | bracketRight
  | braceLeft
  | braceRight
  | pipe
  deriving DecidableEq, Repr

namespace Punct

def all : List Punct :=
  [.bang, .amp, .parenLeft, .parenRight, .colon, .equals, .atSign, .bracketLeft, .bracketRight,
    .braceLeft, .braceRight, .pipe]

def char : Punct → Char
  | .bang => '!'
  | .amp => '&'
  | .parenLeft => '('
  | .parenRight => ')'
  | .colon => ':'
  | .equals => '='
  | .atSign => '@'
  | .bracketLeft => '['
  | .bracketRight => ']'
  | .braceLeft => '\x7b'
  | .braceRight => '\x7d'
  | .pipe => '|'

def ofChar? (c : Char) : Option Punct := all.find? (·.char == c)

theorem ofChar?_char (p : Punct) : ofChar? p.char = some p := by
  cases p <;> decide

theorem char_of_ofChar? {c : Char} {p : Punct} (h : ofChar? c = some p) : p.char = c := by
  have := List.find?_some h
  simpa using this

end Punct

inductive TokenKind where
  | name (text : String)
  | int (value : Int)
  | float (value : Decimal.Binary64)
  | string (value : String)
  | blockString (value : String)
  | punct (p : Punct)
  deriving DecidableEq, Repr

def TokenKind.describe : TokenKind → String
  | .name text => "Name \"" ++ text ++ "\""
  | .int value => "Int \"" ++ toString value ++ "\""
  | .float value => "Float \"" ++ Decimal.plain value ++ "\""
  | .string _ => "String"
  | .blockString _ => "BlockString"
  | .punct p => "\"" ++ p.char.toString ++ "\""

structure Token where
  kind : TokenKind
  span : Text.Span
  deriving DecidableEq, Repr

structure Tokens where
  items : List Token
  finish : Text.Position
  deriving DecidableEq, Repr

namespace Tokens

def endSpan (ts : Tokens) : Text.Span := .between ts.finish ts.finish

def endText : String := "<EOF>"

end Tokens

end SchemaGraph
