import SchemaGraph.Text.Quoted

namespace SchemaGraph

inductive LexFault where
  | unexpectedCharacter (c : Char)
  | digitAfterZero
  | digitExpected
  | intTooLarge (text : String)
  | intTooSmall (text : String)
  | unterminated
  | badEscape (c : Char)
  | shortUnicodeEscape
  | badUnicodeEscape (text : String)
  deriving DecidableEq, Repr

def LexFault.message : LexFault → String
  | .unexpectedCharacter c => "Unexpected character " ++ Text.quoteChar c ++ "."
  | .digitAfterZero => "Invalid number, unexpected digit after 0."
  | .digitExpected => "Invalid number, expected digit."
  | .intTooLarge text => "Invalid int " ++ text ++ ": number too large to fit in target type."
  | .intTooSmall text => "Invalid int " ++ text ++ ": number too small to fit in target type."
  | .unterminated => "Unterminated string."
  | .badEscape c => "Invalid character escape sequence: \\" ++ c.toString ++ "."
  | .shortUnicodeEscape => "Invalid Unicode escape sequence."
  | .badUnicodeEscape text => "Invalid Unicode escape sequence: \\u" ++ text ++ "."

variable {ε α β : Type} {x : Except ε α} {b : β}

theorem exists_of_bind_eq_ok {f : α → Except ε β} (h : (x >>= f) = .ok b) :
    ∃ a, x = .ok a ∧ f a = .ok b := by
  cases x with
  | error e => exact nomatch h
  | ok a => exact ⟨a, rfl, h⟩

theorem exists_of_map_eq_ok {f : α → β} (h : x.map f = .ok b) : ∃ a, x = .ok a ∧ f a = b := by
  cases x with
  | error e => exact nomatch h
  | ok a => exact ⟨a, rfl, Except.ok.inj h⟩

end SchemaGraph
