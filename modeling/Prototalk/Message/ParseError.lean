/-
  Prototalk.Message.ParseError
  ────────────────────────────────
  **WHY A TEXT IS NO PROGRAM.**

  The first error ends the parse; there is no recovery.
-/
import Prototalk.Token

namespace Prototalk

/-- What is wrong with a sequence of tokens. -/
inductive ParseFault where
  /-- A malformed token. -/
  | lexical (e : LexError)
  /-- A closing bracket that does not fit the innermost open one. -/
  | mismatchedBracket (expected found : Char)
  /-- A closing bracket while none is open. -/
  | unexpectedClose (found : Char)
  /-- The input ends while a bracket is open. -/
  | unclosedBracket (expected : Char)
  /-- A comma while no bracket is open. -/
  | topLevelComma
  /-- Nothing stands between two commas, or between a comma and its bracket. -/
  | emptyArgument
  /-- An escape that stands for no character. -/
  | invalidEscape (sequence : String)
  /-- A number token that writes no number. -/
  | invalidNumber (text : String)
  /-- A string token without its quotes. -/
  | invalidString (text : String)
  deriving DecidableEq

namespace ParseFault

/-- The text of the fault, without its place. -/
def message : ParseFault → String
  | .lexical e => e.fault.message
  | .mismatchedBracket expected found =>
      "expected '" ++ expected.toString ++ "', got '" ++ found.toString ++ "'"
  | .unexpectedClose found => "unexpected '" ++ found.toString ++ "'"
  | .unclosedBracket expected =>
      "unexpected end of input, expected '" ++ expected.toString ++ "'"
  | .topLevelComma => "unexpected ',' outside brackets"
  | .emptyArgument => "empty argument"
  | .invalidEscape sequence => "invalid escape sequence '" ++ sequence ++ "' in string literal"
  | .invalidNumber text => "invalid number literal '" ++ text ++ "'"
  | .invalidString text => "invalid string literal '" ++ text ++ "'"

end ParseFault

/-- A fault and where it is. -/
structure ParseError where
  /-- What is wrong. -/
  fault : ParseFault
  /-- Where it is wrong. -/
  span : Span
  deriving DecidableEq

namespace ParseError

/-- The error of a malformed token. -/
def ofLexError (e : LexError) : ParseError := ⟨.lexical e, e.span⟩

/-- The text of the error. -/
def message (e : ParseError) : String := e.fault.message ++ " at " ++ e.span.text

end ParseError

end Prototalk
