/-
  Prototalk.Token
  ────────────────────────────────
  **TOKENS AND LEXICAL ERRORS.**

  A token is a piece of source text with its class and its place.  It keeps
  the text as it was written, delimiters included; what a literal stands for
  is decided later.  Where no token can be read, a malformed token says why;
  it is the last one of its source.
-/
import Prototalk.Source
import Prototalk.Span
import Prototalk.Text.Visible

namespace Prototalk

/-! ## §1. Lexical errors. -/

/-- What is wrong with the text at some place. -/
inductive LexFault where
  /-- The input ends inside `"…"`. -/
  | unterminatedString
  /-- The input ends inside `"""…"""`. -/
  | unterminatedTriQuote
  /-- No digit follows the point of a number. -/
  | missingFraction
  /-- No digit follows the exponent marker of a number. -/
  | emptyExponent
  /-- No digit follows `0x`. -/
  | emptyHex
  /-- A hexadecimal marker follows `digits`, which is not a single zero. -/
  | invalidHexPrefix (digits : String)
  /-- No token starts with this character. -/
  | unexpectedChar (found : Char)
  /-- The source failed. -/
  | read (e : SourceError)
  deriving DecidableEq

namespace LexFault

/-- The text of the fault, without its place. -/
def message : LexFault → String
  | .unterminatedString => "unexpected end of input in string literal"
  | .unterminatedTriQuote => "unexpected end of input in triple-quoted string literal"
  | .missingFraction => "expected digit after '.' in number"
  | .emptyExponent => "expected digits in exponent"
  | .emptyHex => "expected hexadecimal digits after '0x'"
  | .invalidHexPrefix digits =>
      "hexadecimal literal must start with '0x', found '" ++ digits ++ "x'"
  | .unexpectedChar found => "unexpected character " ++ Visible.char found
  | .read e => e.message

end LexFault

/-- A lexical fault and where it is. -/
structure LexError where
  /-- What is wrong. -/
  fault : LexFault
  /-- The text that is wrong. -/
  span : Span
  deriving DecidableEq

namespace LexError

/-- The text of the error. -/
def message (e : LexError) : String := e.fault.message ++ " at " ++ e.span.text

end LexError

/-! ## §2. Tokens. -/

/-- The class of a token. -/
inductive TokenKind where
  /-- `;` or the end of a line. -/
  | separator
  /-- A word or a run of operator characters. -/
  | identifier
  /-- `(`, `[` or `{`. -/
  | opening
  /-- `)`, `]` or `}`. -/
  | closing
  /-- `,`. -/
  | comma
  /-- A decimal number. -/
  | number
  /-- A hexadecimal number, marked `0x`. -/
  | hexNumber
  /-- A string between double quotes, its escapes not yet resolved. -/
  | string
  /-- A string between three double quotes on each side. -/
  | triQuote
  /-- A piece of text that is no token. -/
  | malformed
  deriving DecidableEq

/-- A piece of source text with its class and its place. -/
structure Token where
  /-- The class. -/
  kind : TokenKind
  /-- The text as written. -/
  value : String
  /-- The place. -/
  span : Span
  /-- For a malformed token, what is wrong with it. -/
  error : Option LexError
  deriving DecidableEq

namespace Token

/-- A token of a proper class. -/
def ofKind (kind : TokenKind) (value : String) (span : Span) : Token := ⟨kind, value, span, none⟩

/-- A token for a piece of text that is none, in the place of the error. -/
def malformed (value : String) (e : LexError) : Token := ⟨.malformed, value, e.span, some e⟩

/-- The first character of a token's text. -/
def firstChar? (t : Token) : Option Char := t.value.toList.head?

/-- The bracket character of an opening or closing token. -/
def bracket? (t : Token) : Option Char :=
  match t.kind with
  | .opening | .closing => t.firstChar?
  | _ => none

end Token

end Prototalk
