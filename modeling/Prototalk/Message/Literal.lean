/-
  Prototalk.Message.Literal
  ────────────────────────────────
  **WHAT LITERAL TOKENS STAND FOR.**

  Literals are decoded once, while parsing, so a message carries its value.

      number      the number nearest to the decimal; infinity if it is too large
      hexNumber   the number nearest to the integer; infinity from 2⁶³ on
      string      the text with its escapes resolved
      triQuote    the text as it stands
-/
import Prototalk.Message.ParseError
import Prototalk.Number.Decimal
import Prototalk.Number.Radix
import Prototalk.Text.Quoted

namespace Prototalk.Literal

/-- The digits behind the marker of a hexadecimal number. -/
def hexDigits? : List Char → Option (List Char)
  | '0' :: 'x' :: digits => some digits
  | '0' :: 'X' :: digits => some digits
  | _ => none

/-- The value of a hexadecimal number, marker included. -/
def hexValue? (text : List Char) : Option Binary64 :=
  match hexDigits? text with
  | none => none
  | some digits =>
      match Radix.signed 16 63 digits with
      | .ok n => some (.ofInt n)
      | .error .above => some .infinity
      | .error _ => none

/-- The value of a decimal number token. -/
def number (text : String) : Except ParseFault Binary64 :=
  match Decimal.read? text.toList with
  | some x => .ok x
  | none => .error (.invalidNumber text)

/-- The value of a hexadecimal number token. -/
def hexNumber (text : String) : Except ParseFault Binary64 :=
  match hexValue? text.toList with
  | some x => .ok x
  | none => .error (.invalidNumber text)

/-- The value of a string token. -/
def string (text : String) : Except ParseFault String :=
  match Quoted.inside? ['"'] text.toList with
  | none => .error (.invalidString text)
  | some content =>
      match Quoted.decode content with
      | .ok chars => .ok (String.ofList chars)
      | .error bad => .error (.invalidEscape (String.ofList bad))

/-- The value of a long string token. -/
def triQuote (text : String) : Except ParseFault String :=
  match Quoted.inside? ['"', '"', '"'] text.toList with
  | some content => .ok (String.ofList content)
  | none => .error (.invalidString text)

end Prototalk.Literal
