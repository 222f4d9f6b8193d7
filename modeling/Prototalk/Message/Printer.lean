/-
  Prototalk.Message.Printer
  ────────────────────────────────
  **MESSAGES AS SOURCE TEXT.**

  The text that reads back as the same chain, in one fixed layout: one blank
  between messages and none at the start of a line, `, ` between arguments,
  strings always as plain literals.

  A group of brackets is a message of its own, named `squareBrackets`,
  `curlyBrackets` or by the empty text; a bare identifier before a group with
  the empty name gets an empty pair of parentheses, which keeps the group
  from becoming its arguments.
-/
import Prototalk.Message
import Prototalk.Name.Interner
import Prototalk.Number.Shortest
import Prototalk.Text.Quoted

namespace Prototalk

/-- The name that `[...]` sends. -/
def squareBrackets : String := "squareBrackets"

/-- The name that `{...}` sends. -/
def curlyBrackets : String := "curlyBrackets"

namespace Symbol

/-- The brackets of a message that is written as a group. -/
def groupOf? (text : String) : Option (Char × Char) :=
  if text == squareBrackets then some ('[', ']')
  else if text == curlyBrackets then some ('{', '}')
  else if text == "" then some ('(', ')')
  else none

/-- A number as a literal; a literal that is too large reads as infinity again. -/
def numberChars (x : Binary64) : List Char :=
  if x.isInfinite then ['1', 'e', '9', '9', '9'] else x.chars

/-- Whether a message with these parts is written as a bare identifier. -/
def isBare (names : Interner) (symbol : Symbol) (args : List Chain) : Bool :=
  match symbol with
  | .ident name => args.isEmpty && (groupOf? (names.text name)).isNone
  | _ => false

end Symbol

mutual

/-- A message and its arguments. -/
def Message.chars (names : Interner) : Message → List Char
  | ⟨.ident name, args, _⟩ =>
      match Symbol.groupOf? (names.text name) with
      | some (opening, closing) => opening :: (Message.argChars names args ++ [closing])
      | none =>
          if args.isEmpty then (names.text name).toList
          else (names.text name).toList ++ '(' :: (Message.argChars names args ++ [')'])
  | ⟨.number x, _, _⟩ => Symbol.numberChars x
  | ⟨.text s, _, _⟩ => Quoted.encode s.toList
  | ⟨.separator mark, _, _⟩ => [mark.char]

/-- The messages of a chain from some point on; `fresh` at the start of a line. -/
def Chain.charsFrom (names : Interner) (fresh : Bool) : List Message → List Char
  | [] => []
  | m :: rest =>
      (if fresh then [] else [' ']) ++ m.chars names
        ++ (if Symbol.isBare names m.symbol m.args && Chain.firstName? rest == some .empty
            then ['(', ')'] else [])
        ++ Chain.charsFrom names (m.symbol == .separator .newline) rest

/-- Argument chains between commas. -/
def Message.argChars (names : Interner) : List (List Message) → List Char
  | [] => []
  | [a] => Chain.charsFrom names true a
  | a :: b :: rest =>
      Chain.charsFrom names true a ++ ',' :: ' ' :: Message.argChars names (b :: rest)

end

/-- A chain. -/
def Chain.chars (names : Interner) (c : Chain) : List Char := Chain.charsFrom names true c

/-- A message as source text. -/
def Message.toSource (names : Interner) (m : Message) : String := String.ofList (m.chars names)

/-- A chain as source text. -/
def Chain.toSource (names : Interner) (c : Chain) : String := String.ofList (c.chars names)

end Prototalk
