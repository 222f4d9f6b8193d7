/-
  Prototalk.Message
  ────────────────────────────────
  **MESSAGES AND CHAINS.**

  A program is a chain of messages.  A message says one thing (a name, a
  number, a string, or the end of a statement) and may carry arguments,
  which are chains themselves.  Each message of a chain is sent to the
  result of the one before it.
-/
import Prototalk.Name
import Prototalk.Number.Binary64
import Prototalk.Span

namespace Prototalk

/-- The character that ended a statement. -/
inductive Separator where
  /-- `;` -/
  | semicolon
  /-- The end of a line. -/
  | newline
  deriving DecidableEq

namespace Separator

/-- The character itself. -/
def char : Separator → Char
  | .semicolon => ';'
  | .newline => '\n'

/-- The separator of a character; whatever is no semicolon ends a line. -/
def ofChar (c : Char) : Separator := if c == ';' then .semicolon else .newline

end Separator

/-- What a message says. -/
inductive Symbol where
  /-- The name of a slot to look up. -/
  | ident (name : Name)
  /-- A number. -/
  | number (value : Binary64)
  /-- A string. -/
  | text (value : String)
  /-- The end of a statement. -/
  | separator (mark : Separator)
  deriving DecidableEq

namespace Symbol

/-- Equality of symbols, where numbers are compared by value. -/
def same : Symbol → Symbol → Bool
  | .ident a, .ident b => a == b
  | .number x, .number y => x.sameValue y
  | .text s, .text t => s == t
  | .separator a, .separator b => a == b
  | _, _ => false

end Symbol

/-- A message with its arguments. -/
structure Message where
  /-- What it says. -/
  symbol : Symbol
  /-- Its arguments, each a chain. -/
  args : List (List Message)
  /-- Where it stands. -/
  span : Span

/-- Messages that are sent one after another. -/
abbrev Chain := List Message

namespace Message

/-- A message without arguments. -/
def ofSymbol (symbol : Symbol) (span : Span) : Message := ⟨symbol, [], span⟩

/-- The slot name that a message sends, if it sends one. -/
def name? (m : Message) : Option Name :=
  match m.symbol with
  | .ident name => some name
  | _ => none

/-- Whether the message ends a statement. -/
def isSeparator (m : Message) : Bool :=
  match m.symbol with
  | .separator _ => true
  | _ => false

end Message

/-! ## §1. Equality up to spans. -/

mutual

/-- Same symbol, and the same arguments; spans do not count. -/
def Message.same : Message → Message → Bool
  | ⟨s, as, _⟩, ⟨t, bs, _⟩ => s.same t && Message.sameArgs as bs

/-- Same messages in the same order. -/
def Chain.same : List Message → List Message → Bool
  | [], [] => true
  | m :: ms, n :: ns => m.same n && Chain.same ms ns
  | _, _ => false

/-- Same argument chains in the same order. -/
def Message.sameArgs : List (List Message) → List (List Message) → Bool
  | [], [] => true
  | a :: as, b :: bs => Chain.same a b && Message.sameArgs as bs
  | _, _ => false

end

/-! ## §2. Chains. -/

namespace Chain

/-- The name of the first message, if that is one. -/
def firstName? (c : Chain) : Option Name := c.head?.bind Message.name?

/-- The range from the first message to the last. -/
def span (c : Chain) : Span :=
  match c.head?, c.getLast? with
  | some first, some last => first.span.merge last.span
  | _, _ => .nowhere

/-- The name of a chain that is one bare identifier, as a parameter of a block has to be. -/
def bareName? : Chain → Option Name
  | [⟨.ident name, [], _⟩] => some name
  | _ => none

end Chain

end Prototalk
