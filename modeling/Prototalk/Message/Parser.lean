/-
  Prototalk.Message.Parser
  ────────────────────────────────
  **FROM TOKENS TO MESSAGES.**

  The parser takes one token at a time.  It keeps the chain it is building
  and, for every open bracket, the chain that the bracket interrupted.

      name (…)    the group holds the arguments of the name right before it
      (…)         anywhere else it is a message with the empty name
      […]  {…}    always messages of their own

  A separator at the start of a statement means nothing and leaves no
  message.  The first error ends the parse and nothing behind it is looked
  at; the names read so far stay known.
-/
import Prototalk.Message.Literal
import Prototalk.Message.Printer
import Prototalk.Token.Handoff

namespace Prototalk

/-! ## §1. The state between two tokens. -/

/-- A bracket group that is not closed yet. -/
structure OpenGroup where
  /-- The bracket that opened it. -/
  bracket : Char
  /-- Its place. -/
  span : Span
  /-- The group holds the arguments of the last message of `outer`. -/
  attached : Bool
  /-- The arguments that are complete, last one first. -/
  args : List Chain
  /-- The chain around the group, last message first. -/
  outer : List Message

/-- A parse in progress. -/
structure Parser where
  /-- The names known so far. -/
  names : Interner
  /-- The name that `[...]` sends. -/
  square : Name
  /-- The name that `{...}` sends. -/
  curly : Name
  /-- The open groups, innermost first. -/
  groups : List OpenGroup
  /-- The chain being built, last message first. -/
  messages : List Message
  /-- The last token was an identifier, so `(` may give it arguments. -/
  callable : Bool
  /-- End of the last token. -/
  lastStop : Nat

/-- The bracket that closes a group. -/
def closerOf (opening : Char) : Char :=
  if opening == '[' then ']' else if opening == '{' then '}' else ')'

namespace Parser

/-- The start of a parse; the names of the bracket groups are the first to be known. -/
def new (names : Interner) : Parser :=
  let (square, names) := names.intern squareBrackets
  let (curly, names) := names.intern curlyBrackets
  ⟨names, square, curly, [], [], false, 0⟩

/-- Whether a separator would stand at the start of a statement. -/
def atStatementStart (p : Parser) : Bool :=
  match p.messages with
  | [] => true
  | m :: _ => m.isSeparator

/-! ## §2. One token. -/

/-- Add a message to the chain. -/
def push (p : Parser) (symbol : Symbol) (span : Span) : Parser :=
  { p with messages := .ofSymbol symbol span :: p.messages }

/-- Add a literal, if it stands for something. -/
def literal {α : Type} (p : Parser) (span : Span) (value : Except ParseFault α)
    (symbol : α → Symbol) : Except ParseError Parser :=
  match value with
  | .ok x => .ok (p.push (symbol x) span)
  | .error fault => .error ⟨fault, span⟩

/-- The error of a malformed token; one that does not say what is wrong is blamed on its first
character. -/
def malformed (t : Token) : ParseError :=
  .ofLexError (t.error.getD ⟨.unexpectedChar (t.firstChar?.getD '\uFFFD'), t.span⟩)

/-- Open a bracket group. -/
def openGroup (p : Parser) (wasCallable : Bool) (bracket : Char) (span : Span) : Parser :=
  { p with
    groups := ⟨bracket, span, bracket == '(' && wasCallable, [], p.messages⟩ :: p.groups
    messages := [] }

/-- The name of a group that is a message of its own. -/
def groupName (p : Parser) (bracket : Char) : Name :=
  if bracket == '[' then p.square else if bracket == '{' then p.curly else .empty

/-- The chain around a group once the group is complete: its arguments go to the last message, or
to a message of their own. -/
def closeGroup (p : Parser) (g : OpenGroup) (args : List Chain) (span : Span) : List Message :=
  match g.attached, g.outer with
  | true, m :: rest => { m with args := args, span := m.span.merge span } :: rest
  | _, outer => ⟨.ident (p.groupName g.bracket), args, span⟩ :: outer

/-- Close the innermost group with the bracket `found`. -/
def close (p : Parser) (found : Char) (span : Span) : Except ParseError Parser :=
  match p.groups with
  | [] => .error ⟨.unexpectedClose found, span⟩
  | g :: groups =>
      if found != closerOf g.bracket then
        .error ⟨.mismatchedBracket (closerOf g.bracket) found, span⟩
      else if p.messages.isEmpty && !g.args.isEmpty then .error ⟨.emptyArgument, span⟩
      else
        -- `f()` has no arguments at all; behind a comma there must be one
        let last := if p.messages.isEmpty then [] else [p.messages.reverse]
        let args := g.args.reverse ++ last
        .ok { p with groups := groups, messages := p.closeGroup g args (g.span.merge span) }

/-- End an argument. -/
def comma (p : Parser) (span : Span) : Except ParseError Parser :=
  match p.groups with
  | [] => .error ⟨.topLevelComma, span⟩
  | g :: groups =>
      if p.messages.isEmpty then .error ⟨.emptyArgument, span⟩
      else
        .ok { p with
          groups := { g with args := p.messages.reverse :: g.args } :: groups
          messages := [] }

/-- The state after a token. -/
def step (p : Parser) (t : Token) : Except ParseError Parser :=
  let wasCallable := p.callable
  -- whatever the token is, the one before it matters to it alone
  let p := { p with callable := false, lastStop := t.span.stop }
  match t.kind with
  | .malformed => .error (malformed t)
  | .separator =>
      if p.atStatementStart then .ok p
      else .ok (p.push (.separator (.ofChar (t.firstChar?.getD '\n'))) t.span)
  | .identifier =>
      let (name, names) := p.names.intern t.value
      .ok ({ p with names := names, callable := true }.push (.ident name) t.span)
  | .number => p.literal t.span (Literal.number t.value) .number
  | .hexNumber => p.literal t.span (Literal.hexNumber t.value) .number
  | .string => p.literal t.span (Literal.string t.value) .text
  | .triQuote => p.literal t.span (Literal.triQuote t.value) .text
  | .opening => .ok (p.openGroup wasCallable (t.bracket?.getD '(') t.span)
  | .closing => p.close (t.bracket?.getD ')') t.span
  | .comma => p.comma t.span

/-- The result at the end of the input: the chain, if there is one and every group is closed. -/
def result (p : Parser) : Except ParseError (Option Chain) :=
  match p.groups with
  | g :: _ => .error ⟨.unclosedBracket (closerOf g.bracket), .point p.lastStop⟩
  | [] => .ok (if p.messages.isEmpty then none else some p.messages.reverse)

end Parser

/-! ## §3. Whole programs. -/

/-- How a parse ended. -/
structure Parsed where
  /-- The chain, no chain for a program without messages, or the first error. -/
  result : Except ParseError (Option Chain)
  /-- The names known at the end. -/
  names : Interner
  /-- The tokens behind the one that caused the error. -/
  rest : List Token

namespace Parser

/-- Take tokens up to the first error. -/
def run (p : Parser) : List Token → Parsed
  | [] => ⟨p.result, p.names, []⟩
  | t :: ts =>
      match p.step t with
      | .ok p => p.run ts
      | .error e => ⟨.error e, p.names, ts⟩

end Parser

/-- Parse a sequence of tokens. -/
def parseTokens (names : Interner) (tokens : List Token) : Parsed := (Parser.new names).run tokens

/-- Parse a source, lexing it in the given way. -/
def parseSource (names : Interner) (mode : LexMode) (source : Source) : Parsed :=
  parseTokens names (source.tokensBy mode)

/-- Parse a text. -/
def parse (names : Interner) (text : String) : Parsed :=
  parseSource names .inline (.ofString text)

end Prototalk
