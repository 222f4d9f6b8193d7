/-
  Prototalk.Message.Site
  ────────────────────────────────
  **POSITIONS IN A CHAIN.**

  A site is a message together with what stands before and behind it, so a
  position is never outside of its chain.
-/
import Prototalk.Message

namespace Prototalk

/-- A message together with the chain it stands in. -/
structure Site where
  /-- The messages before it, nearest first. -/
  before : List Message
  /-- The message. -/
  message : Message
  /-- The messages behind it. -/
  after : List Message

namespace Site

/-- The chain. -/
def chain (s : Site) : Chain := s.before.reverse ++ s.message :: s.after

/-- The position of the message in its chain. -/
def index (s : Site) : Nat := s.before.length

/-- Number of messages in the chain. -/
def siblings (s : Site) : Nat := s.before.length + 1 + s.after.length

/-- The position behind this one. -/
def next? (s : Site) : Option Site :=
  match s.after with
  | [] => none
  | m :: rest => some ⟨s.message :: s.before, m, rest⟩

/-- The position before this one. -/
def previous? (s : Site) : Option Site :=
  match s.before with
  | [] => none
  | m :: rest => some ⟨rest, m, s.message :: s.after⟩

/-- Whether the message starts a statement. -/
def isStatementStart (s : Site) : Bool :=
  match s.before with
  | [] => true
  | m :: _ => m.isSeparator

/-- The position at `index` of a chain, if the chain reaches that far. -/
def at? (c : Chain) (index : Nat) : Option Site :=
  match c.drop index with
  | [] => none
  | m :: rest => some ⟨(c.take index).reverse, m, rest⟩

/-- All positions of a chain, first to last. -/
def all (c : Chain) : List Site := (List.range c.length).filterMap (at? c)

end Site

end Prototalk
