/-
  Prototalk.Token.Handoff
  ────────────────────────────────
  **LEXING BESIDE THE PARSER.**

  A lexer may run on its own and hand each token over when the other side
  takes it.  There is no room between them: the producer holds at most one
  token, and has to get rid of it before it looks for the next.  The
  consumer may hang up at any moment; the producer learns of it when it
  offers its token.

  `move?` gives the moves of the two sides, in whatever order they come.
  `drain` is the run in which the consumer takes everything.
-/
import Prototalk.Token.Lexer

namespace Prototalk

/-- What the producing side is doing. -/
inductive Producer where
  /-- Looking for the next token. -/
  | lexing (l : Lexer)
  /-- Waiting to hand over a token. -/
  | offering (t : Token) (l : Lexer)
  /-- Finished, because the tokens or the consumer are gone. -/
  | stopped

/-- A producer and a consumer of tokens. -/
structure Handoff where
  /-- The producing side. -/
  producer : Producer
  /-- The tokens that were handed over, last one first. -/
  received : List Token
  /-- The consumer has not hung up. -/
  listening : Bool

namespace Handoff

/-- A step of one of the sides, or of both together. -/
inductive Move where
  /-- The producer looks for a token. -/
  | produce
  /-- The token is handed over. -/
  | deliver
  /-- The consumer hangs up. -/
  | hangUp
  /-- The producer finds that the consumer is gone. -/
  | giveUp

/-- The start: nothing is produced and nothing received. -/
def ofSource (source : Source) : Handoff := ⟨.lexing (.ofSource source), [], true⟩

/-- The state after a move, where the move is possible. -/
def move? (h : Handoff) : Move → Option Handoff
  | .produce =>
      match h.producer with
      | .lexing l =>
          match l.next with
          | (some t, l) => some { h with producer := .offering t l }
          | (none, _) => some { h with producer := .stopped }
      | _ => none
  | .deliver =>
      match h.producer, h.listening with
      | .offering t l, true => some { h with producer := .lexing l, received := t :: h.received }
      | _, _ => none
  | .hangUp => if h.listening then some { h with listening := false } else none
  | .giveUp =>
      match h.producer, h.listening with
      | .offering _ _, false => some { h with producer := .stopped }
      | _, _ => none

/-- The move of a run in which the consumer takes every token. -/
def turn? (h : Handoff) : Option Handoff :=
  match h.producer with
  | .lexing _ => h.move? .produce
  | .offering _ _ => h.move? .deliver
  | .stopped => none

/-- What is still to be done on the producing side. -/
def remaining (h : Handoff) : Nat :=
  match h.producer with
  | .lexing l => 2 * l.remaining + 1
  | .offering _ l => 2 * l.remaining + 2
  | .stopped => 0

theorem remaining_turn?_lt {h h' : Handoff} (e : h.turn? = some h') :
    h'.remaining < h.remaining := by
  obtain ⟨producer, received, listening⟩ := h
  cases producer with
  | lexing l =>
    simp only [turn?, move?] at e
    split at e
    · rename_i hn
      cases e
      have := Lexer.remaining_next_lt hn
      simp only [remaining]
      omega
    · cases e
      simp [remaining]
  | offering t l =>
    cases listening <;> simp [turn?, move?] at e
    cases e
    simp [remaining]
  | stopped => simp [turn?] at e

/-- Let the consumer take every token. -/
def drain (h : Handoff) : Handoff :=
  match _e : h.turn? with
  | some h' => drain h'
  | none => h
termination_by h.remaining
decreasing_by exact remaining_turn?_lt _e

end Handoff

/-- The tokens of a source that is lexed beside its consumer. -/
def Source.handedOver (source : Source) : List Token :=
  (Handoff.ofSource source).drain.received.reverse

/-- How the tokens of a source are made. -/
inductive LexMode where
  /-- Each token when it is asked for. -/
  | inline
  /-- Beside the consumer, handed over one at a time. -/
  | pipelined
  deriving DecidableEq

/-- The tokens of a source, made in the given way. -/
def Source.tokensBy (mode : LexMode) (source : Source) : List Token :=
  match mode with
  | .inline => source.tokens
  | .pipelined => source.handedOver

end Prototalk
