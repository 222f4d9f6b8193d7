/-
  Prototalk.Evaluation.EvalError
  ────────────────────────────────
  **WHY A PROGRAM FAILS.**

  An error of evaluation gets the place of the message that raised it.  A
  text that is no program fails with the error of its parse, which knows its
  own place.
-/
import Prototalk.Message.ParseError
import Prototalk.Number.Shortest
import Prototalk.Object

namespace Prototalk

/-- What an operation needs and did not get. -/
inductive Wanted where
  /-- A string as argument. -/
  | string
  /-- A number as argument. -/
  | number
  /-- A bare identifier as argument. -/
  | parameterName
  /-- A block as receiver. -/
  | block
  /-- A call as receiver. -/
  | call
  /-- A message as receiver. -/
  | message
  deriving DecidableEq

namespace Wanted

/-- The words for it. -/
def text : Wanted → String
  | .string => "a string"
  | .number => "a number"
  | .parameterName => "a parameter name"
  | .block => "a block"
  | .call => "a call"
  | .message => "a message"

end Wanted

/-- What went wrong. -/
inductive EvalFault where
  /-- Neither the receiver nor what it delegates to has the slot, nor a `forward`. -/
  | slotNotFound (name : String)
  /-- Too many activations inside each other. -/
  | stackOverflow (limit : Nat)
  /-- An operation was given too few arguments. -/
  | missingArgument (slot : String) (index : Nat)
  /-- An argument of an operation is of the wrong kind. -/
  | wrongArgumentType (slot : String) (index : Nat) (expected : Wanted)
  /-- The call has no argument at this index. -/
  | argumentOutOfRange (index : Binary64) (count : Nat)
  /-- An operation was sent to an object of the wrong kind. -/
  | wrongReceiver (slot : String) (expected : Wanted)
  /-- The text is no program. -/
  | parse (e : ParseError)
  deriving DecidableEq

namespace EvalFault

/-- The text of the fault. -/
def message : EvalFault → String
  | .slotNotFound name => "slot '" ++ name ++ "' not found"
  | .stackOverflow limit => "maximum call depth of " ++ toString limit ++ " exceeded"
  | .missingArgument slot index => "'" ++ slot ++ "' requires argument " ++ toString index
  | .wrongArgumentType slot index expected =>
      "'" ++ slot ++ "' expects " ++ expected.text ++ " for argument " ++ toString index
  | .argumentOutOfRange index count =>
      "argument " ++ index.text ++ " out of range for a call with " ++ toString count ++ " arguments"
  | .wrongReceiver slot expected => "'" ++ slot ++ "' must be sent to " ++ expected.text
  | .parse e => e.message

end EvalFault

/-- A fault and, once it is known, where it happened. -/
structure EvalError where
  /-- What went wrong. -/
  fault : EvalFault
  /-- The message that raised it. -/
  span : Option Span
  deriving DecidableEq

namespace EvalError

/-- An error without a place. -/
def ofFault (fault : EvalFault) : EvalError := ⟨fault, none⟩

/-- The error of a failed parse. -/
def ofParseError (e : ParseError) : EvalError := ⟨.parse e, some e.span⟩

/-- Put the error into a place. -/
def withSpan (e : EvalError) (span : Span) : EvalError := { e with span := some span }

/-- Put the error into a place, unless it has one. -/
def withSpanIfMissing (e : EvalError) (span : Span) : EvalError :=
  match e.span with
  | some _ => e
  | none => e.withSpan span

/-- The text of the error; a failed parse tells its own place. -/
def message (e : EvalError) : String :=
  match e.fault, e.span with
  | .parse p, _ => p.message
  | fault, none => fault.message
  | fault, some span => fault.message ++ " at " ++ span.text

/-- The failed parse behind the error, if it is one. -/
def cause? (e : EvalError) : Option ParseError :=
  match e.fault with
  | .parse p => some p
  | _ => none

end EvalError

/-- Why a chain is left before its end. -/
inductive Signal where
  /-- The innermost activation ends with this value. -/
  | returning (value : Ref)
  /-- An error, which ends the program. -/
  | failed (e : EvalError)
  deriving DecidableEq

namespace Signal

/-- A fault whose place is not known yet. -/
def ofFault (fault : EvalFault) : Signal := .failed (.ofFault fault)

/-- Put an error without a place into this one. -/
def withSpanIfError (s : Signal) (span : Span) : Signal :=
  match s with
  | .failed e => .failed (e.withSpanIfMissing span)
  | .returning v => .returning v

/-- What a signal means where nothing is left to leave: a returned value is the result. -/
def toResult : Signal → Except EvalError Ref
  | .returning v => .ok v
  | .failed e => .error e

/-- The objects that a signal carries. -/
def refs : Signal → List Ref
  | .returning v => [v]
  | .failed _ => []

end Signal

end Prototalk
