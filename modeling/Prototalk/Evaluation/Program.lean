/-
  Prototalk.Evaluation.Program
  ────────────────────────────────
  **RUNNING PROGRAMS IN AN IMAGE.**

  A program is parsed with the names of the image and evaluated in the
  lobby.  A program without messages is `nil`; a text that is no program
  changes nothing but the names.

  A program need not end, so every run gets a number of steps after which it
  is given up.
-/
import Prototalk.Evaluation.Step
import Prototalk.Image.Genesis
import Prototalk.Message.Parser

namespace Prototalk

/-- How a run ended, and the image after it. -/
structure Ran where
  /-- The result. -/
  result : Except EvalError Ref
  /-- The image. -/
  image : Image

namespace Image

/-- Evaluate a chain with `locals` as the first receiver and as the place of its arguments. -/
def evaluate (image : Image) (fuel : Nat) (chain : Chain) (locals : Ref) : Option Ran :=
  (Machine.run fuel (.start image chain locals)).map fun m => ⟨m.result, m.image⟩

/-- The objects that a result holds. -/
def resultRefs : Except EvalError Ref → List Ref
  | .ok v => [v]
  | .error _ => []

/-- Evaluate a program in the lobby; collect afterwards, if it is time to. -/
def runChain (image : Image) (fuel : Nat) : Option Chain → Option Ran
  | none => some ⟨.ok Builtin.nil.ref, image⟩
  | some chain =>
      (image.evaluate fuel chain Builtin.lobby.ref).map fun ran =>
        ⟨ran.result, ran.image.collectIfDue (resultRefs ran.result)⟩

/-- Parse and evaluate what tokens say. -/
def runParsed (image : Image) (fuel : Nat) (parsed : Parsed) : Option Ran :=
  let image := { image with names := parsed.names }
  match parsed.result with
  | .ok chain => image.runChain fuel chain
  | .error e => some ⟨.error (.ofParseError e), image⟩

/-- Run the program in a text. -/
def doString (image : Image) (fuel : Nat) (text : String) : Option Ran :=
  let parsed := parse image.names text
  image.runParsed fuel parsed

/-- Run the program that a source reads, lexed in the way of the image. -/
def doSource (image : Image) (fuel : Nat) (source : Source) : Option Ran :=
  let parsed := parseSource image.names image.lexMode source
  image.runParsed fuel parsed

end Image

end Prototalk
