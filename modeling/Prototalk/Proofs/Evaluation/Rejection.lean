/-
  Prototalk.Proofs.Evaluation.Rejection
  ────────────────────────────────
  **A TEXT THAT IS NO PROGRAM CHANGES NOTHING BUT THE NAMES.**

  A run parses everything before it evaluates anything.  If the parse fails,
  the run ends with its error, in whatever state the image is, and what the
  image knows more than before are names that stand in front of the error.

  Main statement: `rejects_of_unparsed`.
-/
import Prototalk.Evaluation.Program
import Prototalk.Proofs.Message.Extent

namespace Prototalk

namespace Image

/-- The run of tokens that are no program: it ends with the error `e`, and the image is the one
before it but for the names that `taken` mentions. -/
structure Rejects (image : Image) (tokens : List Token) (e : ParseError) (ran : Option Ran) :
    Prop where
  /-- How the run ends. -/
  ended : ∃ names, ran = some ⟨.error (.ofParseError e), { image with names := names }⟩
    ∧ ∃ taken, Parsed.Extent image.names tokens taken
      ∧ names.texts.toList = image.names.texts.toList ++ image.names.added (mentioned taken)
  /-- No object is made, and none becomes garbage. -/
  live_eq : ∀ later ∈ ran.map (·.image), later.live = image.live

theorem rejects_of_error {image : Image} {tokens : List Token} {e : ParseError}
    (h : (parseTokens image.names tokens).result = .error e) (fuel : Nat) :
    image.Rejects tokens e (image.runParsed fuel (parseTokens image.names tokens)) := by
  have hran : image.runParsed fuel (parseTokens image.names tokens)
      = some ⟨.error (.ofParseError e),
          { image with names := (parseTokens image.names tokens).names }⟩ := by
    unfold runParsed
    rw [h]
  obtain ⟨taken, htaken⟩ := parseTokens_extent image.names tokens
  constructor
  · exact ⟨_, hran, taken, htaken, htaken.names⟩
  · intro later hlater
    rw [hran] at hlater
    cases hlater
    rfl

/-- **A parse reads up to its first error, and a run that fails to parse is as if it had not been
asked for**, whatever image it is in; only the names read so far are known behind it. -/
theorem rejects_of_unparsed :
    (∀ names tokens, ∃ taken, Parsed.Extent names tokens taken)
      ∧ ∀ (image : Image) (fuel : Nat) (e : ParseError),
        (∀ text, (parse image.names text).result = .error e →
          image.Rejects (tokenize text) e (image.doString fuel text))
        ∧ ∀ source, (parseSource image.names image.lexMode source).result = .error e →
          image.Rejects (source.tokensBy image.lexMode) e (image.doSource fuel source) := by
  refine ⟨parseTokens_extent, fun image fuel e => ⟨?_, ?_⟩⟩
  · intro text h
    exact rejects_of_error h fuel
  · intro source h
    exact rejects_of_error h fuel

/-- The comma of `foo(bar, ) baz` has nothing behind it.  Two names are read before that is seen,
and a third one is not. -/
theorem rejects_of_unparsed_comma :
    (parse (Image.new {}).names "foo(bar, ) baz").result = .error ⟨.emptyArgument, ⟨9, 10⟩⟩
      ∧ (Image.new {}).Rejects (tokenize "foo(bar, ) baz") ⟨.emptyArgument, ⟨9, 10⟩⟩
        ((Image.new {}).doString 0 "foo(bar, ) baz") := by
  have h : (parse (Image.new {}).names "foo(bar, ) baz").result
      = .error ⟨.emptyArgument, ⟨9, 10⟩⟩ := by
    have hreported : (match (parse (Image.new {}).names "foo(bar, ) baz").result with
        | .error e => some e
        | .ok _ => none) = some ⟨.emptyArgument, ⟨9, 10⟩⟩ := by decide +kernel
    split at hreported
    · rename_i e he
      rw [he, Option.some.inj hreported]
    · cases hreported
  exact ⟨h, (rejects_of_unparsed.2 (Image.new {}) 0 _).1 _ h⟩

end Image

end Prototalk
