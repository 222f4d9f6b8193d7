/-
  Prototalk.Proofs.Token.Layout
  ────────────────────────────────
  **BLANKS BETWEEN TOKENS MEAN NOTHING.**

  A text whose tokens are all proper may be written again with other blanks:
  its tokens one after another, parted by blanks of whatever kind and number.
  It has the same tokens.

  The rules of the language carry the argument.  What follows a token matters
  only as far as it must not carry on the token, and no part of any token goes
  on with a blank; so a token stays one before every text that is empty or
  starts with a blank (`Lexeme.congr`, `Spaced.succeeds`).

  Main statement: `tokenize_laidOut`.
-/
import Prototalk.Proofs.Token.Streaming

namespace Prototalk

namespace Lexicon

open Lexer (isSpace)

/-! ## §1. Texts laid out with blanks. -/

/-- The words one after another, with blanks behind each of them.  Only behind the last word the
blanks may be left out. -/
inductive Spaced : List (List Char) → List Char → Prop where
  | none : Spaced [] []
  | word {word gap rest : List Char} {words : List (List Char)} (hgap : Blank gap)
      (hparts : words ≠ [] → gap ≠ []) (hrest : Spaced words rest) :
      Spaced (word :: words) (word ++ gap ++ rest)

/-- The words one after another, parted by blanks.  Blanks may also stand at both ends. -/
def LaidOut (words : List (List Char)) (text : List Char) : Prop :=
  ∃ gap rest, text = gap ++ rest ∧ Blank gap ∧ Spaced words rest

/-- Behind a word there is a blank or nothing, whatever stood there in another text. -/
theorem Spaced.succeeds {words : List (List Char)} {gap rest rest' : List Char} (hgap : Blank gap)
    (hparts : words ≠ [] → gap ≠ []) (hrest : Spaced words rest) :
    Succeeds (gap ++ rest) rest' := by
  intro x hx
  cases gap with
  | cons y gap =>
    obtain rfl : y = x := Option.some.inj hx
    exact .inr (hgap y List.mem_cons_self)
  | nil =>
    cases hrest with
    | none => cases hx
    | word => exact absurd rfl (hparts (List.cons_ne_nil _ _))

/-! ## §2. The same tokens. -/

/-- **The tokens of a text are the tokens of their words laid out with blanks**, wherever the two
texts stand. -/
theorem Lexed.laidOut {before text margin text' : List Char} {tokens : List Token}
    (h : Lexed before text tokens) (before' : List Char)
    (hproper : ∀ t ∈ tokens, t.kind ≠ .malformed) (hmargin : Blank margin)
    (hspaced : Spaced (tokens.map (·.value.toList)) text') :
    ∃ tokens', Lexed before' (margin ++ text') tokens'
      ∧ tokens'.map Token.key = tokens.map Token.key := by
  induction h generalizing before' margin text' with
  | blank hgap =>
    cases hspaced
    rw [List.append_nil]
    exact ⟨[], .blank hmargin, rfl⟩
  | broken hgap hword => exact absurd rfl (hproper _ List.mem_cons_self)
  | @token before gap word rest kind tokens hgap hword hrest ih =>
    cases hspaced with
    | @word _ gap' rest' _ hgap' hparts hspaced =>
      simp only [Token.ofKind, String.toList_ofList]
      obtain ⟨tokens', hlexed, hkeys⟩ := ih (before' ++ margin ++ word)
        (fun t ht => hproper t (List.mem_cons_of_mem _ ht)) hgap' hspaced
      have hword' : Lexeme kind word (gap' ++ rest') :=
        hword.congr (hspaced.succeeds hgap' hparts)
      have htext : margin ++ (word ++ gap' ++ rest') = margin ++ word ++ (gap' ++ rest') := by simp
      rw [htext]
      exact ⟨_, .token hmargin hword' hlexed, by simp [Token.key, Token.ofKind, hkeys]⟩

/-- **Blanks between tokens mean nothing.**  If all tokens of a text are proper, their texts laid
out again with blanks between them, and perhaps at both ends, have the same tokens in the same
order. -/
theorem tokenize_laidOut {s s' : String} (hproper : ∀ t ∈ tokenize s, t.kind ≠ .malformed)
    (hlaidOut : LaidOut ((tokenize s).map (·.value.toList)) s'.toList) :
    (tokenize s').map Token.key = (tokenize s).map Token.key := by
  obtain ⟨tokens, hlexed⟩ := exists_lexed [] s.toList
  have htokens : tokenize s = tokens := hlexed.tokens_eq (Lexer.at_ofSource s)
  rw [htokens] at hproper hlaidOut ⊢
  obtain ⟨gap, rest, htext, hgap, hspaced⟩ := hlaidOut
  obtain ⟨tokens', hlexed', hkeys⟩ := hlexed.laidOut [] hproper hgap hspaced
  have htokens' : tokenize s' = tokens' := by
    rw [← htext] at hlexed'
    exact hlexed'.tokens_eq (Lexer.at_ofSource s')
  rw [htokens', hkeys]

/-- In `1.5.x"""a"b""":=` no two tokens are parted.  With blanks between them, the number does not
take in the word that follows its fraction, and the quotes of the long string stay together. -/
theorem tokenize_laidOut_number :
    (∀ t ∈ tokenize "1.5.x\"\"\"a\"b\"\"\":=", t.kind ≠ .malformed)
      ∧ LaidOut ((tokenize "1.5.x\"\"\"a\"b\"\"\":=").map (·.value.toList))
        "\t1.5 .x\r\"\"\"a\"b\"\"\" \t:=".toList
      ∧ (tokenize "\t1.5 .x\r\"\"\"a\"b\"\"\" \t:=").map Token.key
        = (tokenize "1.5.x\"\"\"a\"b\"\"\":=").map Token.key := by
  have hproper : ∀ t ∈ tokenize "1.5.x\"\"\"a\"b\"\"\":=", t.kind ≠ .malformed := by decide +kernel
  have hwords : (tokenize "1.5.x\"\"\"a\"b\"\"\":=").map (·.value.toList)
      = ["1.5".toList, ".x".toList, "\"\"\"a\"b\"\"\"".toList, ":=".toList] := by decide +kernel
  have hlaidOut : LaidOut ((tokenize "1.5.x\"\"\"a\"b\"\"\":=").map (·.value.toList))
      "\t1.5 .x\r\"\"\"a\"b\"\"\" \t:=".toList := by
    have hblank (gap : List Char) (h : gap.all isSpace = true) : Blank gap := List.all_eq_true.mp h
    have hlast : Spaced [":=".toList] _ :=
      .word (hblank [] rfl) (absurd rfl) .none
    have hlong : Spaced ["\"\"\"a\"b\"\"\"".toList, ":=".toList] _ :=
      .word (hblank [' ', '\t'] (by decide)) (by simp) hlast
    have hname : Spaced [".x".toList, "\"\"\"a\"b\"\"\"".toList, ":=".toList] _ :=
      .word (hblank ['\r'] (by decide)) (by simp) hlong
    rw [hwords]
    exact ⟨['\t'], _, by decide, hblank ['\t'] (by decide),
      .word (hblank [' '] (by decide)) (by simp) hname⟩
  exact ⟨hproper, hlaidOut, tokenize_laidOut hproper hlaidOut⟩

end Lexicon

end Prototalk
