/-
  Prototalk.Proofs.Token.Excerpt
  ────────────────────────────────
  **TOKENS CUT OUT OF THEIR TEXT.**

  `Takes before text after tokens` says that `text`, between `before` and
  `after`, is cut into `tokens` and ends with the last of them.  What stands
  before does not matter, and of what stands behind only the first character
  does (`Takes.move`), so the text from the first to the last of some
  neighbouring tokens has the same tokens when it stands alone
  (`tokenize_excerpt`).
-/
import Prototalk.Proofs.Token.Lexeme
import Prototalk.Proofs.Token.Locality
import Prototalk.Proofs.Token.Tiling

namespace Prototalk

open Lexer

/-! ## §1. A stretch of proper tokens. -/

/-- Behind `before` and before `after`, the text consists of these tokens and the blanks before each
of them. -/
inductive Takes : List Char → List Char → List Char → List Token → Prop where
  | nil {before after : List Char} : Takes before [] after []
  | token {before gap more text after : List Char} {c : Char} {kind : TokenKind}
      {tokens : List Token} (hgap : Blank gap) (hc : isSpace c = false)
      (hcut : Cut.first c (more ++ (text ++ after)) = ⟨.ok kind, c :: more, [], text ++ after⟩)
      (htail : Takes (before ++ (gap ++ c :: more)) text after tokens) :
      Takes before (gap ++ c :: more ++ text) after
        (.ofKind kind (String.ofList (c :: more))
          ⟨offsetOf (before ++ gap), offsetOf (before ++ (gap ++ c :: more))⟩ :: tokens)

namespace Takes

variable {before text after rest : List Char} {t : Token} {tokens more : List Token} {l : Lexer}

/-- The proper tokens of a text are a stretch, with blanks behind it. -/
theorem of_tiles (h : Tiles before text tokens) (hproper : ∀ t ∈ tokens, t.kind ≠ .malformed) :
    ∃ taken rest, text = taken ++ rest ∧ Takes before taken rest tokens := by
  induction h with
  | @blank before text htext => exact ⟨[], text, rfl, .nil⟩
  | last hgap hc hcut =>
    refine absurd ?_ (hproper _ List.mem_cons_self)
    simp [Cut.token, hcut, Token.malformed]
  | @token before gap more c kind tokens hgap hc hcut htail ih =>
    obtain ⟨taken, rest, hrest, htakes⟩ := ih fun t ht => hproper t (List.mem_cons_of_mem _ ht)
    obtain ⟨hdivides, -⟩ := Cut.divides_of_ok hcut
    generalize hvalue : (Cut.behind c more).value = value
    have hfirst : Cut.first c more = ⟨.ok kind, c :: value, [], taken ++ rest⟩ := by
      rw [← hcut, ← hrest, ← hdivides.dropped, ← hvalue]
      rfl
    obtain rfl : more = value ++ (taken ++ rest) := by
      have htext := hdivides.text
      rw [hfirst] at htext
      exact (List.cons.inj htext).2.symm
    refine ⟨gap ++ c :: value ++ taken, rest, by simp, ?_⟩
    have htoken : (Cut.first c (value ++ (taken ++ rest))).token (offsetOf (before ++ gap)) []
        (before ++ gap) = .ofKind kind (String.ofList (c :: value))
          ⟨offsetOf (before ++ gap), offsetOf (before ++ (gap ++ c :: value))⟩ := by
      rw [hfirst]
      simp [Cut.token, textOf]
    rw [htoken]
    refine .token hgap hc hfirst ?_
    rw [hfirst, List.append_assoc] at htakes
    exact htakes

/-- A stretch of more tokens falls into two. -/
theorem split (h : Takes before text after (tokens ++ more)) :
    ∃ first second, text = first ++ second ∧ Takes before first (second ++ after) tokens
      ∧ Takes (before ++ first) second after more := by
  induction tokens generalizing before text with
  | nil => exact ⟨[], text, rfl, .nil, by simpa using h⟩
  | cons t tokens ih =>
    cases h with
    | @token _ gap value text _ c kind _ hgap hc hcut htail =>
      obtain ⟨first, second, rfl, hfirst, hsecond⟩ := ih htail
      rw [List.append_assoc] at hcut
      refine ⟨gap ++ c :: value ++ first, second, by simp, .token hgap hc hcut hfirst, ?_⟩
      rw [← List.append_assoc]
      exact hsecond

/-- **Elsewhere the same tokens are found**, if the text behind starts in the same way. -/
theorem move (h : Takes before text after tokens) (hafter : StartsLike rest after)
    (before' : List Char) : ∃ tokens', tokens'.map Token.key = tokens.map Token.key
      ∧ Takes before' text rest tokens' := by
  induction h generalizing before' with
  | nil => exact ⟨[], rfl, .nil⟩
  | @token before gap value text after c kind tokens hgap hc hcut htail ih =>
    obtain ⟨tokens', hkeys, htakes⟩ := ih hafter (before' ++ (gap ++ c :: value))
    refine ⟨.ofKind kind (String.ofList (c :: value))
      ⟨offsetOf (before' ++ gap), offsetOf (before' ++ (gap ++ c :: value))⟩ :: tokens', ?_,
      .token hgap hc ?_ htakes⟩
    · rw [List.map_cons, List.map_cons, hkeys]
      rfl
    · have hok : (Cut.first c (value ++ (text ++ after))).outcome = .ok kind := by rw [hcut]
      have hbehind : (Cut.behind c (value ++ (text ++ after))).value = value := by
        have hvalue : c :: (Cut.behind c (value ++ (text ++ after))).value = c :: value :=
          congrArg Cut.value hcut
        exact (List.cons.inj hvalue).2
      have hstarts : StartsLike (text ++ rest) (Cut.first c (value ++ (text ++ after))).rest := by
        rw [hcut]
        exact hafter.append text
      have hagain := Cut.first_append hok hstarts
      rw [hbehind, hcut] at hagain
      exact hagain

/-- The lexer finds the tokens of a stretch, and goes on behind it. -/
theorem tokens_eq (h : Takes before text after tokens) (hl : l.At before (text ++ after)) :
    ∃ l' : Lexer, l'.At (before ++ text) after ∧ l.tokens = tokens ++ l'.tokens := by
  induction h generalizing l with
  | nil => exact ⟨l, by simpa using hl, rfl⟩
  | @token before gap value text after c kind tokens hgap hc hcut htail ih =>
    rw [List.append_assoc, List.append_assoc, List.cons_append] at hl
    obtain ⟨l₁, hnext, hcursor, hdone⟩ := hl.next_token hgap hc
    have hkind : kind ≠ .malformed := (Cut.divides_of_ok (by rw [hcut])).2
    rw [hcut] at hnext hcursor hdone
    have hat : l₁.At (before ++ (gap ++ c :: value)) (text ++ after) := by
      refine ⟨hdone.trans (by simpa [Cut.token, Token.ofKind] using hkind), ?_⟩
      simpa using hcursor
    obtain ⟨l', hl', htokens⟩ := ih hat
    refine ⟨l', by simpa using hl', ?_⟩
    rw [Lexer.tokens_of_next hnext, htokens]
    simp [Cut.token, textOf]

theorem tokenize_eq (h : Takes [] text [] tokens) : tokenize (String.ofList text) = tokens := by
  have hl : (ofSource (.ofString (String.ofList text))).At [] (text ++ []) := by
    simpa using Lexer.at_ofSource (String.ofList text)
  obtain ⟨l', hl', htokens⟩ := h.tokens_eq hl
  obtain ⟨l'', hnext⟩ := hl'.next_blank fun x hx => by cases hx
  rw [Lexer.tokens_of_next_none hnext, List.append_nil] at htokens
  exact htokens

/-! ## §2. From the first token to the last. -/

/-- The blanks before the first token do not belong to its span. -/
theorem trim (h : Takes before text after (t :: tokens)) :
    ∃ gap text', text = gap ++ text' ∧ Takes (before ++ gap) text' after (t :: tokens)
      ∧ t.span.start = offsetOf (before ++ gap) := by
  cases h with
  | @token _ gap value text _ c kind _ hgap hc hcut htail =>
    refine ⟨gap, c :: value ++ text, by simp, ?_, rfl⟩
    have htail' : Takes (before ++ gap ++ ([] ++ c :: value)) text after tokens := by
      rw [List.nil_append, List.append_assoc]
      exact htail
    have hblank : Blank [] := fun x hx => by cases hx
    simpa using Takes.token hblank hc hcut htail'

theorem stop_eq (h : Takes before text after tokens) {u : Token} (hu : tokens.getLast? = some u) :
    u.span.stop = offsetOf (before ++ text) := by
  induction h with
  | nil => cases hu
  | @token before gap value text after c kind tokens hgap hc hcut htail ih =>
    cases tokens with
    | nil =>
      cases hu
      cases htail
      simp [Token.ofKind]
    | cons t tokens =>
      rw [List.getLast?_cons_cons] at hu
      rw [ih hu]
      simp

end Takes

/-- **An excerpt has the tokens that stand in it.** -/
theorem tokenize_excerpt {s : String} (hs : s.utf8ByteSize < 2 ^ 32)
    (hproper : ∀ t ∈ tokenize s, t.kind ≠ .malformed) {pre mid post : List Token}
    (htokens : tokenize s = pre ++ (mid ++ post)) {t u : Token} (ht : mid.head? = some t)
    (hu : mid.getLast? = some u) :
    ∃ part : String, (⟨t.span.start, u.span.stop⟩ : Span).Marks s part
      ∧ (tokenize part).map Token.key = mid.map Token.key := by
  obtain ⟨taken, rest, htext, htakes⟩ := Takes.of_tiles (Tiles.tiles_tokenize s) hproper
  rw [htokens] at htakes
  obtain ⟨first, second, rfl, -, hsecond⟩ := htakes.split
  obtain ⟨third, last, rfl, hthird, -⟩ := hsecond.split
  obtain ⟨more, rfl⟩ := List.head?_eq_some_iff.mp ht
  obtain ⟨gap, part, rfl, hpart, hstart⟩ := hthird.trim
  obtain ⟨alone, hkeys, halone⟩ := hpart.move (StartsLike.nil _) []
  refine ⟨String.ofList part, Span.Cuts.marks hs ⟨[] ++ first ++ gap, last ++ rest, ?_, ?_⟩, ?_⟩
  · rw [htext]
    simp
  · rw [hstart, hpart.stop_eq hu]
  · rw [halone.tokenize_eq, hkeys]

end Prototalk
