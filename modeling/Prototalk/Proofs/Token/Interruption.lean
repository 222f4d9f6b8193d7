/-
  Prototalk.Proofs.Token.Interruption
  ────────────────────────────────
  **WHAT A READ ERROR DOES TO THE TOKENS BEFORE IT.**

  The tokens of a source that yields a text and then stops are compared with
  those of the text alone.  The two lexers stay together until the end of the
  text is met (`Lexer.overtaken_scan`).  There the error

      takes the place of a finished token, if the lexer has looked behind it,
      takes the place of a string that the text ends in,
      follows a blank, or a token that was not looked behind,
      is not reported behind a number that lacks its digits.

  `Source.tokens_failed` says so for all tokens of a source.
-/
import Prototalk.Proofs.Token.Cut
import Prototalk.Proofs.Token.Requests
import Prototalk.Proofs.Token.Stop

namespace Prototalk

/-! ## §1. One token. -/

/-- Faults of a literal that the text ends in and that an error of the source explains better. -/
def LexFault.isOpen : LexFault → Bool
  | .unterminatedString | .unterminatedTriQuote => true
  | _ => false

/-- The token gives way to an error right behind it. -/
def Token.givesWay (t : Token) : Bool := t.error.all (·.fault.isOpen)

namespace Lexer

/-- What becomes of a token when the text goes on with `answer`; `stands` is the cursor behind
it. -/
inductive Meets (answer : Read) (stands : Cursor) (t : Token) : Token → Prop where
  /-- The token stays as it is. -/
  | kept (h : t.error = none ∨ t.givesWay = false ∨ answer.fault? = none) : Meets answer stands t t
  /-- The error takes its place. -/
  | displaced {e : SourceError} (hfault : answer.fault? = some e) (hend : stands.AtEnd)
      (h : t.givesWay = true) : Meets answer stands t (.malformed t.value ⟨.read e, t.span⟩)

/-- Scanning a text gave `x`, and scanning the source that goes on with `answer` gave `y`. -/
structure Overtaken (answer : Read) (later : Source) (x y : Token × Cursor) : Prop where
  cursor : y.2 = x.2.followedBy answer later
  textual : x.2.Textual
  malformed : x.1.kind = .malformed ↔ x.1.error ≠ none
  token : Meets answer x.2 x.1 y.1

section

variable {cur cur' : Cursor} {answer : Read} {later : Source} {start : Nat} {taken : List Char}
  {kind : TokenKind} {fault : LexFault} {p : Char → Bool}
  {f g : List Char → Cursor → Token × Cursor}

/-- Which error is seen behind a token, by a lexer that has read `cur`. -/
theorem faultHere_eq_or (h : cur.Textual) (answer : Read) (later : Source) :
    (cur.followedBy answer later).faultHere = none
      ∨ ∃ e, (cur.followedBy answer later).faultHere = some e ∧ answer.fault? = some e
          ∧ cur.AtEnd := by
  rw [Cursor.faultHere_followedBy h]
  by_cases hend : (cur.ahead.isEmpty && cur.exhausted) = true
  · rw [if_pos hend]
    rw [Bool.and_eq_true, List.isEmpty_iff] at hend
    cases hfault : answer.fault? with
    | none => exact .inl rfl
    | some e => exact .inr ⟨e, rfl, rfl, hend.1, hend.2⟩
  · exact .inl (if_neg hend)

theorem overtaken_finish (h : cur.Textual) (hkind : kind ≠ .malformed) :
    Overtaken answer later (finish kind taken start cur, cur)
      (finish kind taken start (cur.followedBy answer later), cur.followedBy answer later) := by
  have htext : finish kind taken start cur = .ofKind kind (textOf taken) (spanFrom start cur) := by
    rw [finish, h.faultHere]
  rw [htext]
  refine ⟨rfl, h, by simp [Token.ofKind, hkind], ?_⟩
  unfold finish spanFrom
  rw [Cursor.offset_followedBy]
  obtain hnone | ⟨e, hsome, hfault, hend⟩ := faultHere_eq_or h answer later
  · rw [hnone]
    exact .kept (.inl rfl)
  · rw [hsome]
    have hspan : spanFrom start (cur.followedBy answer later) = ⟨start, cur.offset⟩ := by
      rw [spanFrom, Cursor.offset_followedBy]
    unfold fail
    rw [hspan]
    exact .displaced hfault hend rfl

/-- A literal that misses something keeps its fault. -/
theorem overtaken_fail (h : cur.Textual) (hfault : fault.isOpen = false) :
    Overtaken answer later (fail fault taken start cur, cur)
      (fail fault taken start (cur.followedBy answer later), cur.followedBy answer later) := by
  refine ⟨rfl, h, by simp [fail, Token.malformed], ?_⟩
  have hsame :
      fail fault taken start (cur.followedBy answer later) = fail fault taken start cur := by
    unfold fail spanFrom
    rw [Cursor.offset_followedBy]
  rw [hsame]
  exact .kept (.inr (.inl hfault))

/-- A string that the text ends in gives way to the error. -/
theorem overtaken_unterminated (h : cur.Textual) (hend : cur.AtEnd) (hopen : fault.isOpen = true) :
    Overtaken answer later (unterminated fault taken start cur, cur)
      (unterminated fault taken start (cur.followedBy answer later),
        cur.followedBy answer later) := by
  have htext : unterminated fault taken start cur = fail fault taken start cur := by
    rw [unterminated, h.faultHere]
  have hspan : spanFrom start (cur.followedBy answer later) = spanFrom start cur := by
    rw [spanFrom, Cursor.offset_followedBy]
    rfl
  rw [htext]
  refine ⟨rfl, h, by simp [fail, Token.malformed], ?_⟩
  have hhere : (cur.followedBy answer later).faultHere = answer.fault? := by
    rw [Cursor.faultHere_followedBy h, hend.ahead, hend.exhausted]
    rfl
  unfold unterminated fail
  rw [hhere, hspan]
  cases hfault : answer.fault? with
  | none => exact .kept (.inr (.inr hfault))
  | some e => exact .displaced hfault hend hopen

/-! ### Runs and choices -/

theorem overtaken_run (hanswer : answer.isStop = true)
    (hf : ∀ {taken cur}, cur.Textual →
      Overtaken answer later (f taken cur) (f taken (cur.followedBy answer later)))
    (h : cur.Textual) :
    Overtaken answer later (f (cur.eatWhile p taken).1 (cur.eatWhile p taken).2)
      (f ((cur.followedBy answer later).eatWhile p taken).1
        ((cur.followedBy answer later).eatWhile p taken).2) := by
  obtain ⟨heat, htextual⟩ := Cursor.eatWhile_followedBy h hanswer later p taken
  rw [heat]
  exact hf htextual

theorem overtaken_scanDigits (hanswer : answer.isStop = true) (hfault : fault.isOpen = false)
    (hkind : kind ≠ .malformed) {taken : List Char} {cur : Cursor} (h : cur.Textual) :
    Overtaken answer later (scanDigits p fault kind start taken cur)
      (scanDigits p fault kind start taken (cur.followedBy answer later)) := by
  refine overtaken_run (f := fun all cur => if all.length == taken.length then
    (fail fault all start cur, cur) else (finish kind all start cur, cur)) hanswer ?_ h
  intro all cur h
  split
  · exact overtaken_fail h hfault
  · exact overtaken_finish h hkind

/-- Both lexers look at the same character. -/
theorem current_followedBy (h : cur.Textual) (hanswer : answer.isStop = true) (later : Source) :
    ∃ x cur', cur.current = (x, cur')
      ∧ (cur.followedBy answer later).current = (x, cur'.followedBy answer later)
      ∧ cur'.Textual := by
  obtain ⟨hpeek, htextual⟩ := Cursor.peek_followedBy h hanswer later 0
  exact ⟨_, _, rfl, hpeek, htextual⟩

theorem overtaken_scanIfNext (hanswer : answer.isStop = true)
    (hf : ∀ {taken cur}, cur.Textual →
      Overtaken answer later (f taken cur) (f taken (cur.followedBy answer later)))
    (hg : ∀ {taken cur}, cur.Textual →
      Overtaken answer later (g taken cur) (g taken (cur.followedBy answer later)))
    {taken : List Char} {cur : Cursor} (h : cur.Textual) :
    Overtaken answer later (scanIfNext p f g taken cur)
      (scanIfNext p f g taken (cur.followedBy answer later)) := by
  obtain ⟨x, cur', hcurrent, hfollowed, htextual⟩ := current_followedBy h hanswer later
  unfold scanIfNext
  rw [hcurrent, hfollowed]
  cases x with
  | none => exact hg htextual
  | some x =>
    dsimp only
    split
    · rw [Cursor.advance_followedBy]
      exact hf htextual.advance
    · exact hg htextual

/-! ### Words and numbers -/

theorem overtaken_scanRun (hanswer : answer.isStop = true) (h : cur.Textual) :
    Overtaken answer later (scanRun p cur) (scanRun p (cur.followedBy answer later)) := by
  unfold scanRun
  rw [Cursor.offset_followedBy]
  exact overtaken_run (f := fun taken cur => (finish .identifier taken _ cur, cur)) hanswer
    (fun h => overtaken_finish h (by decide)) h

theorem overtaken_scanHex (hanswer : answer.isStop = true) (h : cur.Textual) :
    Overtaken answer later (scanHex start taken cur)
      (scanHex start taken (cur.followedBy answer later)) :=
  overtaken_scanDigits hanswer rfl (by decide) h

theorem overtaken_scanExponent (hanswer : answer.isStop = true) {taken : List Char}
    {cur : Cursor} (h : cur.Textual) :
    Overtaken answer later (scanExponent start taken cur)
      (scanExponent start taken (cur.followedBy answer later)) := by
  have hdigits {taken : List Char} {cur : Cursor} (h : cur.Textual) :
      Overtaken answer later (scanExponentDigits start taken cur)
        (scanExponentDigits start taken (cur.followedBy answer later)) :=
    overtaken_scanDigits hanswer rfl (by decide) h
  have hsign {taken : List Char} {cur : Cursor} (h : cur.Textual) :
      Overtaken answer later (scanExponentSign start taken cur)
        (scanExponentSign start taken (cur.followedBy answer later)) :=
    overtaken_scanIfNext (f := scanExponentDigits start) (g := scanExponentDigits start) hanswer
      hdigits hdigits h
  exact overtaken_scanIfNext (f := scanExponentSign start)
    (g := fun taken cur => (finish .number taken start cur, cur)) hanswer hsign
    (fun h => overtaken_finish h (by decide)) h

theorem overtaken_scanFraction (hanswer : answer.isStop = true) {taken : List Char}
    {cur : Cursor} (h : cur.Textual) :
    Overtaken answer later (scanFraction start taken cur)
      (scanFraction start taken (cur.followedBy answer later)) := by
  obtain ⟨x, cur', hcurrent, hfollowed, htextual⟩ := current_followedBy h hanswer later
  unfold scanFraction
  rw [hcurrent, hfollowed]
  cases x with
  | none => exact overtaken_fail htextual rfl
  | some d =>
    dsimp only
    split
    · exact overtaken_run (f := scanExponent start) hanswer (overtaken_scanExponent hanswer)
        htextual
    · exact overtaken_fail htextual rfl

theorem overtaken_scanMarker (hanswer : answer.isStop = true) {taken : List Char}
    {cur : Cursor} (h : cur.Textual) :
    Overtaken answer later (scanMarker start taken cur)
      (scanMarker start taken (cur.followedBy answer later)) := by
  obtain ⟨x, cur', hcurrent, hfollowed, htextual⟩ := current_followedBy h hanswer later
  unfold scanMarker
  rw [hcurrent, hfollowed]
  cases x with
  | none => exact overtaken_scanExponent hanswer htextual
  | some m =>
    dsimp only
    rw [Cursor.advance_followedBy]
    split
    · split
      · exact overtaken_scanHex hanswer htextual.advance
      · exact overtaken_fail htextual.advance rfl
    · split
      · exact overtaken_scanFraction hanswer htextual.advance
      · exact overtaken_scanExponent hanswer htextual

theorem overtaken_scanNumber (hanswer : answer.isStop = true) (h : cur.Textual) :
    Overtaken answer later (scanNumber cur) (scanNumber (cur.followedBy answer later)) := by
  unfold scanNumber
  rw [Cursor.offset_followedBy]
  exact overtaken_run (f := scanMarker cur.offset) hanswer (overtaken_scanMarker hanswer) h

/-! ### Strings -/

theorem atEnd_of_bump (h : cur.bump = (none, cur')) : cur'.AtEnd := by
  unfold Cursor.bump at h
  split at h
  · cases h
  · rename_i hcurrent
    cases h
    exact Cursor.atEnd_of_current hcurrent

theorem overtaken_scanString (hanswer : answer.isStop = true) (h : cur.Textual) :
    Overtaken answer later (scanString start taken cur)
      (scanString start taken (cur.followedBy answer later)) := by
  fun_induction scanString start taken cur with
  | case1 taken cur cur₁ hbump =>
    obtain ⟨hfollowed, htextual⟩ := Cursor.bump_followedBy h hanswer later
    rw [hbump] at hfollowed htextual
    rw [scanString_of_none hfollowed]
    exact overtaken_unterminated htextual (atEnd_of_bump hbump) rfl
  | case2 taken cur c cur₁ hbump hc =>
    obtain ⟨hfollowed, htextual⟩ := Cursor.bump_followedBy h hanswer later
    rw [hbump] at hfollowed htextual
    rw [scanString_of_some hfollowed, if_pos hc]
    exact overtaken_finish htextual (by decide)
  | case3 taken cur c cur₁ hbump hc hslash cur₂ hbump₂ =>
    obtain ⟨hfollowed, htextual⟩ := Cursor.bump_followedBy h hanswer later
    rw [hbump] at hfollowed htextual
    obtain ⟨hfollowed₂, htextual₂⟩ := Cursor.bump_followedBy htextual hanswer later
    rw [hbump₂] at hfollowed₂ htextual₂
    rw [scanString_of_some hfollowed, if_neg hc, if_pos hslash, hfollowed₂]
    exact overtaken_unterminated htextual₂ (atEnd_of_bump hbump₂) rfl
  | case4 taken cur c cur₁ hbump hc hslash e cur₂ hbump₂ ih =>
    obtain ⟨hfollowed, htextual⟩ := Cursor.bump_followedBy h hanswer later
    rw [hbump] at hfollowed htextual
    obtain ⟨hfollowed₂, htextual₂⟩ := Cursor.bump_followedBy htextual hanswer later
    rw [hbump₂] at hfollowed₂ htextual₂
    rw [scanString_of_some hfollowed, if_neg hc, if_pos hslash, hfollowed₂]
    exact ih htextual₂
  | case5 taken cur c cur₁ hbump hc hslash ih =>
    obtain ⟨hfollowed, htextual⟩ := Cursor.bump_followedBy h hanswer later
    rw [hbump] at hfollowed htextual
    rw [scanString_of_some hfollowed, if_neg hc, if_neg hslash]
    exact ih htextual

theorem overtaken_scanTriQuote (hanswer : answer.isStop = true) (h : cur.Textual) :
    Overtaken answer later (scanTriQuote start taken cur)
      (scanTriQuote start taken (cur.followedBy answer later)) := by
  fun_induction scanTriQuote start taken cur with
  | case1 taken cur cur₁ hlook cur₂ =>
    obtain ⟨hfollowed, htextual⟩ := Cursor.matchesFrom_followedBy h hanswer later 0 ['"', '"', '"']
    unfold Cursor.lookingAt at hlook
    rw [hlook] at hfollowed htextual
    obtain ⟨hadvance, htextual₂⟩ := Cursor.advanceBy_followedBy htextual answer later 3
    rw [scanTriQuote_of_true hfollowed, hadvance]
    exact overtaken_finish htextual₂ (by decide)
  | case2 taken cur cur₁ hlook cur₂ hbump =>
    obtain ⟨hfollowed, htextual⟩ := Cursor.matchesFrom_followedBy h hanswer later 0 ['"', '"', '"']
    unfold Cursor.lookingAt at hlook
    rw [hlook] at hfollowed htextual
    obtain ⟨hfollowed₂, htextual₂⟩ := Cursor.bump_followedBy htextual hanswer later
    rw [hbump] at hfollowed₂ htextual₂
    rw [scanTriQuote_of_false hfollowed, hfollowed₂]
    exact overtaken_unterminated htextual₂ (atEnd_of_bump hbump) rfl
  | case3 taken cur cur₁ hlook c cur₂ hbump ih =>
    obtain ⟨hfollowed, htextual⟩ := Cursor.matchesFrom_followedBy h hanswer later 0 ['"', '"', '"']
    unfold Cursor.lookingAt at hlook
    rw [hlook] at hfollowed htextual
    obtain ⟨hfollowed₂, htextual₂⟩ := Cursor.bump_followedBy htextual hanswer later
    rw [hbump] at hfollowed₂ htextual₂
    rw [scanTriQuote_of_false hfollowed, hfollowed₂]
    exact ih htextual₂

theorem overtaken_scanQuote (hanswer : answer.isStop = true) (h : cur.Textual) :
    Overtaken answer later (scanQuote cur) (scanQuote (cur.followedBy answer later)) := by
  obtain ⟨hfollowed, htextual⟩ := Cursor.matchesFrom_followedBy h hanswer later 0 ['"', '"', '"']
  unfold scanQuote Cursor.lookingAt
  rw [hfollowed, Cursor.offset_followedBy]
  cases hlook : Cursor.matchesFrom 0 ['"', '"', '"'] cur with
  | mk found cur' =>
    rw [hlook] at htextual
    cases found with
    | false =>
      dsimp only
      rw [Cursor.advance_followedBy]
      exact overtaken_scanString hanswer htextual.advance
    | true =>
      obtain ⟨hadvance, htextual₂⟩ := Cursor.advanceBy_followedBy htextual answer later 3
      dsimp only
      rw [hadvance]
      exact overtaken_scanTriQuote hanswer htextual₂

theorem overtaken_scanPoint (hanswer : answer.isStop = true) (h : cur.Textual) :
    Overtaken answer later (scanPoint cur) (scanPoint (cur.followedBy answer later)) := by
  obtain ⟨hfollowed, htextual⟩ := Cursor.peek_followedBy h hanswer later 1
  unfold scanPoint
  rw [hfollowed]
  cases hpeek : cur.peek 1 with
  | mk x cur' =>
    rw [hpeek] at htextual
    cases x with
    | none => exact overtaken_scanRun hanswer htextual
    | some d =>
      dsimp only
      split
      · exact overtaken_scanNumber hanswer htextual
      · exact overtaken_scanRun hanswer htextual

/-- **One token, met by the error.** -/
theorem overtaken_scan (hanswer : answer.isStop = true) (h : cur.Textual) (c : Char) :
    Overtaken answer later (scan c cur) (scan c (cur.followedBy answer later)) := by
  unfold scan
  rw [Cursor.advance_followedBy, Cursor.offset_followedBy]
  cases hsingle : single? c with
  | some kind =>
    -- nothing was looked at behind the character, so the error is not seen yet
    have hkind : kind ≠ .malformed := Cut.single?_ne_malformed hsingle
    refine ⟨rfl, h.advance, by simp [Token.ofKind, hkind], ?_⟩
    unfold spanFrom
    rw [Cursor.offset_followedBy]
    exact .kept (.inl rfl)
  | none =>
    dsimp only
    split
    · exact overtaken_scanNumber hanswer h
    split
    · exact overtaken_scanPoint hanswer h
    split
    · exact overtaken_scanQuote hanswer h
    split
    · exact overtaken_scanRun hanswer h
    split
    · exact overtaken_scanRun hanswer h
    · exact overtaken_fail h.advance rfl

end

end Lexer

/-! ## §2. All tokens. -/

/-- The tokens of a text, and those of a source that yields the text and stops with `answer`. -/
inductive Interrupted (answer : Read) : List Token → List Token → Prop where
  /-- There is nothing but the end behind the text. -/
  | ended {tokens : List Token} (hfault : answer.fault? = none) : Interrupted answer tokens tokens
  /-- A malformed token keeps the lexer from meeting the error. -/
  | shielded {tokens : List Token} {t : Token} (ht : t ∈ tokens) (hway : t.givesWay = false) :
      Interrupted answer tokens tokens
  /-- The error follows the tokens. -/
  | added {tokens : List Token} {e : SourceError} (hfault : answer.fault? = some e) (place : Nat)
      (hproper : ∀ t ∈ tokens, t.error = none) :
      Interrupted answer tokens (tokens ++ [.malformed "" ⟨.read e, .point place⟩])
  /-- The error takes the place of the last token. -/
  | displaced {tokens : List Token} {t : Token} {e : SourceError} (hfault : answer.fault? = some e)
      (hproper : ∀ t ∈ tokens, t.error = none) (hway : t.givesWay = true) :
      Interrupted answer (tokens ++ [t]) (tokens ++ [.malformed t.value ⟨.read e, t.span⟩])

theorem Interrupted.cons {answer : Read} {tokens failing : List Token} {t : Token}
    (ht : t.error = none) (h : Interrupted answer tokens failing) :
    Interrupted answer (t :: tokens) (t :: failing) := by
  cases h with
  | ended hfault => exact .ended hfault
  | shielded hmem hway => exact .shielded (List.mem_cons_of_mem _ hmem) hway
  | added hfault place hproper =>
    exact .added hfault place (by simpa [ht] using hproper)
  | @displaced tokens u e hfault hproper hway =>
    show Interrupted answer ((t :: tokens) ++ [u]) ((t :: tokens) ++ [_])
    exact .displaced hfault (by simpa [ht] using hproper) hway

/-- A token that is not malformed is one of the text. -/
theorem Interrupted.mem_of_proper {answer : Read} {tokens failing : List Token} {t : Token}
    (h : Interrupted answer tokens failing) (ht : t ∈ failing) (hproper : t.kind ≠ .malformed) :
    t ∈ tokens := by
  cases h with
  | ended _ => exact ht
  | shielded _ _ => exact ht
  | added hfault place _ =>
    rw [List.mem_append, List.mem_singleton] at ht
    obtain ht | rfl := ht
    · exact ht
    · exact absurd rfl hproper
  | displaced hfault _ _ =>
    rw [List.mem_append, List.mem_singleton] at ht
    obtain ht | rfl := ht
    · exact List.mem_append_left _ ht
    · exact absurd rfl hproper

namespace Lexer

variable {l l' : Lexer} {answer : Read} {t : Token}

/-- The lexer of a text that goes on with `answer` and `later`. -/
def followedBy (l : Lexer) (answer : Read) (later : Source) : Lexer :=
  ⟨l.cursor.followedBy answer later, l.done⟩

/-- What `next` finds behind the blanks. -/
theorem next_followedBy (h : l.cursor.Textual) (hdone : l.done = false)
    (hanswer : answer.isStop = true) (later : Source) :
    (∃ cur, cur.AtEnd ∧ cur.Textual ∧ l.next = (none, ⟨cur, true⟩)
      ∧ (l.followedBy answer later).next
        = match answer.fault? with
          | some e => (some (.malformed "" ⟨.read e, .point cur.offset⟩),
              ⟨cur.followedBy answer later, true⟩)
          | none => (none, ⟨cur.followedBy answer later, true⟩))
    ∨ ∃ x y, Overtaken answer later x y ∧ l.next = (some x.1, ⟨x.2, x.1.kind == .malformed⟩)
      ∧ (l.followedBy answer later).next = (some y.1, ⟨y.2, y.1.kind == .malformed⟩) := by
  obtain ⟨heat, htextual⟩ := Cursor.eatWhile_followedBy h hanswer later isSpace []
  obtain ⟨x, cur, hcurrent, hfollowed, htextual₂⟩ := current_followedBy htextual hanswer later
  have hnot : (l.followedBy answer later).done = false := hdone
  unfold next
  rw [hdone, hnot, if_neg Bool.false_ne_true, if_neg Bool.false_ne_true]
  unfold followedBy
  dsimp only
  rw [heat, hcurrent, hfollowed]
  cases x with
  | none =>
    have hend : cur.AtEnd := Cursor.atEnd_of_current hcurrent
    refine .inl ⟨cur, hend, htextual₂, ?_, ?_⟩
    · dsimp only
      rw [htextual₂.faultHere]
    · dsimp only
      rw [Cursor.faultHere_followedBy htextual₂, hend.ahead, hend.exhausted,
        Cursor.offset_followedBy]
      rfl
  | some c => exact .inr ⟨scan c cur, _, overtaken_scan hanswer htextual₂ c, rfl, rfl⟩

/-- Behind the end of a text there is no token. -/
theorem tokens_of_atEnd (h : l.cursor.Textual) (hend : l.cursor.AtEnd) : l.tokens = [] := by
  have hcurrent : l.cursor.current = (none, l.cursor) := hend.current
  have heat : l.cursor.eatWhile isSpace [] = ([], l.cursor) := by
    rw [Cursor.eatWhile]
    split <;> rename_i heq <;> rw [hcurrent] at heq <;> cases heq
    rfl
  by_cases hdone : l.done = true
  · exact tokens_of_next_none (next_of_done hdone)
  · have hnext : l.next = (none, ⟨l.cursor, true⟩) := by
      rw [next, if_neg hdone, heat]
      dsimp only
      rw [hcurrent]
      dsimp only
      rw [h.faultHere]
    exact tokens_of_next_none hnext

theorem tokens_of_done (h : l.done = true) : l.tokens = [] := tokens_of_next_none (next_of_done h)

/-- **All tokens, met by the error.** -/
theorem interrupted_tokens (h : l.cursor.Textual) (hdone : l.done = false)
    (hanswer : answer.isStop = true) (later : Source) :
    Interrupted answer l.tokens (l.followedBy answer later).tokens := by
  induction l using requestInduction with
  | stop l l' hnext =>
    obtain ⟨cur, hend, -, -, hfollowed⟩ | ⟨x, y, -, htoken, -⟩ :=
      next_followedBy h hdone hanswer later
    · rw [tokens_of_next_none hnext]
      cases hfault : answer.fault? with
      | none =>
        rw [hfault] at hfollowed
        rw [tokens_of_next_none hfollowed]
        exact .ended hfault
      | some e =>
        rw [hfault] at hfollowed
        rw [tokens_of_next hfollowed, tokens_of_done rfl]
        show Interrupted answer [] ([] ++ [_])
        exact .added hfault cur.offset (by simp)
    · rw [hnext] at htoken
      cases htoken
  | token l t l' hnext ih =>
    obtain ⟨cur, -, -, hnone, -⟩ | ⟨⟨u, cur⟩, ⟨u', cur'⟩, hover, htoken, hfollowed⟩ :=
      next_followedBy h hdone hanswer later
    · rw [hnext] at hnone
      cases hnone
    obtain ⟨hcursor, htextual, hmalformed, hmeets⟩ := hover
    dsimp only at hcursor htextual hmalformed hmeets hfollowed
    obtain ⟨rfl, rfl⟩ : t = u ∧ l' = ⟨cur, u.kind == .malformed⟩ := by
      simpa using hnext.symm.trans htoken
    rw [tokens_of_next hnext, tokens_of_next hfollowed]
    by_cases hproper : t.error = none
    · have hgoing : (t.kind == .malformed) = false := by
        simpa using mt hmalformed.mp (not_not.mpr hproper)
      cases hmeets with
      | kept _ =>
        rw [hgoing, hcursor]
        rw [hgoing] at ih
        exact (ih htextual rfl).cons hproper
      | displaced hfault hend hway =>
        rw [tokens_of_atEnd htextual hend, tokens_of_done rfl]
        show Interrupted answer ([] ++ [t]) ([] ++ [_])
        exact .displaced hfault (by simp) hway
    · -- the lexer of the text stops behind a malformed token
      have hstopped : (t.kind == .malformed) = true := by
        simpa using hmalformed.mpr hproper
      rw [hstopped, tokens_of_done rfl]
      cases hmeets with
      | kept hkept =>
        rw [hstopped, tokens_of_done rfl]
        obtain hnone | hway | hfault := hkept
        · exact absurd hnone hproper
        · exact .shielded (List.mem_singleton_self _) hway
        · exact .ended hfault
      | displaced hfault hend hway =>
        rw [tokens_of_done rfl]
        show Interrupted answer ([] ++ [t]) ([] ++ [_])
        exact .displaced hfault (by simp) hway

end Lexer

/-! ## §3. Sources. -/

namespace Source

/-- A source that yields a text and then stops. -/
theorem interrupted_tokens (text : List Char) {answer : Read} (hanswer : answer.isStop = true)
    (later : Source) :
    Interrupted answer (Source.ofChars text).tokens
      (Source.ofChars text ++ answer :: later).tokens :=
  Lexer.interrupted_tokens (l := .ofSource (.ofChars text)) (Cursor.textual_ofSource text) rfl
    hanswer later

end Source

/-- The token says that the source failed with `e`. -/
def Token.Reports (t : Token) (e : SourceError) : Prop :=
  t.kind = .malformed ∧ t.error.map (·.fault) = some (.read e)

theorem Token.reports_malformed (value : String) (e : SourceError) (span : Span) :
    (Token.malformed value ⟨.read e, span⟩).Reports e :=
  ⟨rfl, rfl⟩

namespace Source

/-- **An error behind a text.**  If every token of the text gives way, the error is reported, behind
the tokens or in the place of the last one.  If one does not, the error is not reported. -/
theorem tokens_failed (text : List Char) (e : SourceError) (later : Source) :
    let whole := (Source.ofChars text).tokens
    let failing := (Source.ofChars text ++ .failed e :: later).tokens
    ((∀ t ∈ whole, t.givesWay = true) → ∃ kept t, failing = kept ++ [t] ∧ t.Reports e
      ∧ (kept = whole ∨ kept = whole.dropLast))
    ∧ ((∃ t ∈ whole, t.givesWay = false) → failing = whole) := by
  have hproper (t : Token) (h : t.error = none) : t.givesWay = true := by
    rw [Token.givesWay, h]
    rfl
  have hstop : (Read.failed e).isStop = true := rfl
  have h := interrupted_tokens text hstop later
  intro whole failing
  change Interrupted (.failed e) whole failing at h
  generalize whole = tokens, failing = overtaken at h
  cases h with
  | ended hfault => cases hfault
  | shielded ht hway =>
    refine ⟨fun hall => ?_, fun _ => rfl⟩
    rw [hall _ ht] at hway
    cases hway
  | added hfault place hnone =>
    cases hfault
    refine ⟨fun _ => ⟨tokens, _, rfl, Token.reports_malformed .., .inl rfl⟩, ?_⟩
    rintro ⟨t, ht, hway⟩
    rw [hproper t (hnone t ht)] at hway
    cases hway
  | @displaced tokens t _ hfault hnone hlast =>
    cases hfault
    refine ⟨fun _ => ⟨tokens, _, rfl, Token.reports_malformed .., .inr (by simp)⟩, ?_⟩
    rintro ⟨u, hu, hway⟩
    rw [List.mem_append, List.mem_singleton] at hu
    obtain hu | rfl := hu
    · rw [hproper u (hnone u hu)] at hway
      cases hway
    · rw [hlast] at hway
      cases hway

/-- The faults of a literal that the text ends in. -/
def endings : List LexFault :=
  [.unterminatedString, .unterminatedTriQuote, .missingFraction, .emptyExponent, .emptyHex]

/-- A number without the digits behind its point hides the error. -/
theorem not_forall_tokens_failed_reports :
    ¬ ∀ (text : List Char) (e : SourceError),
      (∀ t ∈ (Source.ofChars text).tokens, ∀ fault ∈ t.error,
        fault.fault ∈ endings ∧ fault.span.stop = offsetOf text) →
      ∃ t ∈ (Source.ofChars text ++ [Read.failed e]).tokens, t.Reports e := by
  intro hall
  obtain ⟨t, ht, -, hread⟩ := hall ['1', '.'] (.io "disk on fire") (by decide +kernel)
  have htokens : (Source.ofChars ['1', '.'] ++ [Read.failed (.io "disk on fire")]).tokens
      = [.malformed "1." ⟨.missingFraction, ⟨0, 2⟩⟩] := by decide +kernel
  rw [htokens, List.mem_singleton] at ht
  rw [ht] at hread
  cases hread

end Source

end Prototalk
