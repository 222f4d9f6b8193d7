/-
  Prototalk.Proofs.Message.Extent
  ────────────────────────────────
  **A PARSE LOOKS AT NOTHING BEHIND ITS FIRST ERROR.**

  A parse takes tokens until one of them is wrong.  What it has taken by then
  decides everything about it, the table of names included:

    • a parser that has taken tokens goes on from where they led it, whatever
      comes behind them (`Reaches.run`), and an error ends it (`run_of_wrong`);
    • either all tokens are taken, or there is a first wrong one
      (`reaches_or_wrong`);
    • the table has grown by the texts of the identifiers up to there, each
      new text once, at the end (`Interner.toList_internAll`).

  Main statement: `parseTokens_extent`.
-/
import Prototalk.Proofs.Message.Decoding
import Prototalk.Proofs.Message.Rereading

namespace Prototalk

/-! ## §1. What naming texts adds to a table. -/

namespace Interner

variable {t : Interner} {s : String}

/-- What naming `texts` adds to the table: those it does not list yet, each once, in the order in
which they come first. -/
def added (t : Interner) (texts : List String) : List String :=
  (texts.filter (· ∉ t.texts.toList)).eraseDups

/-- Only a text that the list has not got is added to it. -/
theorem texts_intern (t : Interner) (s : String) :
    (t.intern s).2.texts.toList
      = if s ∈ t.texts.toList then t.texts.toList else t.texts.toList ++ [s] := by
  obtain ⟨n, hn, hsame⟩ | ⟨hnone, -, hpush⟩ := t.intern_cases s
  · have hmem : s ∈ t.texts := Array.mem_of_getElem? (lookup?_of_get? hn)
    rw [hsame, if_pos hmem.val]
  · have hfresh := t.inStep.get? hnone
    rw [hpush, if_neg (fun hmem => hfresh ⟨hmem⟩)]
    exact Array.toList_push

/-- **The table after several texts are named**: the new ones stand at its end. -/
theorem toList_internAll (t : Interner) (texts : List String) :
    (t.internAll texts).texts.toList = t.texts.toList ++ t.added texts := by
  induction texts generalizing t with
  | nil => simp [internAll, added]
  | cons s texts ih =>
    show ((t.intern s).2.internAll texts).texts.toList = _
    rw [ih, added, added, texts_intern]
    by_cases hs : s ∈ t.texts.toList
    · rw [if_pos hs, List.filter_cons_of_neg (by simpa using hs)]
    · -- a text that was just added is not added again
      have hagain : texts.filter (· ∉ t.texts.toList ++ [s])
          = (texts.filter (· ∉ t.texts.toList)).filter fun u => !u == s := by
        rw [List.filter_filter]
        congr 1
        funext u
        by_cases hu : u = s <;> simp [hu]
      rw [if_neg hs, hagain, List.filter_cons_of_pos (by simpa using hs), List.eraseDups_cons,
        List.append_assoc, List.singleton_append]

end Interner

/-! ## §2. Taking tokens. -/

namespace Parser

/-- Taking the tokens, first to last, leads from the one parser to the other. -/
inductive Reaches : Parser → List Token → Parser → Prop where
  | nil (p : Parser) : Reaches p [] p
  | cons {p q r : Parser} {t : Token} {tokens : List Token} (hstep : p.step t = .ok q)
      (hrest : Reaches q tokens r) : Reaches p (t :: tokens) r

variable {p q r : Parser} {t : Token} {tokens before after : List Token} {e : ParseError}

/-- **Tokens that were taken are not looked at again.** -/
theorem Reaches.run (h : Reaches p tokens q) (after : List Token) :
    p.run (tokens ++ after) = q.run after := by
  induction h with
  | nil p => rfl
  | cons hstep _ ih =>
    rw [List.cons_append, Parser.run, hstep]
    exact ih

theorem Reaches.names_eq (h : Reaches p tokens q) :
    q.names = p.names.internAll (identifierTexts tokens) := by
  induction h with
  | nil p => rfl
  | cons hstep _ ih =>
    rw [ih, (step_eq_ok_iff.mp hstep).names_eq, ← Interner.internAll_append,
      ← identifierTexts_cons]

theorem Reaches.of_append (h : Reaches p (before ++ after) r) : ∃ q, Reaches p before q := by
  induction before generalizing p with
  | nil => exact ⟨p, .nil p⟩
  | cons t before ih =>
    cases h with
    | cons hstep hrest => exact (ih hrest).imp fun q hq => .cons hstep hq

/-- Every token is taken, or there is a first one that is wrong. -/
theorem reaches_or_wrong (p : Parser) (tokens : List Token) :
    (∃ q, Reaches p tokens q) ∨ ∃ before t after q e,
      tokens = before ++ t :: after ∧ Reaches p before q ∧ q.step t = .error e := by
  induction tokens generalizing p with
  | nil => exact .inl ⟨p, .nil p⟩
  | cons t tokens ih =>
    cases hstep : p.step t with
    | error e => exact .inr ⟨[], t, tokens, p, e, rfl, .nil p, hstep⟩
    | ok q =>
      rcases ih q with ⟨r, hr⟩ | ⟨before, u, after, r, e, rfl, hr, hwrong⟩
      · exact .inl ⟨r, .cons hstep hr⟩
      · exact .inr ⟨t :: before, u, after, r, e, rfl, .cons hstep hr, hwrong⟩

/-- A wrong token gives no name. -/
theorem identifierTexts_of_wrong (h : p.step t = .error e) : identifierTexts [t] = [] := by
  have hnot : t.kind ≠ .identifier := by
    intro hkind
    simp [step, hkind] at h
  simp [identifierTexts, hnot]

/-- **The first wrong token ends the parse**, and the tokens behind it are left over. -/
theorem run_of_wrong (h : Reaches p before q) (hwrong : q.step t = .error e)
    (after : List Token) : p.run (before ++ t :: after)
      = ⟨.error e, p.names.internAll (identifierTexts (before ++ [t])), after⟩ := by
  have htexts : identifierTexts (before ++ [t]) = identifierTexts before := by
    have hlast := identifierTexts_of_wrong hwrong
    simp only [identifierTexts, List.filter_append, List.map_append] at hlast ⊢
    rw [hlast, List.append_nil]
  rw [h.run, Parser.run, hwrong, htexts, h.names_eq]

end Parser

/-! ## §3. Whose error it is. -/

/-- The parse ended at a wrong token.  The one error that no token is to blame for is an open
bracket at the end of the input. -/
def Parsed.Stopped (parsed : Parsed) : Prop :=
  ∃ e, parsed.result = .error e ∧ ∀ expected, e.fault ≠ .unclosedBracket expected

namespace Parser

variable {p q : Parser} {t : Token} {tokens before : List Token} {e : ParseError}

/-- A decoder does not speak of brackets. -/
theorem literal_ne_unclosed (expected : Char) (text : String) :
    Literal.number text ≠ .error (.unclosedBracket expected)
      ∧ Literal.hexNumber text ≠ .error (.unclosedBracket expected)
      ∧ Literal.string text ≠ .error (.unclosedBracket expected)
      ∧ Literal.triQuote text ≠ .error (.unclosedBracket expected) := by
  refine ⟨?_, ?_, ?_, ?_⟩
  · unfold Literal.number
    split <;> simp
  · unfold Literal.hexNumber
    split <;> simp
  · unfold Literal.string
    split
    · simp
    · split <;> simp
  · unfold Literal.triQuote
    split <;> simp

theorem fault_of_step (h : p.step t = .error e) (expected : Char) :
    e.fault ≠ .unclosedBracket expected := by
  intro hfault
  obtain ⟨hnumber, hhex, hstring, htri⟩ := literal_ne_unclosed expected t.value
  unfold step at h
  cases hkind : t.kind with
  | malformed =>
    rw [hkind] at h
    cases h
    cases hfault
  | separator =>
    rw [hkind] at h
    dsimp only at h
    split at h <;> cases h
  | identifier =>
    rw [hkind] at h
    cases h
  | number =>
    rw [hkind] at h
    exact hnumber (hfault ▸ literal_eq_error h)
  | hexNumber =>
    rw [hkind] at h
    exact hhex (hfault ▸ literal_eq_error h)
  | string =>
    rw [hkind] at h
    exact hstring (hfault ▸ literal_eq_error h)
  | triQuote =>
    rw [hkind] at h
    exact htri (hfault ▸ literal_eq_error h)
  | opening =>
    rw [hkind] at h
    cases h
  | closing =>
    rw [hkind] at h
    dsimp only [close] at h
    split at h
    · cases h
      cases hfault
    · split_ifs at h <;> cases h <;> cases hfault
  | comma =>
    rw [hkind] at h
    dsimp only [comma] at h
    split at h
    · cases h
      cases hfault
    · split_ifs at h
      cases h
      cases hfault

/-- Tokens that are all taken leave nothing to blame one of them for. -/
theorem Reaches.not_stopped (h : Reaches p tokens q) : ¬ (p.run tokens).Stopped := by
  intro hstopped
  obtain ⟨e, he, hfault⟩ := hstopped
  rw [← List.append_nil tokens, h.run, Parser.run] at he
  unfold result at he
  dsimp only at he
  split at he
  · cases he
    exact hfault _ rfl
  · cases he

theorem stopped_of_wrong (h : Reaches p before q) (hwrong : q.step t = .error e)
    (after : List Token) : (p.run (before ++ t :: after)).Stopped := by
  rw [run_of_wrong h hwrong]
  exact ⟨e, rfl, fault_of_step hwrong⟩

end Parser

/-! ## §4. The extent of a parse. -/

/-- The texts that a parse gives names to, in order, when it takes these tokens. -/
def mentioned (taken : List Token) : List String :=
  squareBrackets :: curlyBrackets :: identifierTexts taken

/-- `taken` is what the parse of `tokens` looks at. -/
structure Parsed.Extent (names : Interner) (tokens taken : List Token) : Prop where
  /-- The parse leaves over what stands behind. -/
  split : tokens = taken ++ (parseTokens names tokens).rest
  /-- No token before the last one it takes is wrong. -/
  first : ∀ before t more, taken = before ++ t :: more → ¬ (parseTokens names before).Stopped
  /-- If a token is wrong, what stands behind it makes no difference. -/
  stopped : (parseTokens names tokens).Stopped → taken ≠ [] ∧ ∀ after,
    parseTokens names (taken ++ after)
      = ⟨(parseTokens names tokens).result, (parseTokens names tokens).names, after⟩
  /-- Otherwise every token is taken. -/
  whole : ¬ (parseTokens names tokens).Stopped → taken = tokens
  /-- The table lists what it did, and then the new texts. -/
  names : (parseTokens names tokens).names.texts.toList
    = names.texts.toList ++ names.added (mentioned taken)

theorem Parser.names_new (names : Interner) :
    (new names).names = names.internAll [squareBrackets, curlyBrackets] := rfl

/-- What the parse has made of the table, in one go. -/
theorem Parser.toList_internAll_new (names : Interner) (taken : List Token) :
    ((new names).names.internAll (identifierTexts taken)).texts.toList
      = names.texts.toList ++ names.added (mentioned taken) := by
  rw [names_new, ← Interner.internAll_append, Interner.toList_internAll]
  rfl

/-- **Every parse has an extent**: it takes the tokens up to the first wrong one. -/
theorem parseTokens_extent (names : Interner) (tokens : List Token) :
    ∃ taken, Parsed.Extent names tokens taken := by
  rcases Parser.reaches_or_wrong (.new names) tokens with ⟨q, hq⟩ |
    ⟨before, t, after, q, e, rfl, hq, hwrong⟩
  · have hrun : parseTokens names tokens = ⟨q.result, q.names, []⟩ := by
      have h := hq.run []
      rw [List.append_nil] at h
      exact h
    refine ⟨tokens, ?_, ?_, ?_, fun _ => rfl, ?_⟩
    · rw [hrun, List.append_nil]
    · intro before t more heq
      rw [heq] at hq
      obtain ⟨r, hr⟩ := hq.of_append
      exact hr.not_stopped
    · intro hstopped
      exact absurd hstopped hq.not_stopped
    · rw [hrun, hq.names_eq, Parser.toList_internAll_new]
  · have hrun := Parser.run_of_wrong hq hwrong
    refine ⟨before ++ [t], ?_, ?_, ?_, ?_, ?_⟩
    · rw [parseTokens, hrun, List.append_assoc, List.singleton_append]
    · intro front u more heq
      -- the prefix is within what was taken before the wrong token
      obtain ⟨back, hback⟩ : ∃ back, before = front ++ back := by
        rcases List.eq_nil_or_concat more with rfl | ⟨init, last, rfl⟩
        · exact ⟨[], by simpa using (List.append_inj' heq rfl).1⟩
        · refine ⟨u :: init, ?_⟩
          have hheq : before ++ [t] = (front ++ u :: init) ++ [last] := by simp [heq]
          exact (List.append_inj' hheq rfl).1
      rw [hback] at hq
      obtain ⟨r, hr⟩ := hq.of_append
      exact hr.not_stopped
    · intro _
      refine ⟨by simp, fun more => ?_⟩
      rw [List.append_assoc, List.singleton_append]
      show (Parser.new names).run _ = _
      rw [parseTokens, hrun, hrun]
    · intro hnot
      exact absurd (Parser.stopped_of_wrong hq hwrong after) hnot
    · rw [parseTokens, hrun, Parser.toList_internAll_new]

end Prototalk
