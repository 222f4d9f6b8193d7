/-
  Prototalk.Proofs.Token.Tiling
  ────────────────────────────────
  **TOKENS TILE THEIR TEXT.**

  The tokens of a text and the blanks between them are the text, piece by
  piece: every token is marked by its span, they stand in order, and what is
  left between two of them, and behind the last one, is blank.  Only a
  malformed token ends this early, and it is the last one
  (`tiling_tokenize`).

  `Tiles before text tokens` describes the tokens of `text` behind `before`
  in the same way as the lexer finds them, one cut after the other; each
  part of the tiling is an induction over it.
-/
import Mathlib.Data.List.TakeWhile
import Prototalk.Proofs.Token.Cut
import Prototalk.Proofs.Token.Requests

namespace Prototalk

open Lexer

/-! ## §1. Texts that spans mark. -/

/-- `part` is the piece of the text that stands at the span. -/
def Span.Marks (span : Span) (text part : String) : Prop :=
  ∃ before after, text = before ++ part ++ after
    ∧ span = ⟨before.utf8ByteSize, (before ++ part).utf8ByteSize⟩

/-- The text at the span has only characters that are skipped. -/
def Span.IsBlank (span : Span) (text : String) : Prop :=
  ∃ gap, span.Marks text gap ∧ ∀ x ∈ gap.toList, x ∈ [' ', '\r', '\x0c', '\t', '\x0b']

/-- `part` stands at the span in a list of characters. -/
def Span.Cuts (span : Span) (text part : List Char) : Prop :=
  ∃ before after, text = before ++ (part ++ after)
    ∧ span = ⟨offsetOf before, offsetOf (before ++ part)⟩

/-- Characters that are skipped. -/
def Blank (gap : List Char) : Prop := ∀ x ∈ gap, isSpace x = true

theorem offsetOf_toList {s : String} (hs : s.utf8ByteSize < 2 ^ 32) :
    offsetOf s.toList = s.utf8ByteSize := by
  have hmax : Span.maxOffset = 2 ^ 32 - 1 := rfl
  rw [offsetOf_eq, String.utf8Len_toList]
  rw [String.utf8Len_toList]
  omega

theorem Span.Cuts.marks {span : Span} {s : String} {part : List Char}
    (hs : s.utf8ByteSize < 2 ^ 32) (h : span.Cuts s.toList part) :
    span.Marks s (String.ofList part) := by
  obtain ⟨before, after, htext, rfl⟩ := h
  have hsize : String.utf8Len (before ++ part) + String.utf8Len after = s.utf8ByteSize := by
    rw [← String.utf8Len_toList, htext, ← String.utf8Len_append, List.append_assoc]
  have hfront : String.utf8Len (before ++ part) = String.utf8Len before + String.utf8Len part :=
    String.utf8Len_append ..
  have hmax : Span.maxOffset = 2 ^ 32 - 1 := rfl
  refine ⟨String.ofList before, String.ofList after, ?_, ?_⟩
  · rw [← String.ofList_append, ← String.ofList_append, List.append_assoc, ← htext,
      String.ofList_toList]
  · rw [offsetOf_eq (by omega), offsetOf_eq (by omega), ← String.ofList_append,
      String.utf8ByteSize_ofList, String.utf8ByteSize_ofList]

theorem Span.Cuts.isBlank {span : Span} {s : String} {gap : List Char}
    (hs : s.utf8ByteSize < 2 ^ 32) (h : span.Cuts s.toList gap) (hgap : Blank gap) :
    span.IsBlank s := by
  refine ⟨String.ofList gap, h.marks hs, fun x hx => ?_⟩
  rw [String.toList_ofList] at hx
  exact List.contains_iff_mem.mp (hgap x hx)

/-! ## §2. One cut after the other. -/

/-- `tokens` are the tokens of `text`, which stands behind `before`. -/
inductive Tiles : List Char → List Char → List Token → Prop where
  /-- Blanks have no token. -/
  | blank {before text : List Char} (htext : Blank text) : Tiles before text []
  /-- A malformed token is the last one. -/
  | last {before gap more : List Char} {c : Char} {fault : LexFault} (hgap : Blank gap)
      (hc : isSpace c = false) (hcut : (Cut.first c more).outcome = .error fault) :
      Tiles before (gap ++ c :: more)
        [(Cut.first c more).token (offsetOf (before ++ gap)) [] (before ++ gap)]
  /-- Behind a proper token the text goes on. -/
  | token {before gap more : List Char} {c : Char} {kind : TokenKind} {tokens : List Token}
      (hgap : Blank gap) (hc : isSpace c = false) (hcut : (Cut.first c more).outcome = .ok kind)
      (htail : Tiles (before ++ gap ++ (Cut.first c more).value) (Cut.first c more).rest tokens) :
      Tiles before (gap ++ c :: more)
        ((Cut.first c more).token (offsetOf (before ++ gap)) [] (before ++ gap) :: tokens)

namespace Lexer

variable {l : Lexer} {before text gap more : List Char} {c : Char}

/-- The lexer goes on, and its cursor stands behind `before` and before `text`. -/
structure At (l : Lexer) (before text : List Char) : Prop where
  going : l.done = false
  cursor : l.cursor.At before text

theorem at_ofSource (s : String) : (ofSource (.ofString s)).At [] s.toList :=
  ⟨rfl, Cursor.at_ofSource s.toList⟩

/-- Behind the last token a lexer reads to the end. -/
theorem At.next_end (h : l.At before text) (htext : Blank text) :
    ∃ l', l.next = (none, l') ∧ l'.cursor.At (before ++ text) [] := by
  obtain ⟨cur, heat, hcur⟩ := h.cursor.eatWhile isSpace []
  rw [List.dropWhile_eq_nil_iff.mpr htext, List.takeWhile_eq_self_iff.mpr htext] at hcur
  obtain ⟨cur', hcurrent, hcur'⟩ := hcur.current_nil
  refine ⟨⟨cur', true⟩, ?_, hcur'⟩
  unfold next
  simp only [h.going, heat, hcurrent, Cursor.faultHere, hcur'.holds.fault]
  simp

theorem At.next_blank (h : l.At before text) (htext : Blank text) :
    ∃ l', l.next = (none, l') :=
  (h.next_end htext).imp fun _ hl' => hl'.1

/-- The next token is the one that is cut off behind the blanks. -/
theorem At.next_token (h : l.At before (gap ++ c :: more)) (hgap : Blank gap)
    (hc : isSpace c = false) :
    ∃ l', l.next
        = (some ((Cut.first c more).token (offsetOf (before ++ gap)) [] (before ++ gap)), l')
      ∧ l'.cursor.At (before ++ gap ++ ((Cut.first c more).value ++ (Cut.first c more).dropped))
        (Cut.first c more).rest
      ∧ l'.done = (((Cut.first c more).token (offsetOf (before ++ gap)) [] (before ++ gap)).kind
        == .malformed) := by
  obtain ⟨cur, heat, hcur⟩ := h.cursor.eatWhile isSpace []
  have hstop : ¬ isSpace c = true := by simp [hc]
  rw [List.takeWhile_append_of_pos hgap, List.dropWhile_append_of_pos hgap,
    List.takeWhile_cons_of_neg hstop, List.dropWhile_cons_of_neg hstop, List.append_nil] at hcur
  obtain ⟨cur', hcurrent, hcur', -⟩ := hcur.current_cons
  have hahead : cur'.ahead ≠ [] := Cursor.ahead_ne_nil (Cursor.head?_of_current hcurrent)
  obtain ⟨htoken, hcursor⟩ := Cut.made_scan hcur' hahead
  rw [← htoken]
  refine ⟨⟨(scan c cur').2, (scan c cur').1.kind == .malformed⟩, ?_, hcursor, rfl⟩
  unfold next
  simp only [h.going, heat, hcurrent]
  simp

end Lexer

namespace Tiles

variable {before text : List Char} {tokens : List Token} {l : Lexer}

/-- A text is some blanks, and what follows them. -/
theorem blank_or_token (text : List Char) : Blank text
    ∨ ∃ gap c more, text = gap ++ c :: more ∧ Blank gap ∧ isSpace c = false := by
  have hsplit := List.takeWhile_append_dropWhile (p := isSpace) (l := text)
  have hgap : Blank (text.takeWhile isSpace) := fun x hx => List.mem_takeWhile_imp hx
  cases hdrop : text.dropWhile isSpace with
  | nil => exact .inl (List.dropWhile_eq_nil_iff.mp hdrop)
  | cons c more =>
    rw [hdrop] at hsplit
    have hc := List.head?_dropWhile_not isSpace text
    rw [hdrop] at hc
    exact .inr ⟨_, c, more, hsplit.symm, hgap, by simpa using hc⟩

/-- **The lexer tiles what it has left.** -/
theorem tiles_tokens (h : l.At before text) : Tiles before text l.tokens := by
  induction l using Lexer.requestInduction generalizing before text with
  | stop l l' hnext =>
    rw [Lexer.tokens_of_next_none hnext]
    rcases blank_or_token text with htext | ⟨gap, c, more, rfl, hgap, hc⟩
    · exact .blank htext
    · obtain ⟨l'', hnext', -⟩ := h.next_token hgap hc
      rw [hnext] at hnext'
      cases hnext'
  | token l t l' hnext ih =>
    rw [Lexer.tokens_of_next hnext]
    rcases blank_or_token text with htext | ⟨gap, c, more, rfl, hgap, hc⟩
    · obtain ⟨l'', hnext'⟩ := h.next_blank htext
      rw [hnext] at hnext'
      cases hnext'
    obtain ⟨l'', hnext', hcursor, hdone⟩ := h.next_token hgap hc
    rw [hnext] at hnext'
    cases hnext'
    cases hcut : (Cut.first c more).outcome with
    | error fault =>
      -- a malformed token has stopped the lexer
      have hstopped : l'.done = true := by
        rw [hdone]
        simp [Cut.token, hcut, Token.malformed]
      rw [Lexer.tokens_of_next_none (Lexer.next_of_done hstopped)]
      exact .last hgap hc hcut
    | ok kind =>
      obtain ⟨hdivides, hkind⟩ := Cut.divides_of_ok hcut
      have hgoing : l'.done = false := by
        rw [hdone]
        simpa [Cut.token, hcut, Token.ofKind] using hkind
      rw [hdivides.dropped, List.append_nil] at hcursor
      exact .token hgap hc hcut (ih ⟨hgoing, hcursor⟩)

theorem tiles_tokenize (s : String) : Tiles [] s.toList (tokenize s) :=
  tiles_tokens (Lexer.at_ofSource s)

end Tiles

/-! ## §3. The parts of the tiling. -/

/-- A malformed token in front of a hexadecimal marker that does not belong there. -/
def Token.Misprefixed (t : Token) : Prop :=
  t.kind = .malformed ∧ ∃ e digits, t.error = some e ∧ e.fault = .invalidHexPrefix digits

/-- The places before the first token and between each token and the next; the text starts at
`start`. -/
def gapsFrom (start : Nat) : List Token → List Span
  | [] => []
  | t :: tokens => ⟨start, t.span.start⟩ :: gapsFrom t.span.stop tokens

/-- Where the last token ends. -/
def endFrom (start : Nat) : List Token → Nat
  | [] => start
  | t :: tokens => endFrom t.span.stop tokens

/-- The text that the span of a token covers: its value, and a wrong hexadecimal marker. -/
def Token.Covers (t : Token) (part : List Char) : Prop :=
  (¬ t.Misprefixed ∧ part = t.value.toList)
    ∨ (t.Misprefixed ∧ ∃ m ∈ ['x', 'X'], part = t.value.toList ++ [m])

namespace Cut

variable {c : Char} {text before : List Char}

theorem span_token (cut : Cut) (start : Nat) (taken before : List Char) :
    (cut.token start taken before).span
      = ⟨start, offsetOf (before ++ (cut.value ++ cut.dropped))⟩ := by
  unfold token
  cases cut.outcome <;> rfl

theorem value_token (cut : Cut) (start : Nat) (before : List Char) :
    (cut.token start [] before).value.toList = cut.value := by
  unfold token
  cases cut.outcome <;> simp [Token.ofKind, Token.malformed, textOf]

theorem misprefixed_token_iff {cut : Cut} {start : Nat} {taken before : List Char} :
    (cut.token start taken before).Misprefixed
      ↔ ∃ digits, cut.outcome = .error (.invalidHexPrefix digits) := by
  unfold token Token.Misprefixed
  cases cut.outcome <;> simp [Token.ofKind, Token.malformed]

/-- The token at the front of a text covers what is taken from it. -/
theorem covers_first (c : Char) (text before : List Char) (start : Nat) :
    ((first c text).token start [] before).Covers ((first c text).value ++ (first c text).dropped)
      ∧ (first c text).value ++ (first c text).dropped ++ (first c text).rest = c :: text := by
  rcases divides_or_misprefixed c text with h | h
  · rw [h.dropped, List.append_nil]
    refine ⟨.inl ⟨?_, (value_token ..).symm⟩, h.text⟩
    rw [misprefixed_token_iff]
    rintro ⟨digits, hfault⟩
    exact h.fault digits hfault
  · refine ⟨.inr ⟨misprefixed_token_iff.mpr ⟨_, h.fault⟩, ?_⟩, h.text⟩
    rcases h.dropped with hx | hx
    · exact ⟨'x', by simp, by rw [value_token, hx]⟩
    · exact ⟨'X', by simp, by rw [value_token, hx]⟩

end Cut

namespace Tiles

variable {before text : List Char} {tokens : List Token}

/-- What is taken and what is left are the whole text. -/
theorem append_cut (before gap : List Char) (c : Char) (more : List Char) :
    before ++ (gap ++ c :: more) = (before ++ gap)
      ++ ((Cut.first c more).value ++ (Cut.first c more).dropped ++ (Cut.first c more).rest) := by
  rw [(Cut.covers_first c more before 0).2, List.append_assoc]

theorem append_cut_of_ok {more : List Char} {c : Char} {kind : TokenKind}
    (hcut : (Cut.first c more).outcome = .ok kind) (before gap : List Char) :
    before ++ gap ++ (Cut.first c more).value ++ (Cut.first c more).rest
      = before ++ (gap ++ c :: more) := by
  rw [append_cut, (Cut.divides_of_ok hcut).1.dropped]
  simp

/-- Every token covers the text at its span. -/
theorem covers (h : Tiles before text tokens) : ∀ t ∈ tokens,
    ∃ part, part ≠ [] ∧ t.span.Cuts (before ++ text) part ∧ t.Covers part := by
  -- the token of one cut
  have hfirst : ∀ (before gap : List Char) (c : Char) (more : List Char),
      let t := (Cut.first c more).token (offsetOf (before ++ gap)) [] (before ++ gap)
      ∃ part, part ≠ [] ∧ t.span.Cuts (before ++ (gap ++ c :: more)) part ∧ t.Covers part := by
    intro before gap c more t
    refine ⟨(Cut.first c more).value ++ (Cut.first c more).dropped, List.cons_ne_nil _ _,
      ⟨before ++ gap, (Cut.first c more).rest, append_cut .., Cut.span_token ..⟩,
      (Cut.covers_first ..).1⟩
  induction h with
  | blank htext => exact fun t ht => by cases ht
  | @last before gap more c fault hgap hc hcut =>
    intro t ht
    obtain rfl := List.mem_singleton.mp ht
    exact hfirst before gap c more
  | @token before gap more c kind tokens hgap hc hcut htail ih =>
    intro t ht
    rcases List.mem_cons.mp ht with rfl | ht
    · exact hfirst before gap c more
    · rw [← append_cut_of_ok hcut]
      exact ih t ht

/-- What stands before a token is blank. -/
theorem gaps (h : Tiles before text tokens) : ∀ span ∈ gapsFrom (offsetOf before) tokens,
    ∃ gap, span.Cuts (before ++ text) gap ∧ Blank gap := by
  induction h with
  | blank htext => exact fun t ht => by cases ht
  | @last before gap more c fault hgap hc hcut =>
    intro span hspan
    obtain rfl := List.mem_singleton.mp hspan
    exact ⟨gap, ⟨before, c :: more, rfl, by rw [Cut.span_token]⟩, hgap⟩
  | @token before gap more c kind tokens hgap hc hcut htail ih =>
    intro span hspan
    rcases List.mem_cons.mp hspan with rfl | hspan
    · exact ⟨gap, ⟨before, c :: more, rfl, by rw [Cut.span_token]⟩, hgap⟩
    · rw [← append_cut_of_ok hcut]
      refine ih span ?_
      rw [Cut.span_token, (Cut.divides_of_ok hcut).1.dropped, List.append_nil] at hspan
      exact hspan

theorem le_start (h : Tiles before text tokens) :
    ∀ t ∈ tokens, offsetOf before ≤ t.span.start := by
  induction h with
  | blank htext => exact fun t ht => by cases ht
  | last hgap hc hcut =>
    intro t ht
    rw [List.mem_singleton.mp ht, Cut.span_token]
    exact offsetOf_le_append ..
  | token hgap hc hcut htail ih =>
    intro t ht
    rcases List.mem_cons.mp ht with rfl | ht
    · rw [Cut.span_token]
      exact offsetOf_le_append ..
    · refine Nat.le_trans ?_ (ih t ht)
      rw [List.append_assoc]
      exact offsetOf_le_append ..

/-- No token starts before the end of an earlier one. -/
theorem ordered (h : Tiles before text tokens) :
    tokens.Pairwise fun t u => t.span.stop ≤ u.span.start := by
  induction h with
  | blank htext => exact .nil
  | last hgap hc hcut => exact List.pairwise_singleton ..
  | token hgap hc hcut htail ih =>
    refine .cons (fun u hu => ?_) ih
    rw [Cut.span_token, (Cut.divides_of_ok hcut).1.dropped, List.append_nil]
    exact htail.le_start u hu

/-- A malformed token is the last one. -/
theorem malformed (h : Tiles before text tokens) : ∀ t ∈ tokens.dropLast, t.kind ≠ .malformed := by
  induction h with
  | blank htext => exact fun t ht => by cases ht
  | last hgap hc hcut => exact fun t ht => by cases ht
  | @token before gap more c kind tokens hgap hc hcut htail ih =>
    intro t ht
    cases tokens with
    | nil => cases ht
    | cons u tokens =>
      rcases List.mem_cons.mp ht with rfl | ht
      · simpa [Cut.token, hcut, Token.ofKind] using (Cut.divides_of_ok hcut).2
      · exact ih t ht

/-- Behind the last token everything is blank, if it is a proper one. -/
theorem rest (h : Tiles before text tokens) (hproper : ∀ t ∈ tokens, t.kind ≠ .malformed) :
    ∃ gap, (⟨endFrom (offsetOf before) tokens, offsetOf (before ++ text)⟩ : Span).Cuts
      (before ++ text) gap ∧ Blank gap := by
  induction h with
  | @blank before text htext => exact ⟨text, ⟨before, [], by simp, rfl⟩, htext⟩
  | last hgap hc hcut =>
    refine absurd ?_ (hproper _ List.mem_cons_self)
    simp [Cut.token, hcut, Token.malformed]
  | token hgap hc hcut htail ih =>
    obtain ⟨gap, hcuts, hgap⟩ := ih fun t ht => hproper t (List.mem_cons_of_mem _ ht)
    rw [append_cut_of_ok hcut] at hcuts
    refine ⟨gap, ?_, hgap⟩
    rw [endFrom, Cut.span_token, (Cut.divides_of_ok hcut).1.dropped, List.append_nil]
    exact hcuts

end Tiles

/-! ## §4. The tokens of a text. -/

/-- The tokens and the blanks between them are the text. -/
structure Tiling (s : String) (tokens : List Token) : Prop where
  /-- No token is empty. -/
  nonempty : ∀ t ∈ tokens, t.span.start < t.span.stop
  /-- The tokens stand in order and apart. -/
  ordered : tokens.Pairwise fun t u => t.span.stop ≤ u.span.start
  /-- The value of a token is the text at its span, -/
  values : ∀ t ∈ tokens, ¬ t.Misprefixed → t.span.Marks s t.value
  /-- where a wrong hexadecimal marker follows, together with the marker. -/
  markers : ∀ t ∈ tokens, t.Misprefixed → ∃ m ∈ ["x", "X"], t.span.Marks s (t.value ++ m)
  /-- Before the first token and between two tokens the text is blank. -/
  gaps : ∀ span ∈ gapsFrom 0 tokens, span.IsBlank s
  /-- Only the last token can be malformed. -/
  malformed : ∀ t ∈ tokens.dropLast, t.kind ≠ .malformed
  /-- If none is, the text behind the last token is blank. -/
  rest : (∀ t ∈ tokens, t.kind ≠ .malformed) →
    (⟨endFrom 0 tokens, s.utf8ByteSize⟩ : Span).IsBlank s

theorem Span.Marks.lt {span : Span} {s part : String} (h : span.Marks s part) (hpart : part ≠ "") :
    span.start < span.stop := by
  obtain ⟨before, after, -, rfl⟩ := h
  have : part.utf8ByteSize ≠ 0 := fun hzero => hpart (String.utf8ByteSize_eq_zero_iff.mp hzero)
  simp only [String.utf8ByteSize_append]
  omega

theorem start_lt_stop_of_mem_tokenize {s : String} (hs : s.utf8ByteSize < 2 ^ 32) :
    ∀ t ∈ tokenize s, t.span.start < t.span.stop := by
  intro t ht
  obtain ⟨part, hpart, hcuts, -⟩ := (Tiles.tiles_tokenize s).covers t ht
  exact (hcuts.marks hs).lt (by simpa using hpart)

/-- **Tokens tile their text.**  Asking for more tokens than there are gives nothing. -/
theorem tiling_tokenize (s : String) (hs : s.utf8ByteSize < 2 ^ 32) :
    Tiling s (tokenize s)
      ∧ ∀ n, Lexer.pulls ((tokenize s).length + n) (.ofSource (.ofString s))
        = (tokenize s).map some ++ List.replicate n none := by
  have htiles := Tiles.tiles_tokenize s
  refine ⟨⟨start_lt_stop_of_mem_tokenize hs, htiles.ordered, ?_, ?_, ?_, htiles.malformed, ?_⟩,
    Lexer.pulls_tokens _⟩
  · intro t ht hnot
    obtain ⟨part, -, hcuts, ⟨-, rfl⟩ | ⟨hmisprefixed, -⟩⟩ := htiles.covers t ht
    · simpa using hcuts.marks hs
    · exact absurd hmisprefixed hnot
  · intro t ht hmisprefixed
    obtain ⟨part, -, hcuts, ⟨hnot, -⟩ | ⟨-, m, hm, rfl⟩⟩ := htiles.covers t ht
    · exact absurd hmisprefixed hnot
    · refine ⟨String.ofList [m], ?_, by simpa [String.ofList_append] using hcuts.marks hs⟩
      rcases List.mem_pair.mp hm with rfl | rfl <;> decide
  · intro span hspan
    rw [← offsetOf_nil] at hspan
    obtain ⟨gap, hcuts, hgap⟩ := htiles.gaps span hspan
    exact hcuts.isBlank hs hgap
  · intro hproper
    obtain ⟨gap, hcuts, hgap⟩ := htiles.rest hproper
    rw [offsetOf_nil, List.nil_append, offsetOf_toList hs] at hcuts
    exact hcuts.isBlank hs hgap

/-- A text with characters of several bytes, and a wrong marker at its end. -/
theorem tiling_tokenize_marker :
    let s := "é := \"ü\"; 12x"
    s.utf8ByteSize < 2 ^ 32 ∧ Tiling s (tokenize s)
      ∧ ∀ n, Lexer.pulls ((tokenize s).length + n) (.ofSource (.ofString s))
        = (tokenize s).map some ++ List.replicate n none :=
  ⟨by decide, tiling_tokenize _ (by decide)⟩

end Prototalk
