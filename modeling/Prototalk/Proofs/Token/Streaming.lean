/-
  Prototalk.Proofs.Token.Streaming
  ────────────────────────────────
  **WHAT COMES LATER DOES NOT CHANGE A TOKEN.**

  A text may be cut into tokens before all of it is there.  A token, and also
  a malformed one that the text does not just end in, depends on its own text
  and on one character more (`Lexeme.congr`, `Broken.congr`).  So two lexers
  whose texts differ only from some place on, behind a character that they
  share, answer alike as long as that character is left (`At.pulls_eq`).

  The last token of a text may be reading on when the text ends; every other
  token has been told to be complete.

  Main statement: `dropLast_prefix_tokenize`.
-/
import Prototalk.Proofs.Token.Conformity

namespace Prototalk

open Lexer (isSpace)

/-! ## §1. One character behind a token. -/

namespace Lexicon

variable {p : Char → Bool} {kind : TokenKind} {fault : LexFault}
  {word dropped rest rest' : List Char}

/-- What stands behind a token is changed for something else that does not carry it on: for a text
that starts like it or with a blank. -/
def Succeeds (rest' rest : List Char) : Prop := ∀ x ∈ rest'.head?, x ∈ rest.head? ∨ isSpace x = true

theorem Succeeds.of_startsLike (h : StartsLike rest' rest) : Succeeds rest' rest :=
  fun x hx => .inl (h x hx)

theorem Succeeds.append (h : Succeeds rest' rest) (front : List Char) :
    Succeeds (front ++ rest') (front ++ rest) := by
  cases front with
  | nil => exact h
  | cons c front => exact fun x hx => .inl hx

theorem Succeeds.stops (h : Succeeds rest' rest)
    (hp : Lexer.spaceChars.all (fun x => !p x) = true) (hstops : Stops p rest) :
    Stops p rest' := by
  intro x hx
  rcases h x hx with hsame | hspace
  · exact hstops x hsame
  · have hblank : x ∈ Lexer.spaceChars := by simpa [isSpace] using hspace
    simpa using List.all_eq_true.mp hp x hblank

theorem Run.congr {run : List Char} (h : Run p run rest) (hrest : Succeeds rest' rest)
    (hp : Lexer.spaceChars.all (fun x => !p x) = true) : Run p run rest' :=
  ⟨h.all, hrest.stops hp h.stops⟩

theorem Mantissa.congr {mantissa : List Char} (h : Mantissa mantissa rest)
    (hrest : Succeeds rest' rest) : Mantissa mantissa rest' := by
  cases h with
  | whole hne hdigits hnext =>
    exact .whole hne (hdigits.congr hrest (by decide)) (hrest.stops (by decide) hnext)
  | point hdigits hne hfrac => exact .point hdigits hne (hfrac.congr hrest (by decide))

theorem Exponent.congr {exponent : List Char} (h : Exponent exponent rest)
    (hrest : Succeeds rest' rest) : Exponent exponent rest' := by
  cases h with
  | absent hnext => exact .absent (hrest.stops (by decide) hnext)
  | present hmarker hsign hne hdigits =>
    exact .present hmarker hsign hne (hdigits.congr hrest (by decide))

/-- **A token does not depend on more than one character behind it**, and no blank carries it on. -/
theorem Lexeme.congr (h : Lexeme kind word rest) (hrest : Succeeds rest' rest) :
    Lexeme kind word rest' := by
  cases h with
  | separator hc => exact .separator hc
  | opening hc => exact .opening hc
  | closing hc => exact .closing hc
  | comma => exact .comma
  | operator hne hrun => exact .operator hne (hrun.congr hrest (by decide))
  | word hc hrun => exact .word hc (hrun.congr hrest (by decide))
  | point hnext hrun =>
    exact .point ((hrest.append _).stops (by decide) hnext) (hrun.congr hrest (by decide))
  | number hmantissa hexponent =>
    exact .number (hmantissa.congr (hrest.append _)) (hexponent.congr hrest)
  | hexNumber hmarker hne hdigits =>
    exact .hexNumber hmarker hne (hdigits.congr hrest (by decide))
  -- a string of no characters is told from a long one by what is behind it
  | string hunits hsingle =>
    exact .string hunits fun hnil => hrest.stops (by decide) (hsingle hnil)
  | triQuote hcontent => exact .triQuote hcontent

/-- **What is broken stays broken**, if the text goes on behind it: an open literal might still be
closed. -/
theorem Broken.congr (h : Broken fault word dropped rest) (hne : rest ≠ [])
    (hrest : Succeeds rest' rest) : Broken fault word dropped rest' := by
  cases h with
  | unexpectedChar hspace hnone => exact .unexpectedChar hspace hnone
  | invalidHexPrefix hdigitsne hdigits hzero hmarker =>
    exact .invalidHexPrefix hdigitsne hdigits hzero hmarker
  | emptyHex hmarker hnext => exact .emptyHex hmarker (hrest.stops (by decide) hnext)
  | missingFraction hdigitsne hdigits hnext =>
    exact .missingFraction hdigitsne hdigits (hrest.stops (by decide) hnext)
  | @emptyExponent mantissa sign _ marker hmantissa hmarker hsign hmore hnext =>
    have hmantissa' : Mantissa mantissa (marker :: (sign ++ rest')) :=
      hmantissa.congr (hrest.append (marker :: sign))
    exact .emptyExponent hmantissa' hmarker hsign
      (fun hnil => hrest.stops (by decide) (hmore hnil)) (hrest.stops (by decide) hnext)
  | unterminatedString | unterminatedTriQuote => exact absurd rfl hne

end Lexicon

/-! ## §2. One request. -/

theorem Cursor.At.remaining_eq {cur : Cursor} {before text : List Char}
    (h : cur.At before text) : cur.remaining = text.length := by
  obtain ⟨rest, hunread, htext, -⟩ := h.holds.chars
  rw [Cursor.remaining, hunread, ← htext]
  simp [Source.ofChars]
  omega

namespace Lexer

open Lexicon (Lexeme Broken)

variable {l l' : Lexer} {before text : List Char} {t : Token} {n : Nat}

/-- What a lexer that stands behind `before` and before `text` answers, and where it stands then. -/
inductive Answers (before : List Char) : List Char → Option Token → Lexer → Prop where
  | ended {text : List Char} {l' : Lexer} (hcursor : l'.cursor.At (before ++ text) []) :
      Answers before text none l'
  | token {gap word rest : List Char} {kind : TokenKind} {l' : Lexer} (hgap : Blank gap)
      (hword : Lexeme kind word rest) (hnext : l'.At (before ++ gap ++ word) rest) :
      Answers before (gap ++ word ++ rest) (some (.ofKind kind (String.ofList word)
        ⟨offsetOf (before ++ gap), offsetOf (before ++ gap ++ word)⟩)) l'
  | broken {gap word dropped rest : List Char} {fault : LexFault} {l' : Lexer} (hgap : Blank gap)
      (hword : Broken fault word dropped rest) (hdone : l'.done = true)
      (hcursor : l'.cursor.At (before ++ gap ++ word ++ dropped) rest) :
      Answers before (gap ++ word ++ dropped ++ rest) (some (.malformed (String.ofList word)
        ⟨fault, offsetOf (before ++ gap), offsetOf (before ++ gap ++ word ++ dropped)⟩)) l'

theorem At.answers (h : l.At before text) : Answers before text l.next.1 l.next.2 := by
  rcases Tiles.blank_or_token text with htext | ⟨gap, c, more, rfl, hgap, hspace⟩
  · obtain ⟨l', hnext, hcursor⟩ := h.next_end htext
    rw [hnext]
    exact .ended hcursor
  · rcases Lexicon.lexeme_or_broken hspace more with
      ⟨kind, word, rest, htext, hword⟩ | ⟨fault, word, dropped, rest, htext, hword⟩
    · rw [htext, ← List.append_assoc] at h ⊢
      obtain ⟨l', hnext, hl'⟩ := hword.next_eq hgap h
      rw [hnext]
      exact .token hgap hword hl'
    · rw [htext, ← List.append_assoc, ← List.append_assoc] at h ⊢
      obtain ⟨l', hnext, hdone, hcursor⟩ := hword.next_eq hgap h
      rw [hnext]
      exact .broken hgap hword hdone hcursor

/-! ## §3. Several requests. -/

/-- The lexer behind `n` requests for a token. -/
def after {ρ : Type} [Record ρ] (n : Nat) (l : Lexer ρ) : Lexer ρ := (fun l => l.next.2)^[n] l

theorem after_succ {ρ : Type} [Record ρ] (n : Nat) (l : Lexer ρ) :
    after (n + 1) l = after n l.next.2 :=
  Function.iterate_succ_apply ..

theorem remaining_next_le (l : Lexer) : l.next.2.cursor.remaining ≤ l.cursor.remaining := by
  have heat := l.cursor.remaining_eatWhile_le isSpace []
  unfold next
  split
  · exact Nat.le_refl _
  · dsimp only
    split
    · rename_i c cur hcurrent
      have hscan := remaining_scan_lt (Cursor.head?_of_current hcurrent)
      exact Nat.le_trans (Nat.le_of_lt hscan)
        (Nat.le_trans (Cursor.remaining_current_le hcurrent) heat)
    · rename_i cur hcurrent
      have hle := Nat.le_trans (Cursor.remaining_current_le hcurrent) heat
      split <;> exact hle

theorem remaining_after_le (n : Nat) (l : Lexer) :
    (after n l).cursor.remaining ≤ l.cursor.remaining := by
  induction n generalizing l with
  | zero => exact Nat.le_refl _
  | succ n ih =>
    rw [after_succ]
    exact Nat.le_trans (ih _) (remaining_next_le l)

theorem pulls_succ (n : Nat) (l : Lexer) : pulls (n + 1) l = l.next.1 :: pulls n l.next.2 := rfl

theorem pulls_eq_take (h : n ≤ l.tokens.length) : pulls n l = (l.tokens.take n).map some := by
  induction n generalizing l with
  | zero => rfl
  | succ n ih =>
    cases hnext : l.next with
    | mk found l' =>
      cases found with
      | none =>
        rw [tokens_of_next_none hnext] at h
        cases h
      | some t =>
        rw [tokens_of_next hnext] at h ⊢
        rw [pulls_succ, hnext]
        exact congrArg (some t :: ·) (ih (Nat.le_of_succ_le_succ h))

/-- What requests have given stands at the front of all tokens. -/
theorem prefix_of_pulls {given : List Token} (h : pulls n l = given.map some) :
    given <+: l.tokens := by
  induction n generalizing l given with
  | zero =>
    obtain rfl : given = [] := List.map_eq_nil_iff.mp h.symm
    exact List.nil_prefix
  | succ n ih =>
    cases given with
    | nil => exact List.nil_prefix
    | cons t given =>
      rw [pulls_succ] at h
      obtain ⟨hfirst, hrest⟩ := List.cons.inj h
      rw [tokens_of_next (Prod.ext hfirst rfl)]
      exact List.cons_prefix_cons.mpr ⟨rfl, ih hrest⟩

/-- A piece of a text that is longer than its end starts further in front. -/
theorem exists_split {taken rest front back : List Char} (h : taken ++ rest = front ++ back)
    (hlength : back.length ≤ rest.length) :
    ∃ more, rest = more ++ back ∧ front = taken ++ more := by
  have hsuffix : back <:+ rest :=
    List.suffix_of_suffix_length_le ⟨front, h.symm⟩ ⟨taken, rfl⟩ hlength
  obtain ⟨more, rfl⟩ := hsuffix
  exact ⟨more, rfl, List.append_cancel_right (by rw [← h, List.append_assoc])⟩

/-- **Lexers answer alike as long as what they share is left**, and a character that it goes on
with. -/
theorem At.pulls_eq {front back back' : List Char} {c : Char}
    (h : l.At before (front ++ c :: back)) (h' : l'.At before (front ++ c :: back'))
    (hleft : (c :: back).length ≤ (after n l).cursor.remaining) : pulls n l = pulls n l' := by
  induction n generalizing l l' before front with
  | zero => rfl
  | succ n ih =>
    rw [after_succ] at hleft
    have hlength := Nat.le_trans hleft (remaining_after_le n _)
    have hshared : Lexicon.Succeeds (c :: back') (c :: back) := .of_startsLike fun x hx => hx
    have hanswers := h.answers
    generalize htext : front ++ c :: back = text at hanswers
    rw [pulls_succ, pulls_succ]
    generalize l.next.1 = found at hanswers ⊢
    cases hanswers with
    | ended hcursor =>
      rw [hcursor.remaining_eq] at hlength
      cases hlength
    | @token gap word rest kind _ hgap hword hnext =>
      rw [hnext.cursor.remaining_eq] at hlength
      obtain ⟨more, rfl, rfl⟩ := exists_split htext.symm hlength
      rw [List.append_assoc] at h'
      obtain ⟨l₂, hnext', hl₂⟩ := (hword.congr (hshared.append more)).next_eq hgap h'
      rw [hnext', ih hnext hl₂ hleft]
    | @broken gap word dropped rest fault _ hgap hword hdone hcursor =>
      rw [hcursor.remaining_eq] at hlength
      obtain ⟨more, rfl, rfl⟩ := exists_split htext.symm hlength
      rw [List.append_assoc] at h'
      obtain ⟨l₂, hnext', hdone', -⟩ :=
        (hword.congr (by simp) (hshared.append more)).next_eq hgap h'
      rw [hnext', pulls_of_done hdone, pulls_of_done hdone']

/-- Something is left where there is one more token. -/
theorem At.remaining_pos (h : l.At before text) (hn : n < l.tokens.length) :
    0 < (after n l).cursor.remaining := by
  induction n generalizing l before text with
  | zero =>
    show 0 < l.cursor.remaining
    rw [h.cursor.remaining_eq, List.length_pos_iff]
    rintro rfl
    have hnil : Blank [] := by simp [Blank]
    obtain ⟨l', hnext⟩ := h.next_blank hnil
    rw [tokens_of_next_none hnext] at hn
    cases hn
  | succ n ih =>
    rw [after_succ]
    have hanswers := h.answers
    cases hnext : l.next with
    | mk found l' =>
      rw [hnext] at hanswers
      cases hanswers with
      | ended hcursor =>
        rw [tokens_of_next_none hnext] at hn
        cases hn
      | token hgap hword hl' =>
        rw [tokens_of_next hnext] at hn
        exact ih hl' (Nat.lt_of_succ_lt_succ hn)
      | broken hgap hword hdone hcursor =>
        rw [tokens_of_next hnext, tokens_of_next_none (next_of_done hdone)] at hn
        exact absurd hn (by simp)

/-- Where a token ends is where the lexer stands when it has given it. -/
theorem At.exists_at (h : l.At before text) (ht : l.tokens[n]? = some t) :
    ∃ before' text', before ++ text = before' ++ text'
      ∧ (after (n + 1) l).cursor.At before' text' ∧ t.span.stop = offsetOf before' := by
  induction n generalizing l before text with
  | zero =>
    have hanswers := h.answers
    cases hnext : l.next with
    | mk found l' =>
      rw [after_succ, hnext]
      rw [hnext] at hanswers
      cases hanswers with
      | ended hcursor =>
        rw [tokens_of_next_none hnext] at ht
        cases ht
      | token hgap hword hl' =>
        rw [tokens_of_next hnext] at ht
        cases ht
        exact ⟨_, _, by simp, hl'.cursor, rfl⟩
      | broken hgap hword hdone hcursor =>
        rw [tokens_of_next hnext] at ht
        cases ht
        exact ⟨_, _, by simp, hcursor, rfl⟩
  | succ n ih =>
    have hanswers := h.answers
    cases hnext : l.next with
    | mk found l' =>
      rw [after_succ, hnext]
      rw [hnext] at hanswers
      cases hanswers with
      | ended hcursor =>
        rw [tokens_of_next_none hnext] at ht
        cases ht
      | token hgap hword hl' =>
        rw [tokens_of_next hnext] at ht
        obtain ⟨before', text', htext, hat⟩ := ih hl' ht
        exact ⟨before', text', by rw [← htext]; simp, hat⟩
      | broken hgap hword hdone hcursor =>
        rw [tokens_of_next hnext, tokens_of_next_none (next_of_done hdone)] at ht
        cases ht

end Lexer

/-! ## §4. Texts that go on. -/

/-- How many characters of a text are left behind `n` requests for a token. -/
def leftBehind (n : Nat) (s : String) : Nat :=
  (Lexer.after n (.ofSource (.ofString s))).cursor.remaining

/-- **Texts that are alike up to some character** have the same tokens up to there. -/
theorem take_prefix_tokenize {s s' : String} {front back back' : List Char} {c : Char} {n : Nat}
    (hs : s.toList = front ++ c :: back) (hs' : s'.toList = front ++ c :: back')
    (hn : n ≤ (tokenize s).length) (hleft : (c :: back).length ≤ leftBehind n s) :
    (tokenize s).take n <+: tokenize s' := by
  have hat := Lexer.at_ofSource s
  have hat' := Lexer.at_ofSource s'
  rw [hs] at hat
  rw [hs'] at hat'
  refine Lexer.prefix_of_pulls (n := n) ?_
  rw [← hat.pulls_eq hat' hleft]
  exact Lexer.pulls_eq_take hn

/-- The last character of a text is left if any is. -/
theorem take_prefix_append {s : String} {n : Nat} (more : String) (hn : n ≤ (tokenize s).length)
    (hleft : 0 < leftBehind n s) : (tokenize s).take n <+: tokenize (s ++ more) := by
  have hne : s.toList ≠ [] := by
    intro hnil
    have hle := Lexer.remaining_after_le n (.ofSource (.ofString s))
    rw [(Lexer.at_ofSource s).cursor.remaining_eq, hnil] at hle
    exact absurd (Nat.lt_of_lt_of_le hleft hle) (Nat.lt_irrefl 0)
  obtain ⟨front, c, hlast⟩ := (List.eq_nil_or_concat s.toList).resolve_left hne
  rw [List.concat_eq_append] at hlast
  have hmore : (s ++ more).toList = front ++ c :: more.toList := by
    rw [String.toList_append, hlast, List.append_assoc, List.singleton_append]
  exact take_prefix_tokenize hlast hmore hn (Nat.succ_le_of_lt hleft)

/-- For a text whose places fit into a span, something is left behind a token exactly if the token
ends before the end. -/
theorem leftBehind_pos_iff {s : String} {i : Nat} {t : Token} (hs : s.utf8ByteSize < 2 ^ 32)
    (ht : (tokenize s)[i]? = some t) :
    0 < leftBehind (i + 1) s ↔ t.span.stop < s.utf8ByteSize := by
  obtain ⟨before, text, htext, hcursor, hstop⟩ := (Lexer.at_ofSource s).exists_at ht
  rw [List.nil_append] at htext
  have hsize : s.utf8ByteSize = String.utf8Len before + String.utf8Len text := by
    rw [← String.utf8Len_toList, htext, String.utf8Len_append]
  have hmax : Span.maxOffset = 2 ^ 32 - 1 := rfl
  rw [leftBehind, hcursor.remaining_eq, hstop, offsetOf_eq (by omega), hsize]
  cases text with
  | nil => simp
  | cons c text =>
    have hc := c.utf8Size_pos
    simp
    omega

/-- **What comes later does not change a token.**  All tokens of a text but the last one are tokens
of every text that starts with it, and so is the last one if it ends before the text does.  Whatever
stands behind a character that was not read yet makes no difference to the tokens given so far. -/
theorem dropLast_prefix_tokenize :
    (∀ s more, (tokenize s).dropLast <+: tokenize (s ++ more))
      ∧ (∀ s more, 0 < leftBehind (tokenize s).length s → tokenize s <+: tokenize (s ++ more))
      ∧ (∀ s i t, s.utf8ByteSize < 2 ^ 32 → (tokenize s)[i]? = some t →
        (0 < leftBehind (i + 1) s ↔ t.span.stop < s.utf8ByteSize))
      ∧ ∀ s s' front c back back', s.toList = front ++ c :: back → s'.toList = front ++ c :: back' →
        ∀ n ≤ (tokenize s).length, (c :: back).length ≤ leftBehind n s →
          (tokenize s).take n <+: tokenize s' := by
  refine ⟨fun s more => ?_, fun s more h => ?_, fun s i t hs ht => ?_, ?_⟩
  · by_cases hempty : (tokenize s).length = 0
    · rw [List.length_eq_zero_iff.mp hempty]
      exact List.nil_prefix
    · rw [List.dropLast_eq_take]
      have hlt : (tokenize s).length - 1 < (tokenize s).length := by omega
      exact take_prefix_append more (Nat.le_of_lt hlt) ((Lexer.at_ofSource s).remaining_pos hlt)
  · have hprefix := take_prefix_append more (Nat.le_refl _) h
    rwa [List.take_length] at hprefix
  · exact leftBehind_pos_iff hs ht
  · intro s s' front c back back' hs hs' n hn hleft
    exact take_prefix_tokenize hs hs' hn hleft

/-- The number of `a 1` may go on, and the name in front of it does not.  Behind a blank the number
is complete too, whatever comes next. -/
theorem dropLast_prefix_tokenize_blank :
    (tokenize "a 1").dropLast <+: tokenize ("a 1" ++ "2")
      ∧ (0 < leftBehind (tokenize "a 1 ").length "a 1 "
        ∧ tokenize "a 1 " <+: tokenize ("a 1 " ++ "2"))
      ∧ ("a 1 ".utf8ByteSize < 2 ^ 32 ∧ (tokenize "a 1 ")[1]? = some (.ofKind .number "1" ⟨2, 3⟩)
        ∧ (0 < leftBehind 2 "a 1 " ↔ 3 < "a 1 ".utf8ByteSize))
      ∧ (tokenize "a 1 b").take 2 <+: tokenize "a 1 \"" := by
  have hleft : 0 < leftBehind (tokenize "a 1 ").length "a 1 " := by decide +kernel
  have hnumber : (tokenize "a 1 ")[1]? = some (.ofKind .number "1" ⟨2, 3⟩) := by decide +kernel
  have hsize : "a 1 ".utf8ByteSize < 2 ^ 32 := by decide
  have hlength : 2 ≤ (tokenize "a 1 b").length := by decide +kernel
  have hshared : [' ', 'b'].length ≤ leftBehind 2 "a 1 b" := by decide +kernel
  exact ⟨dropLast_prefix_tokenize.1 _ _, ⟨hleft, dropLast_prefix_tokenize.2.1 _ _ hleft⟩,
    ⟨hsize, hnumber, dropLast_prefix_tokenize.2.2.1 _ 1 _ hsize hnumber⟩,
    dropLast_prefix_tokenize.2.2.2 _ _ ['a', ' ', '1'] ' ' ['b'] ['"'] rfl rfl 2 hlength hshared⟩

end Prototalk
