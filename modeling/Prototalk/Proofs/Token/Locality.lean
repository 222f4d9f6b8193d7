/-
  Prototalk.Proofs.Token.Locality
  ────────────────────────────────
  **A TOKEN DEPENDS ON ITS TEXT AND ONE CHARACTER MORE.**

  If a token is found at the front of a text, the same token is found before
  every text that starts with the same character, and also where the text
  just ends (`Cut.first_append`).  So a token can be told by looking at one
  character behind it, and text may be cut off behind any token.

  Each way to read on is local if what it reads next is; the two kinds of
  strings are followed by induction.
-/
import Mathlib.Data.List.TakeWhile
import Prototalk.Proofs.Token.Cut

namespace Prototalk

open Lexer

/-! ## §1. Texts that start alike. -/

/-- `text'` starts with the same character as `text`, or is empty. -/
def StartsLike (text' text : List Char) : Prop := ∀ x ∈ text'.head?, x ∈ text.head?

namespace StartsLike

variable {text text' : List Char}

theorem nil (text : List Char) : StartsLike [] text := by
  intro x hx
  cases hx

theorem append (h : StartsLike text' text) (front : List Char) :
    StartsLike (front ++ text') (front ++ text) := by
  cases front with
  | nil => exact h
  | cons x front => exact fun y hy => hy

theorem not_of (h : StartsLike text' text) {p : Char → Bool}
    (htext : ∀ x ∈ text.head?, p x = false) : ∀ x ∈ text'.head?, p x = false :=
  fun x hx => htext x (h x hx)

theorem eq_nil (h : StartsLike text' []) : text' = [] := by
  cases text' with
  | nil => rfl
  | cons x text' => cases h x rfl

end StartsLike

theorem not_of_mem_head?_dropWhile (p : Char → Bool) (text : List Char) :
    ∀ x ∈ (text.dropWhile p).head?, p x = false := by
  intro x hx
  have h := List.head?_dropWhile_not p text
  rw [Option.mem_def.mp hx] at h
  simpa using h

/-- A run is taken as far as it went. -/
theorem takeWhile_append_of {p : Char → Bool} {run rest : List Char}
    (hrun : ∀ x ∈ run, p x = true) (hrest : ∀ x ∈ rest.head?, p x = false) :
    (run ++ rest).takeWhile p = run ∧ (run ++ rest).dropWhile p = rest := by
  rw [List.takeWhile_append_of_pos hrun, List.dropWhile_append_of_pos hrun]
  cases rest with
  | nil => simp
  | cons x rest =>
    have hx : ¬ p x = true := by simpa using hrest x rfl
    rw [List.takeWhile_cons_of_neg hx, List.dropWhile_cons_of_neg hx]
    simp

namespace Cut

/-! ## §2. Runs and choices. -/

/-- A token is found again before any text that starts like the one behind it. -/
def Local (f : List Char → Cut) : Prop :=
  ∀ ⦃text : List Char⦄ ⦃kind : TokenKind⦄, (f text).outcome = .ok kind →
    ∀ ⦃rest : List Char⦄, StartsLike rest (f text).rest →
      f ((f text).value ++ rest) = { f text with rest := rest }

section

variable {p : Char → Bool} {yes no next : List Char → Cut} {text rest : List Char}

theorem local_stop (kind : TokenKind) : Local (stop kind) := by
  intro text kind' _ rest _
  rfl

/-- Behind a run the text goes on as it did. -/
theorem run_append (hdivides : (next (text.dropWhile p)).Divides (text.dropWhile p))
    (hrest : StartsLike rest (run p next text).rest) :
    ((run p next text).value ++ rest).takeWhile p = text.takeWhile p
      ∧ ((run p next text).value ++ rest).dropWhile p
        = (next (text.dropWhile p)).value ++ rest := by
  have hhead : ∀ x ∈ ((next (text.dropWhile p)).value ++ rest).head?, p x = false := by
    refine (hrest.append _).not_of ?_
    show ∀ x ∈ ((next (text.dropWhile p)).value ++ (next (text.dropWhile p)).rest).head?, _
    rw [hdivides.text]
    exact not_of_mem_head?_dropWhile p text
  have hrun : ∀ x ∈ text.takeWhile p, p x = true := fun x hx => List.mem_takeWhile_imp hx
  show ((text.takeWhile p ++ (next (text.dropWhile p)).value) ++ rest).takeWhile p = _
    ∧ ((text.takeWhile p ++ (next (text.dropWhile p)).value) ++ rest).dropWhile p = _
  rw [List.append_assoc]
  exact takeWhile_append_of hrun hhead

theorem local_run (hdivides : ∀ text, (next text).Divides text) (hnext : Local next) :
    Local (run p next) := by
  intro text kind hkind rest hrest
  obtain ⟨htake, hdrop⟩ := run_append (hdivides _) hrest
  rw [run, htake, hdrop, hnext hkind hrest]
  rfl

theorem local_run1 {missing : LexFault} (hdivides : ∀ text, (next text).Divides text)
    (hnext : Local next) : Local (run1 p missing next) := by
  intro text kind hkind rest hrest
  by_cases hrun : text.takeWhile p = []
  · rw [run1, if_pos hrun] at hkind
    cases hkind
  · have heq : run1 p missing next text = run p next text := if_neg hrun
    rw [heq] at hkind hrest ⊢
    obtain ⟨htake, -⟩ := run_append (hdivides _) hrest
    rw [run1, htake, if_neg hrun]
    exact local_run hdivides hnext hkind hrest

theorem local_ifNext (hdivides : ∀ text, (no text).Divides text) (hyes : Local yes)
    (hno : Local no) : Local (ifNext p yes no) := by
  intro text kind hkind rest hrest
  cases text with
  | nil =>
    have hvalue : (no []).value = [] := (List.append_eq_nil_iff.mp (hdivides []).text).1
    have hrest' : (no []).rest = [] := (List.append_eq_nil_iff.mp (hdivides []).text).2
    have hnil : rest = [] := by
      refine StartsLike.eq_nil ?_
      rw [← hrest']
      exact hrest
    have hagain := hno hkind hrest
    rw [hnil, hvalue] at hagain
    rw [hnil]
    show ifNext p yes no ((no []).value ++ []) = _
    rw [hvalue]
    exact hagain
  | cons x text =>
    by_cases hx : p x = true
    · have heq : ifNext p yes no (x :: text) = (yes text).after [x] := if_pos hx
      rw [heq] at hkind hrest ⊢
      show ifNext p yes no (x :: ((yes text).value ++ rest)) = _
      rw [ifNext, if_pos hx, hyes hkind hrest]
      rfl
    · have heq : ifNext p yes no (x :: text) = no (x :: text) := if_neg hx
      rw [heq] at hkind hrest ⊢
      have hagain := hno hkind hrest
      -- whatever stands in front now is the character that was not taken
      have hhead := hrest.append (no (x :: text)).value
      rw [(hdivides (x :: text)).text] at hhead
      cases htext : (no (x :: text)).value ++ rest with
      | nil =>
        rw [htext] at hagain
        exact hagain
      | cons y more =>
        rw [htext] at hagain hhead
        obtain rfl : x = y := Option.some.inj (hhead y rfl)
        rw [ifNext, if_neg hx]
        exact hagain

/-! ## §3. Words and numbers. -/

theorem local_word (p : Char → Bool) : Local (word p) :=
  local_run (divides_stop (by decide)) (local_stop _)

theorem local_hex : Local hex := local_run1 (divides_stop (by decide)) (local_stop _)

theorem local_exponent : Local exponent := by
  have hdigits : Local exponentDigits := local_run1 (divides_stop (by decide)) (local_stop _)
  have hsign : Local exponentSign := local_ifNext divides_exponentDigits hdigits hdigits
  exact local_ifNext (divides_stop (by decide)) hsign (local_stop _)

theorem local_fraction : Local fraction := local_run1 divides_exponent local_exponent

theorem divides_decimalTail (text : List Char) :
    (ifNext (fun x => x == '.') fraction exponent text).Divides text :=
  divides_ifNext divides_fraction divides_exponent text

theorem local_decimal : Local decimal :=
  local_run divides_decimalTail (local_ifNext divides_exponent local_fraction local_exponent)

/-- Whether the character marks a hexadecimal number. -/
def isHexMarker (x : Char) : Bool := x == 'x' || x == 'X'

theorem number_of_not_marked {c : Char}
    (h : ∀ x ∈ (text.dropWhile Char.isDigit).head?, isHexMarker x = false) :
    number c text = decimal text := by
  unfold number
  split
  · rfl
  · rename_i m rest hrest
    rw [hrest] at h
    have hm : (m == 'x' || m == 'X') = false := h m rfl
    rw [hm]
    rfl

/-- A marker behind a single zero. -/
theorem number_of_marked {m : Char} (hm : isHexMarker m = true) (text : List Char) :
    number '0' (m :: text) = (hex text).after [m] := by
  have hmark : (m == 'x' || m == 'X') = true := hm
  have hdigit : ¬ m.isDigit = true := by
    rcases (Bool.or_eq_true _ _).mp hmark with h | h <;> rw [eq_of_beq h] <;> decide
  unfold number
  rw [List.dropWhile_cons_of_neg hdigit]
  simp only [hmark, if_true, List.takeWhile_cons_of_neg hdigit]

theorem local_number (c : Char) : Local (number c) := by
  intro text kind hkind rest hrest
  by_cases hmark : ∀ x ∈ (text.dropWhile Char.isDigit).head?, isHexMarker x = false
  · have heq := number_of_not_marked (c := c) hmark
    rw [heq] at hkind hrest ⊢
    obtain ⟨-, hdrop⟩ := run_append (divides_decimalTail _) hrest
    have hmark' : ∀ x ∈ (((decimal text).value ++ rest).dropWhile Char.isDigit).head?,
        isHexMarker x = false := by
      unfold decimal
      rw [hdrop]
      refine (hrest.append _).not_of ?_
      show ∀ x ∈ ((ifNext _ fraction exponent (text.dropWhile Char.isDigit)).value
        ++ (ifNext _ fraction exponent (text.dropWhile Char.isDigit)).rest).head?, _
      rw [(divides_decimalTail _).text]
      exact hmark
    rw [number_of_not_marked hmark']
    exact local_decimal hkind hrest
  · -- the marker follows a single zero, for otherwise there is no token
    obtain ⟨m, hm, hmarked⟩ : ∃ m ∈ (text.dropWhile Char.isDigit).head?, isHexMarker m = true := by
      simpa using hmark
    obtain ⟨more, hdrop⟩ := List.head?_eq_some_iff.mp (Option.mem_def.mp hm)
    have hzero : c :: text.takeWhile Char.isDigit = ['0'] := by
      by_contra hzero
      have hmark' : (m == 'x' || m == 'X') = true := hmarked
      unfold number at hkind
      rw [hdrop] at hkind
      simp only [hmark', if_true, if_neg hzero] at hkind
      cases hkind
    obtain ⟨rfl, hdigits⟩ := List.cons.inj hzero
    obtain rfl : text = m :: more := by
      have hsplit := List.takeWhile_append_dropWhile (p := Char.isDigit) (l := text)
      rw [hdigits, hdrop] at hsplit
      exact hsplit.symm
    rw [number_of_marked hmarked] at hkind hrest ⊢
    show number '0' (m :: ((hex more).value ++ rest)) = _
    rw [number_of_marked hmarked, local_hex hkind hrest]
    rfl

/-! ## §4. Strings. -/

theorem string_cons (c : Char) (text : List Char) :
    string (c :: text) =
      if c == '"' then (stop .string text).after [c]
      else if c == '\\' then
        match text with
        | [] => (wrong .unterminatedString []).after [c]
        | e :: text => (string text).after [c, e]
      else (string text).after [c] :=
  string.eq_def (c :: text)

theorem local_string : Local string := by
  intro text
  fun_induction string text with
  | case1 => exact fun _ hkind => by cases hkind
  | case2 c text hc =>
    intro kind hkind rest hrest
    show string (c :: rest) = _
    rw [string_cons, if_pos hc]
    rfl
  | case3 c hc hslash => exact fun _ hkind => by cases hkind
  | case4 c hc hslash e text ih =>
    intro kind hkind rest hrest
    show string (c :: e :: ((string text).value ++ rest)) = _
    rw [string_cons, if_neg hc, if_pos hslash]
    dsimp only
    rw [ih hkind hrest]
    rfl
  | case5 c text hc hslash ih =>
    intro kind hkind rest hrest
    show string (c :: ((string text).value ++ rest)) = _
    rw [string_cons, if_neg hc, if_neg hslash, ih hkind hrest]
    rfl

/-- The first two characters of a text are those of every text that starts like it behind some
character. -/
theorem pair_of_startsLike {value rest' more : List Char} {a b : Char} (hvalue : value ≠ [])
    (h : StartsLike rest' rest) (hpair : value ++ rest' = a :: b :: more) :
    ∃ more', value ++ rest = a :: b :: more' := by
  cases value with
  | nil => exact absurd rfl hvalue
  | cons x value =>
    obtain ⟨rfl, hmore⟩ := List.cons.inj hpair
    cases value with
    | nil =>
      obtain rfl : rest' = b :: more := hmore
      obtain ⟨more', hrest⟩ := List.head?_eq_some_iff.mp (Option.mem_def.mp (h b rfl))
      exact ⟨more', by rw [hrest]; rfl⟩
    | cons y value =>
      obtain ⟨rfl, -⟩ := List.cons.inj hmore
      exact ⟨value ++ rest, rfl⟩

theorem string_value_ne_nil {kind : TokenKind} (h : (string text).outcome = .ok kind) :
    (string text).value ≠ [] := by
  fun_cases string text with
  | case1 => cases h
  | case2 | case3 | case4 | case5 => exact List.cons_ne_nil _ _

theorem triQuote_value_ne_nil {kind : TokenKind} (h : (triQuote text).outcome = .ok kind) :
    (triQuote text).value ≠ [] := by
  fun_cases triQuote text with
  | case1 | case3 => exact List.cons_ne_nil _ _
  | case2 => cases h

theorem local_triQuote : Local triQuote := by
  intro text
  fun_induction triQuote text with
  | case1 text => exact fun _ _ _ _ => rfl
  | case2 => exact fun _ hkind => by cases hkind
  | case3 c text hquotes ih =>
    intro kind hkind rest hrest
    show triQuote (c :: ((triQuote text).value ++ rest)) = _
    -- the closing quotes do not stand here: they are found behind
    have hquotes' : ∀ more, c = '"' →
        (triQuote text).value ++ rest = '"' :: '"' :: more → False := by
      intro more hc hmore
      obtain ⟨more', htext⟩ := pair_of_startsLike (triQuote_value_ne_nil hkind) hrest hmore
      exact hquotes more' hc ((divides_triQuote text).text.symm.trans htext)
    rw [triQuote.eq_3 _ _ hquotes', ih hkind hrest]
    rfl

theorem local_quote : Local quote := by
  intro text kind hkind rest hrest
  revert hkind hrest
  fun_cases quote text with
  | case1 text =>
    intro hkind hrest
    show (triQuote ((triQuote text).value ++ rest)).after ['"', '"'] = _
    rw [local_triQuote hkind hrest]
    rfl
  | case2 text hquotes =>
    intro hkind hrest
    have hquotes' : ∀ more, (string text).value ++ rest = '"' :: '"' :: more → False := by
      intro more hmore
      obtain ⟨more', htext⟩ := pair_of_startsLike (string_value_ne_nil hkind) hrest hmore
      exact hquotes more' ((divides_string text).text.symm.trans htext)
    rw [quote.eq_2 _ hquotes', local_string hkind hrest]

/-! ## §5. One token. -/

theorem local_point : Local point := by
  intro text kind hkind rest hrest
  have hhead := hrest.append (point text).value
  rw [(divides_point text).text] at hhead
  cases text with
  | nil =>
    have hword : word isWordChar ((point []).value ++ rest) = _ := local_word isWordChar hkind hrest
    rw [hhead.eq_nil] at hword ⊢
    exact hword
  | cons d text =>
    by_cases hd : d.isDigit = true
    · have heq : point (d :: text) = fraction (d :: text) := if_pos hd
      rw [heq] at hkind hrest hhead ⊢
      have hfraction := local_fraction hkind hrest
      cases hvalue : (fraction (d :: text)).value ++ rest with
      | nil =>
        -- there is no fraction in an empty text
        rw [hvalue] at hfraction
        rw [← congrArg Cut.outcome hfraction] at hkind
        cases hkind
      | cons x more =>
        rw [hvalue] at hfraction hhead
        obtain rfl : d = x := Option.some.inj (hhead x rfl)
        rw [point, if_pos hd]
        exact hfraction
    · have heq : point (d :: text) = word isWordChar (d :: text) := if_neg hd
      rw [heq] at hkind hrest hhead ⊢
      have hword := local_word isWordChar hkind hrest
      cases hvalue : (word isWordChar (d :: text)).value ++ rest with
      | nil =>
        rw [hvalue] at hword
        exact hword
      | cons x more =>
        rw [hvalue] at hword hhead
        obtain rfl : d = x := Option.some.inj (hhead x rfl)
        rw [point, if_neg hd]
        exact hword

theorem local_behind (c : Char) : Local (behind c) := by
  unfold behind
  cases single? c with
  | some kind => exact local_stop kind
  | none =>
    dsimp only
    by_cases hdigit : c.isDigit = true
    · simp only [if_pos hdigit]
      exact local_number c
    simp only [if_neg hdigit]
    by_cases hpoint : (c == '.') = true
    · simp only [if_pos hpoint]
      exact local_point
    simp only [if_neg hpoint]
    by_cases hquote : (c == '"') = true
    · simp only [if_pos hquote]
      exact local_quote
    simp only [if_neg hquote]
    by_cases hword : isWordStart c = true
    · simp only [if_pos hword]
      exact local_word isWordChar
    simp only [if_neg hword]
    by_cases hoperator : isOperator c = true
    · simp only [if_pos hoperator]
      exact local_word isOperator
    simp only [if_neg hoperator]
    exact fun _ _ hkind => by cases hkind

/-- **A token is local.** -/
theorem first_append {c : Char} {kind : TokenKind} (h : (first c text).outcome = .ok kind)
    (hrest : StartsLike rest (first c text).rest) :
    first c ((behind c text).value ++ rest) = { first c text with rest := rest } := by
  unfold first
  rw [local_behind c h hrest]
  rfl

end

end Cut

end Prototalk
