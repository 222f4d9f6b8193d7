/-
  Prototalk.Proofs.Token.Requests
  ────────────────────────────────
  **TOKENS ON REQUEST.**

  The tokens of a lexer are what asking it for the next token gives, one
  after the other (`Lexer.tokens_of_next`).  Asking for more tokens than
  there are gives all of them and then nothing, however often
  (`Lexer.pulls_tokens`).
-/
import Prototalk.Token.Lexer

namespace Prototalk.Lexer

variable {l l' : Lexer} {t : Token}

/-- Induction along the requests for a token. -/
@[elab_as_elim]
theorem requestInduction {motive : Lexer → Prop}
    (token : ∀ l t l', l.next = (some t, l') → motive l' → motive l)
    (stop : ∀ l l', l.next = (none, l') → motive l) (l : Lexer) : motive l := by
  induction hn : l.remaining using Nat.strongRecOn generalizing l with
  | ind n ih =>
    cases hnext : l.next with
    | mk found l' =>
      cases found with
      | some t => exact token l t l' hnext (ih _ (hn ▸ remaining_next_lt hnext) l' rfl)
      | none => exact stop l l' hnext

theorem drain_of_next (h : l.next = (some t, l')) (given : List Token) :
    l.drain given = l'.drain (t :: given) := by
  rw [drain]
  split <;> rename_i hnext <;> rw [h] at hnext <;> cases hnext
  rfl

theorem drain_of_next_none (h : l.next = (none, l')) (given : List Token) :
    l.drain given = given.reverse := by
  rw [drain]
  split
  · rename_i hnext
    rw [h] at hnext
    cases hnext
  · rfl

/-- Tokens already given stand in front of those that are left. -/
theorem drain_eq_append (l : Lexer) (given : List Token) :
    l.drain given = given.reverse ++ l.tokens := by
  unfold tokens
  induction l using requestInduction generalizing given with
  | token l t l' hnext ih =>
    rw [drain_of_next hnext, drain_of_next hnext, ih (t :: given), ih [t]]
    simp
  | stop l l' hnext =>
    rw [drain_of_next_none hnext, drain_of_next_none hnext]
    simp

theorem tokens_of_next (h : l.next = (some t, l')) : l.tokens = t :: l'.tokens :=
  (drain_of_next h []).trans (drain_eq_append l' [t])

theorem tokens_of_next_none (h : l.next = (none, l')) : l.tokens = [] :=
  drain_of_next_none h []

theorem next_of_done (h : l.done = true) : l.next = (none, l) := by
  rw [next, if_pos h]

/-- A lexer that has no more tokens has stopped. -/
theorem done_of_next_none (h : l.next = (none, l')) : l'.done = true := by
  unfold next at h
  split at h
  · rename_i hdone
    cases h
    exact hdone
  · dsimp only at h
    split at h
    · cases h
    · split at h
      · cases h
      · cases h
        rfl

theorem pulls_of_done (h : l.done = true) (n : Nat) : pulls n l = List.replicate n none := by
  induction n with
  | zero => rfl
  | succ n ih =>
    rw [pulls, next_of_done h, List.replicate_succ]
    exact congrArg (none :: ·) ih

/-- **All tokens, then nothing.** -/
theorem pulls_tokens (l : Lexer) (n : Nat) :
    pulls (l.tokens.length + n) l = l.tokens.map some ++ List.replicate n none := by
  induction l using requestInduction with
  | token l t l' hnext ih =>
    rw [tokens_of_next hnext, List.length_cons, Nat.add_right_comm, pulls, hnext]
    exact congrArg (some t :: ·) ih
  | stop l l' hnext =>
    rw [tokens_of_next_none hnext]
    cases n with
    | zero => rfl
    | succ n =>
      rw [List.length_nil, Nat.zero_add, pulls, hnext]
      exact congrArg (none :: ·) (pulls_of_done (done_of_next_none hnext) n)

end Prototalk.Lexer
