/-
  Prototalk.Proofs.Token.Handoff
  ────────────────────────────────
  **NO SCHEDULE LOSES A TOKEN.**

  A producer and a consumer of tokens make their moves in any order.  After
  every run the tokens that were handed over, the one that is offered and
  those that the lexer still has are the tokens of the source, in order
  (`Faithful`); the producer has asked its lexer at most once more than
  tokens were handed over.

  Main results:
    * `faithful_run?`       the invariant of all runs,
    * `stops_after_hangUp`  a producer without a consumer stops,
    * `handedOver_eq`       a consumer that takes everything gets all tokens.
-/
import Mathlib.Data.List.Induction
import Prototalk.Proofs.Token.Requests
import Prototalk.Token.Handoff

namespace Prototalk

/-- What the moves so far made true, every move keeps true. -/
theorem foldlM_induction {σ μ : Type} {move? : σ → μ → Option σ} {motive : List μ → σ → Prop}
    {s : σ} (start : motive [] s)
    (step : ∀ moves m s₁ s₂, motive moves s₁ → move? s₁ m = some s₂ → motive (moves ++ [m]) s₂)
    {moves : List μ} {s' : σ} (hrun : moves.foldlM move? s = some s') : motive moves s' := by
  induction moves using List.reverseRecOn generalizing s' with
  | nil =>
    cases hrun
    exact start
  | append_singleton moves m ih =>
    rw [List.foldlM_append] at hrun
    obtain ⟨s₁, hrun₁, hlast⟩ := Option.bind_eq_some_iff.mp hrun
    refine step moves m s₁ s' (ih hrun₁) ?_
    simpa using hlast

namespace Handoff

deriving instance DecidableEq for Move

/-! ## §1. Moves, runs and answers. -/

/-- The state after a run, where each of its moves is possible. -/
def run? (h : Handoff) (moves : List Move) : Option Handoff := moves.foldlM move? h

theorem run?_cons {h h' : Handoff} {m : Move} {moves : List Move} :
    h.run? (m :: moves) = some h' ↔ ∃ h₁, h.move? m = some h₁ ∧ h₁.run? moves = some h' := by
  unfold run?
  rw [List.foldlM_cons]
  exact Option.bind_eq_some_iff

/-- What a consumer that asks for a token gets. -/
inductive Answer where
  /-- It has to wait. -/
  | waits
  /-- The token that is offered. -/
  | token (t : Token)
  /-- There are no more tokens. -/
  | ended

/-- The answer to a consumer. -/
def answer (h : Handoff) : Answer :=
  match h.producer with
  | .lexing _ => .waits
  | .offering t _ => .token t
  | .stopped => .ended

/-- Every way to make a move. -/
inductive Steps : Handoff → Move → Handoff → Prop where
  | produce {l l' : Lexer} {t : Token} {received : List Token} {listening : Bool}
      (hnext : l.next = (some t, l')) :
      Steps ⟨.lexing l, received, listening⟩ .produce ⟨.offering t l', received, listening⟩
  | finish {l l' : Lexer} {received : List Token} {listening : Bool}
      (hnext : l.next = (none, l')) :
      Steps ⟨.lexing l, received, listening⟩ .produce ⟨.stopped, received, listening⟩
  | deliver {l : Lexer} {t : Token} {received : List Token} :
      Steps ⟨.offering t l, received, true⟩ .deliver ⟨.lexing l, t :: received, true⟩
  | hangUp {producer : Producer} {received : List Token} :
      Steps ⟨producer, received, true⟩ .hangUp ⟨producer, received, false⟩
  | giveUp {l : Lexer} {t : Token} {received : List Token} :
      Steps ⟨.offering t l, received, false⟩ .giveUp ⟨.stopped, received, false⟩

theorem move?_eq_some_iff {h h' : Handoff} {m : Move} : h.move? m = some h' ↔ Steps h m h' := by
  constructor
  · intro hmove
    obtain ⟨producer, received, listening⟩ := h
    cases m with
    | produce =>
      cases producer with
      | lexing l =>
        simp only [move?] at hmove
        split at hmove
        · rename_i hnext
          cases hmove
          exact .produce hnext
        · rename_i hnext
          cases hmove
          exact .finish hnext
      | offering t l => cases hmove
      | stopped => cases hmove
    | deliver =>
      cases producer <;> cases listening <;> cases hmove
      exact .deliver
    | hangUp =>
      cases listening <;> cases hmove
      exact .hangUp
    | giveUp =>
      cases producer <;> cases listening <;> cases hmove
      exact .giveUp
  · rintro (hnext | hnext | _ | _ | _)
    · simp [move?, hnext]
    · simp [move?, hnext]
    · rfl
    · rfl
    · rfl

theorem Steps.listening_eq {h h' : Handoff} {m : Move} (hstep : Steps h m h') (hm : m ≠ .hangUp) :
    h'.listening = h.listening := by
  cases hstep with
  | produce hnext => rfl
  | finish hnext => rfl
  | deliver => rfl
  | hangUp => exact absurd rfl hm
  | giveUp => rfl

/-! ## §2. The invariant of all runs. -/

/-- Tokens that were handed over, offered and not yet found are the tokens of the source; the lexer
was asked `requests` times. -/
def Faithful (source : Source) (requests : Nat) (h : Handoff) : Prop :=
  match h.producer with
  | .lexing l => h.received.reverse ++ l.tokens = source.tokens ∧ requests = h.received.length
  | .offering t l =>
      h.received.reverse ++ t :: l.tokens = source.tokens ∧ requests = h.received.length + 1
  | .stopped =>
      h.received.reverse <+: source.tokens ∧ requests ≤ h.received.length + 1
        ∧ (h.listening = true → h.received.reverse = source.tokens)

theorem faithful_ofSource (source : Source) : (ofSource source).Faithful source 0 :=
  ⟨rfl, rfl⟩

theorem Faithful.step {source : Source} {n : Nat} {h h' : Handoff} {m : Move}
    (hfaithful : h.Faithful source n) (hstep : Steps h m h') :
    h'.Faithful source (n + [m].count .produce) := by
  cases hstep with
  | produce hnext =>
    obtain ⟨htokens, hrequests⟩ := hfaithful
    rw [Lexer.tokens_of_next hnext] at htokens
    exact ⟨htokens, by simp [hrequests]⟩
  | finish hnext =>
    obtain ⟨htokens, hrequests⟩ := hfaithful
    rw [Lexer.tokens_of_next_none hnext, List.append_nil] at htokens
    exact ⟨htokens ▸ List.prefix_refl _, by simp [hrequests], fun _ => htokens⟩
  | deliver =>
    obtain ⟨htokens, hrequests⟩ := hfaithful
    refine ⟨?_, by simp [hrequests]⟩
    simpa using htokens
  | @hangUp producer received =>
    -- hanging up takes nothing away but the promise that all tokens arrive
    cases producer with
    | lexing l => exact hfaithful
    | offering t l => exact hfaithful
    | stopped => exact ⟨hfaithful.1, hfaithful.2.1, nofun⟩
  | giveUp =>
    obtain ⟨htokens, hrequests⟩ := hfaithful
    exact ⟨⟨_, htokens⟩, by simp [hrequests], nofun⟩

/-- **Every run is faithful.** -/
theorem faithful_run? {source : Source} {moves : List Move} {h : Handoff}
    (hrun : (ofSource source).run? moves = some h) :
    h.Faithful source (moves.count .produce) := by
  refine foldlM_induction (motive := fun moves h => h.Faithful source (moves.count .produce))
    (faithful_ofSource source) ?_ hrun
  intro moves m h₁ h₂ hfaithful hmove
  rw [List.count_append]
  exact hfaithful.step (move?_eq_some_iff.mp hmove)

theorem Faithful.received_prefix {source : Source} {h : Handoff} {n : Nat}
    (hfaithful : h.Faithful source n) : h.received.reverse <+: source.tokens := by
  obtain ⟨producer, received, listening⟩ := h
  cases producer with
  | lexing l => exact ⟨_, hfaithful.1⟩
  | offering t l => exact ⟨_, hfaithful.1⟩
  | stopped => exact hfaithful.1

theorem Faithful.requests_le {source : Source} {h : Handoff} {n : Nat}
    (hfaithful : h.Faithful source n) : n ≤ h.received.length + 1 := by
  obtain ⟨producer, received, listening⟩ := h
  cases producer with
  | lexing l => exact Nat.le_succ_of_le (Nat.le_of_eq hfaithful.2)
  | offering t l => exact Nat.le_of_eq hfaithful.2
  | stopped => exact hfaithful.2.1

theorem Faithful.prefix_of_answer {source : Source} {h : Handoff} {n : Nat} {t : Token}
    (hfaithful : h.Faithful source n) (hanswer : h.answer = .token t) :
    h.received.reverse ++ [t] <+: source.tokens := by
  obtain ⟨producer, received, listening⟩ := h
  cases producer with
  | offering t' l =>
    cases hanswer
    exact ⟨l.tokens, by simpa using hfaithful.1⟩
  | lexing l | stopped => cases hanswer

theorem Faithful.eq_of_answer {source : Source} {h : Handoff} {n : Nat}
    (hfaithful : h.Faithful source n) (hanswer : h.answer = .ended)
    (hlistening : h.listening = true) : h.received.reverse = source.tokens := by
  obtain ⟨producer, received, listening⟩ := h
  cases producer with
  | stopped => exact hfaithful.2.2 hlistening
  | lexing l | offering t l => cases hanswer

/-! ## §3. After the consumer has hung up. -/

/-- The most moves that a producer without a consumer can make. -/
def movesLeft : Producer → Nat
  | .lexing _ => 2
  | .offering _ _ => 1
  | .stopped => 0

/-- Without a consumer a producer looks for one token at most, offers it and stops. -/
theorem moves_after_hangUp {h h' : Handoff} {moves : List Move} (hgone : h.listening = false)
    (hrun : h.run? moves = some h') :
    moves.length ≤ movesLeft h.producer ∧ moves.count .produce ≤ movesLeft h.producer - 1 := by
  induction moves generalizing h with
  | nil => exact ⟨Nat.zero_le _, Nat.zero_le _⟩
  | cons m moves ih =>
    obtain ⟨h₁, hmove, hrest⟩ := run?_cons.mp hrun
    cases move?_eq_some_iff.mp hmove with
    | produce hnext =>
      have := ih (h := ⟨.offering _ _, _, _⟩) hgone hrest
      simp only [movesLeft, List.length_cons, List.count_cons_self] at this ⊢
      omega
    | finish hnext =>
      have := ih (h := ⟨.stopped, _, _⟩) hgone hrest
      simp only [movesLeft, List.length_cons, List.count_cons_self] at this ⊢
      omega
    | deliver => cases hgone
    | hangUp => cases hgone
    | giveUp =>
      have := ih rfl hrest
      simp only [movesLeft, List.length_cons] at this ⊢
      rw [List.count_cons_of_ne (by decide)]
      omega

/-- Only a producer that has stopped leaves nothing to do. -/
theorem stopped_of_stuck {h : Handoff} (hgone : h.listening = false)
    (hstuck : ∀ m, h.move? m = none) : h.producer = .stopped := by
  obtain ⟨producer, received, listening⟩ := h
  cases producer with
  | stopped => rfl
  | lexing l =>
    have hproduce := hstuck .produce
    simp only [move?] at hproduce
    split at hproduce <;> cases hproduce
  | offering t l =>
    have hgiveUp := hstuck .giveUp
    obtain rfl : listening = false := hgone
    cases hgiveUp

/-- Nobody comes back after hanging up. -/
theorem listening_of_run? {h h' : Handoff} {moves : List Move} (hgone : h.listening = false)
    (hrun : h.run? moves = some h') : h'.listening = false := by
  refine foldlM_induction (motive := fun _ h => h.listening = false) hgone ?_ hrun
  intro moves m h₁ h₂ hgone hmove
  cases move?_eq_some_iff.mp hmove with
  | produce hnext => exact hgone
  | finish hnext => exact hgone
  | deliver => cases hgone
  | hangUp => rfl
  | giveUp => rfl

/-- **A producer without a consumer stops.** -/
theorem stops_after_hangUp {h h' : Handoff} {before after : List Move}
    (hrun : h.run? (before ++ .hangUp :: after) = some h') :
    after.count .produce ≤ 1 ∧ after.length ≤ 2
      ∧ ((∀ m, h'.move? m = none) → h'.producer = .stopped) := by
  unfold run? at hrun
  rw [List.foldlM_append] at hrun
  obtain ⟨h₁, -, hafter⟩ := Option.bind_eq_some_iff.mp hrun
  obtain ⟨h₂, hmove, hafter⟩ := run?_cons.mp hafter
  have hgone : h₂.listening = false := by
    cases move?_eq_some_iff.mp hmove
    rfl
  obtain ⟨hlength, hcount⟩ := moves_after_hangUp hgone hafter
  have hleft : movesLeft h₂.producer ≤ 2 := by
    cases h₂.producer <;> simp [movesLeft]
  exact ⟨by omega, by omega, stopped_of_stuck (listening_of_run? hgone hafter)⟩

/-! ## §4. The run in which everything is taken. -/

/-- A turn is a move that does not hang up. -/
theorem move_of_turn? {h h' : Handoff} (hturn : h.turn? = some h') :
    ∃ m, m ≠ .hangUp ∧ h.move? m = some h' := by
  unfold turn? at hturn
  split at hturn
  · exact ⟨.produce, by decide, hturn⟩
  · exact ⟨.deliver, by decide, hturn⟩
  · cases hturn

/-- Taking everything is one of the runs, and it ends where the producer has stopped. -/
theorem drain_run? {h : Handoff} (hlistening : h.listening = true) :
    ∃ moves, h.run? moves = some h.drain ∧ h.drain.answer = .ended ∧ h.drain.listening = true := by
  fun_induction drain h with
  | case1 h h' hturn ih =>
    obtain ⟨m, hm, hmove⟩ := move_of_turn? hturn
    have hlistening' := ((move?_eq_some_iff.mp hmove).listening_eq hm).trans hlistening
    obtain ⟨moves, hrun, hend⟩ := ih hlistening'
    exact ⟨m :: moves, run?_cons.mpr ⟨h', hmove, hrun⟩, hend⟩
  | case2 h hturn =>
    refine ⟨[], rfl, ?_, hlistening⟩
    obtain ⟨producer, received, listening⟩ := h
    obtain rfl : listening = true := hlistening
    cases producer with
    | stopped => rfl
    | lexing l =>
      simp only [turn?, move?] at hturn
      split at hturn <;> cases hturn
    | offering t l => cases hturn

end Handoff

/-- **A consumer that takes everything gets all tokens.** -/
theorem Source.handedOver_eq (source : Source) : source.handedOver = source.tokens := by
  obtain ⟨moves, hrun, hanswer, hlistening⟩ := Handoff.drain_run? (h := .ofSource source) rfl
  exact (Handoff.faithful_run? hrun).eq_of_answer hanswer hlistening

theorem Source.tokensBy_eq (source : Source) (mode : LexMode) :
    source.tokensBy mode = source.tokens := by
  cases mode with
  | inline => rfl
  | pipelined => exact source.handedOver_eq

end Prototalk
