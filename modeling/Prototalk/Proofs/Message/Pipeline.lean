/-
  Prototalk.Proofs.Message.Pipeline
  ────────────────────────────────
  **PARSING BESIDE THE LEXER.**

  `Pipeline` is a parser that takes its tokens from a producer.  The parser
  stops at its first error or at the end of the tokens, and then hangs up.
  The two sides may be scheduled in any way: a run cannot go on for ever,
  and when nothing is left to do the parse has ended as it ends when each
  token is read on request.

  Main results:
    * `Pipeline.sound_run?`  the invariant of all runs,
    * `Pipeline.left_run?`   each move leaves less to do,
    * `pipelined_eq_inline`  no schedule makes a difference.
-/
import Prototalk.Message.Parser
import Prototalk.Proofs.Token.Handoff

namespace Prototalk

/-! ## §1. A parser that takes tokens from a producer. -/

/-- What the consuming side is doing. -/
inductive Consumer where
  /-- Parsing. -/
  | parsing (p : Parser)
  /-- Done, with the outcome and the names known at the end. -/
  | ended (result : Except ParseError (Option Chain)) (names : Interner)

/-- A producer of tokens and a parser. -/
structure Pipeline where
  /-- The tokens on their way. -/
  handoff : Handoff
  /-- The parsing side. -/
  consumer : Consumer

namespace Pipeline

/-- A step of one of the sides, or of both together. -/
inductive Move where
  /-- The producer looks for a token. -/
  | produce
  /-- The parser takes the token that is offered. -/
  | take
  /-- The parser learns that there are no more tokens. -/
  | finish
  /-- The parser, which is done, hangs up. -/
  | hangUp
  /-- The producer finds that the parser is gone. -/
  | giveUp

/-- The start of a parse. -/
def start (names : Interner) (source : Source) : Pipeline :=
  ⟨.ofSource source, .parsing (.new names)⟩

/-- The parser after a token. -/
def feed (p : Parser) (t : Token) : Consumer :=
  match p.step t with
  | .ok p => .parsing p
  | .error e => .ended (.error e) p.names

/-- The state after a move, where the move is possible. -/
def move? (s : Pipeline) : Move → Option Pipeline
  | .produce => (s.handoff.move? .produce).map fun h => { s with handoff := h }
  | .take =>
      match s.consumer, s.handoff.answer with
      | .parsing p, .token t => (s.handoff.move? .deliver).map fun h => ⟨h, feed p t⟩
      | _, _ => none
  | .finish =>
      match s.consumer, s.handoff.answer with
      | .parsing p, .ended => some { s with consumer := .ended p.result p.names }
      | _, _ => none
  | .hangUp =>
      match s.consumer with
      | .parsing _ => none
      | .ended _ _ => (s.handoff.move? .hangUp).map fun h => { s with handoff := h }
  | .giveUp => (s.handoff.move? .giveUp).map fun h => { s with handoff := h }

/-- The state after a run, where each of its moves is possible. -/
def run? (s : Pipeline) (moves : List Move) : Option Pipeline := moves.foldlM move? s

/-- Every way to make a move. -/
inductive Steps : Pipeline → Move → Pipeline → Prop where
  | produce {h h' : Handoff} {consumer : Consumer} (hstep : h.Steps .produce h') :
      Steps ⟨h, consumer⟩ .produce ⟨h', consumer⟩
  | take {h h' : Handoff} {p : Parser} {t : Token} (hanswer : h.answer = .token t)
      (hstep : h.Steps .deliver h') : Steps ⟨h, .parsing p⟩ .take ⟨h', feed p t⟩
  | finish {h : Handoff} {p : Parser} (hanswer : h.answer = .ended) :
      Steps ⟨h, .parsing p⟩ .finish ⟨h, .ended p.result p.names⟩
  | hangUp {h h' : Handoff} {result : Except ParseError (Option Chain)} {names : Interner}
      (hstep : h.Steps .hangUp h') :
      Steps ⟨h, .ended result names⟩ .hangUp ⟨h', .ended result names⟩
  | giveUp {h h' : Handoff} {consumer : Consumer} (hstep : h.Steps .giveUp h') :
      Steps ⟨h, consumer⟩ .giveUp ⟨h', consumer⟩

theorem steps_of_move? {s s' : Pipeline} {m : Move} (hmove : s.move? m = some s') :
    Steps s m s' := by
  obtain ⟨h, consumer⟩ := s
  cases m with
  | produce =>
    obtain ⟨h', hmove', rfl⟩ := Option.map_eq_some_iff.mp hmove
    exact .produce (Handoff.move?_eq_some_iff.mp hmove')
  | take =>
    simp only [move?] at hmove
    split at hmove
    · rename_i hanswer
      obtain ⟨h', hmove', rfl⟩ := Option.map_eq_some_iff.mp hmove
      exact .take hanswer (Handoff.move?_eq_some_iff.mp hmove')
    · cases hmove
  | finish =>
    simp only [move?] at hmove
    split at hmove
    · rename_i hanswer
      cases hmove
      exact .finish hanswer
    · cases hmove
  | hangUp =>
    cases consumer with
    | parsing p => cases hmove
    | ended result names =>
      obtain ⟨h', hmove', rfl⟩ := Option.map_eq_some_iff.mp hmove
      exact .hangUp (Handoff.move?_eq_some_iff.mp hmove')
  | giveUp =>
    obtain ⟨h', hmove', rfl⟩ := Option.map_eq_some_iff.mp hmove
    exact .giveUp (Handoff.move?_eq_some_iff.mp hmove')

/-! ## §2. The parse is the one of the tokens. -/

/-- A parser that is at work has taken the tokens that were handed over and has not hung up; one
that is done has the outcome of the whole source. -/
def Sound (names : Interner) (source : Source) (s : Pipeline) : Prop :=
  (∃ n, s.handoff.Faithful source n) ∧
    match s.consumer with
    | .parsing p => s.handoff.listening = true ∧ ∀ rest,
        (Parser.new names).run (s.handoff.received.reverse ++ rest) = p.run rest
    | .ended result names' =>
        result = (parseTokens names source.tokens).result
          ∧ names' = (parseTokens names source.tokens).names

theorem sound_start (names : Interner) (source : Source) :
    (start names source).Sound names source :=
  ⟨⟨0, Handoff.faithful_ofSource source⟩, rfl, fun _ => rfl⟩

theorem Sound.step {names : Interner} {source : Source} {s s' : Pipeline} {m : Move}
    (hsound : s.Sound names source) (hstep : Steps s m s') : s'.Sound names source := by
  obtain ⟨⟨n, hfaithful⟩, hconsumer⟩ := hsound
  cases hstep with
  | @produce h h' consumer hstep =>
    refine ⟨⟨_, hfaithful.step hstep⟩, ?_⟩
    cases hstep <;> exact hconsumer
  | @take h h' p t hanswer hstep =>
    refine ⟨⟨_, hfaithful.step hstep⟩, ?_⟩
    obtain ⟨-, hrun⟩ := hconsumer
    obtain ⟨rest, hrest⟩ := hfaithful.prefix_of_answer hanswer
    cases hstep
    cases hanswer
    unfold feed
    cases hp : p.step t with
    | ok p' =>
      refine ⟨rfl, fun rest => ?_⟩
      have hnext := hrun (t :: rest)
      rw [Parser.run, hp] at hnext
      simpa using hnext
    | error e =>
      -- the tokens behind the one that is wrong do not matter
      have hall := hrun (t :: rest)
      rw [List.append_assoc, List.singleton_append] at hrest
      rw [hrest, Parser.run, hp] at hall
      exact ⟨(congrArg Parsed.result hall).symm, (congrArg Parsed.names hall).symm⟩
  | @finish h p hanswer =>
    obtain ⟨hlistening, hrun⟩ := hconsumer
    have hall := hrun []
    rw [List.append_nil, hfaithful.eq_of_answer hanswer hlistening] at hall
    exact ⟨⟨n, hfaithful⟩, (congrArg Parsed.result hall).symm, (congrArg Parsed.names hall).symm⟩
  | hangUp hstep => exact ⟨⟨_, hfaithful.step hstep⟩, hconsumer⟩
  | @giveUp h h' consumer hstep =>
    refine ⟨⟨_, hfaithful.step hstep⟩, ?_⟩
    cases hstep
    cases consumer with
    | parsing p => cases hconsumer.1
    | ended result names' => exact hconsumer

/-- **Every run is sound.** -/
theorem sound_run? {names : Interner} {source : Source} {moves : List Move} {s : Pipeline}
    (hrun : (start names source).run? moves = some s) : s.Sound names source := by
  refine foldlM_induction (motive := fun _ s => s.Sound names source) (sound_start names source)
    ?_ hrun
  intro moves m s₁ s₂ hsound hmove
  exact hsound.step (steps_of_move? hmove)

/-! ## §3. Every schedule comes to an end. -/

/-- The most moves that are left to the producer. -/
def producing : Producer → Nat
  | .lexing l => 2 * l.tokens.length + 1
  | .offering _ l => 2 * l.tokens.length + 2
  | .stopped => 0

/-- The most moves that are left to the parser alone: to finish and to hang up. -/
def parting : Consumer → Bool → Nat
  | .parsing _, _ => 2
  | .ended _ _, true => 1
  | .ended _ _, false => 0

/-- The most moves that are left. -/
def left (s : Pipeline) : Nat :=
  producing s.handoff.producer + parting s.consumer s.handoff.listening

theorem producing_step_lt {h h' : Handoff} {m : Handoff.Move} (hstep : h.Steps m h')
    (hm : m ≠ .hangUp) : producing h'.producer < producing h.producer := by
  cases hstep with
  | produce hnext =>
    simp only [producing, Lexer.tokens_of_next hnext, List.length_cons]
    omega
  | finish hnext => simp [producing]
  | deliver => simp [producing]
  | hangUp => exact absurd rfl hm
  | giveUp => simp [producing]

theorem parting_le (consumer : Consumer) (listening : Bool) : parting consumer listening ≤ 2 := by
  cases consumer <;> cases listening <;> simp [parting]

theorem left_step_lt {s s' : Pipeline} {m : Move} (hstep : Steps s m s') : s'.left < s.left := by
  unfold left
  cases hstep with
  | produce hstep =>
    have hlt := producing_step_lt hstep (by decide)
    rw [hstep.listening_eq (by decide)]
    exact Nat.add_lt_add_right hlt _
  | @take h h' p t hanswer hstep =>
    have hlt := producing_step_lt hstep (by decide)
    exact Nat.add_lt_add_of_lt_of_le hlt (parting_le (feed p t) h'.listening)
  | @finish h p hanswer =>
    refine Nat.add_lt_add_left ?_ _
    show parting (.ended p.result p.names) h.listening < 2
    cases h.listening <;> simp [parting]
  | hangUp hstep =>
    cases hstep
    simp [parting]
  | giveUp hstep =>
    have hlt := producing_step_lt hstep (by decide)
    rw [hstep.listening_eq (by decide)]
    exact Nat.add_lt_add_right hlt _

theorem left_run? {names : Interner} {source : Source} {moves : List Move} {s : Pipeline}
    (hrun : (start names source).run? moves = some s) :
    moves.length + s.left ≤ 2 * source.tokens.length + 3 := by
  refine foldlM_induction
    (motive := fun moves s => moves.length + s.left ≤ 2 * source.tokens.length + 3)
    ?_ ?_ hrun
  · rw [List.length_nil, Nat.zero_add]
    exact Nat.le_refl _
  · intro moves m s₁ s₂ hle hmove
    have hlt := left_step_lt (steps_of_move? hmove)
    rw [List.length_append, List.length_singleton]
    omega

/-- When nothing is left to do, the parse has ended and the producer has stopped. -/
theorem ended_of_stuck {names : Interner} {source : Source} {s : Pipeline}
    (hsound : s.Sound names source) (hstuck : ∀ m, s.move? m = none) :
    (∃ result names', s.consumer = .ended result names') ∧ s.handoff.producer = .stopped := by
  obtain ⟨⟨producer, received, listening⟩, consumer⟩ := s
  obtain ⟨-, hconsumer⟩ := hsound
  have hproduce := hstuck .produce
  have htake := hstuck .take
  have hfinish := hstuck .finish
  have hhangUp := hstuck .hangUp
  have hgiveUp := hstuck .giveUp
  cases producer with
  | lexing l =>
    simp only [move?, Handoff.move?] at hproduce
    split at hproduce <;> cases hproduce
  | offering t l =>
    -- a parser takes the token, one that is done hangs up, and the producer sees that
    cases consumer with
    | parsing p =>
      obtain ⟨rfl : listening = true, -⟩ := hconsumer
      cases htake
    | ended result names' =>
      cases listening with
      | true => cases hhangUp
      | false => cases hgiveUp
  | stopped =>
    refine ⟨?_, rfl⟩
    cases consumer with
    | parsing p => cases hfinish
    | ended result names' => exact ⟨result, names', rfl⟩

end Pipeline

/-! ## §4. No schedule makes a difference. -/

/-- **Lexing beside the parser is lexing on request.**  For every schedule: what was handed over is
a prefix of the tokens; the producer is at most one token ahead; without a consumer it stops; the
consumer sees the end only behind the last token; and the parse ends, with the same outcome. -/
theorem pipelined_eq_inline (names : Interner) (source : Source) :
    (∀ moves h, (Handoff.ofSource source).run? moves = some h →
      h.received.reverse <+: source.tokens
        ∧ moves.count .produce ≤ h.received.length + 1
        ∧ (∀ t, h.answer = .token t → h.received.reverse ++ [t] <+: source.tokens)
        ∧ (h.listening = true → h.answer = .ended → h.received.reverse = source.tokens))
    ∧ (∀ before after h, (Handoff.ofSource source).run? (before ++ .hangUp :: after) = some h →
      after.count .produce ≤ 1 ∧ after.length ≤ 2
        ∧ ((∀ m, h.move? m = none) → h.producer = .stopped))
    ∧ (∀ moves s, (Pipeline.start names source).run? moves = some s →
      moves.length ≤ 2 * source.tokens.length + 3
        ∧ (∀ result names', s.consumer = .ended result names' →
          result = (parseSource names .inline source).result
            ∧ names' = (parseSource names .inline source).names)
        ∧ ((∀ m, s.move? m = none) →
          (∃ result names', s.consumer = .ended result names') ∧ s.handoff.producer = .stopped))
    ∧ parseSource names .pipelined source = parseSource names .inline source := by
  refine ⟨fun moves h hrun => ?_, fun before after h => Handoff.stops_after_hangUp,
    fun moves s hrun => ?_, ?_⟩
  · have hfaithful := Handoff.faithful_run? hrun
    exact ⟨hfaithful.received_prefix, hfaithful.requests_le, fun t => hfaithful.prefix_of_answer,
      fun hlistening hanswer => hfaithful.eq_of_answer hanswer hlistening⟩
  · have hsound := Pipeline.sound_run? hrun
    refine ⟨Nat.le_trans (Nat.le_add_right ..) (Pipeline.left_run? hrun), ?_,
      Pipeline.ended_of_stuck hsound⟩
    intro result names' hended
    obtain ⟨-, hconsumer⟩ := hsound
    rw [hended] at hconsumer
    exact hconsumer
  · unfold parseSource
    rw [source.tokensBy_eq, source.tokensBy_eq]

end Prototalk
