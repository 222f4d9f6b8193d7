/-
  Prototalk.Proofs.Evaluation.Upshot
  ────────────────────────────────
  **WHAT A PART OF A PROGRAM COMES TO.**

  A chain, an operation or an activation is started above a stack of frames
  that wait for it.  It `Comes` to an outcome, a value or a signal, as soon
  as the machine has one and just that stack again; until then it is
  `Above` the stack, which no step touches (`suffix_step`).

  What is started above a frame comes to something at the frame first.  The
  frame then makes of it what it makes of it (`comes_cons_iff`).  Every law
  about a part of a program that is made of parts follows from this.
-/
import Prototalk.Proofs.Evaluation.Depth

namespace Prototalk

/-! ## §1. Outcomes. -/

/-- What a part of a program comes to. -/
inductive Upshot where
  /-- Its result. -/
  | value (v : Ref)
  /-- It is left. -/
  | signal (s : Signal)

namespace Upshot

/-- What a machine does that hands an outcome on. -/
def control : Upshot → Control
  | .value v => .value v
  | .signal s => .unwind s

/-- What an outcome means to a host: a returned value is a result. -/
def toResult : Upshot → Except EvalError Ref
  | .value v => .ok v
  | .signal s => s.toResult

theorem control_injective {o o' : Upshot} (h : o.control = o'.control) : o = o' := by
  cases o <;> cases o' <;> cases h <;> rfl

end Upshot

namespace Machine

variable {stack : List Frame} {frame : Frame} {m : Machine} {i j : Image} {o : Upshot}
  {k l : Nat}

/-! ## §2. What waits below is not touched. -/

theorem suffix_enterBody (i : Image) (b : Binding) (stack : List Frame) :
    stack <:+ (enterBody i b stack).stack := by
  unfold enterBody
  dsimp only
  split
  · exact List.suffix_cons _ _
  · exact List.suffix_rfl

theorem suffix_bindNext (i : Image) (b : Binding) (stack : List Frame) :
    stack <:+ (bindNext i b stack).stack := by
  unfold bindNext
  split
  · exact suffix_enterBody i b stack
  · exact List.suffix_cons _ _
  · exact List.suffix_cons _ _

theorem suffix_enterBlock (i : Image) (block : Ref) (code : Block) (a : Activation)
    (stack : List Frame) : stack <:+ (enterBlock i block code a stack).stack := by
  unfold enterBlock
  split
  · exact List.suffix_rfl
  · exact suffix_bindNext _ _ stack

theorem suffix_meet (i : Image) (d : Demand) (a : Activation) (stack : List Frame) :
    stack <:+ (meet i d a stack).stack := by
  cases d with
  | argument chain locals pending => cases chain <;> exact List.suffix_cons _ _
  | activate block code => exact suffix_enterBlock i block code a stack
  | _ => exact List.suffix_rfl

theorem suffix_activate (i : Image) (slot : Ref) (a : Activation) (stack : List Frame) :
    stack <:+ (activate i slot a stack).stack := by
  unfold activate
  split
  · exact suffix_meet _ _ a stack
  · split
    · exact suffix_enterBlock i slot _ a stack
    · exact List.suffix_rfl
  · exact List.suffix_rfl

theorem suffix_stepWalk (i : Image) (w : Walk) (stack : List Frame) :
    stack <:+ (stepWalk i w stack).stack := by
  unfold stepWalk
  split
  · exact List.suffix_rfl
  · split
    · exact List.suffix_rfl
    · exact List.suffix_rfl
    · exact List.suffix_rfl
    · unfold send
      split
      · exact (List.suffix_cons _ _).trans (suffix_activate ..)
      · exact List.suffix_rfl

theorem suffix_resume (i : Image) (v : Ref) (frame : Frame) (stack : List Frame) :
    stack <:+ (resume i v frame stack).stack := by
  cases frame with
  | native a pending => exact suffix_meet _ _ a stack
  | bind b param => exact suffix_bindNext _ b stack
  | _ => exact List.suffix_rfl

theorem stack_unwind (i : Image) (s : Signal) (frame : Frame) (stack : List Frame) :
    (unwind i s frame stack).stack = stack := by
  cases frame with
  | body scope => cases s <;> rfl
  | _ => rfl

/-! ## §3. Above a stack. -/

/-- The machine has an outcome, and only `stack` waits for it. -/
def Settled (stack : List Frame) (m : Machine) : Prop :=
  m.stack = stack ∧ ∃ o : Upshot, m.control = o.control

/-- Something that was started above `stack` is not yet finished. -/
def Above (stack : List Frame) (m : Machine) : Prop := stack <:+ m.stack ∧ ¬ m.Settled stack

theorem above_of_suffix_cons (h : frame :: stack <:+ m.stack) : m.Above stack := by
  refine ⟨(List.suffix_cons _ _).trans h, fun hsettled => ?_⟩
  have hle := h.length_le
  rw [hsettled.1, List.length_cons] at hle
  omega

theorem not_above_settled (o : Upshot) : ¬ Above stack ⟨i, o.control, stack⟩ :=
  fun h => h.2 ⟨rfl, o, rfl⟩

/-- A frame waits for an outcome above `stack`. -/
theorem Above.exists_cons (o : Upshot) {frames : List Frame}
    (h : Above stack ⟨i, o.control, frames⟩) :
    ∃ frame rest, frames = frame :: rest ∧ stack <:+ rest := by
  obtain ⟨hsuffix, hsettled⟩ := h
  cases frames with
  | nil => exact absurd ⟨(List.suffix_nil.mp hsuffix).symm, o, rfl⟩ hsettled
  | cons frame rest =>
    obtain heq | hrest := List.suffix_cons_iff.mp hsuffix
    · exact absurd ⟨heq.symm, o, rfl⟩ hsettled
    · exact ⟨frame, rest, rfl, hrest⟩

/-- **A step does not touch what waits below.** -/
theorem Above.suffix_step (h : m.Above stack) : stack <:+ m.step.stack := by
  obtain ⟨i, control, frames⟩ := m
  cases control with
  | walk w => exact h.1.trans (suffix_stepWalk i w frames)
  | value v =>
    obtain ⟨frame, rest, rfl, hrest⟩ := Above.exists_cons (.value v) h
    exact hrest.trans (suffix_resume i v frame rest)
  | unwind s =>
    obtain ⟨frame, rest, rfl, hrest⟩ := Above.exists_cons (.signal s) h
    show stack <:+ (unwind i s frame rest).stack
    rw [stack_unwind]
    exact hrest

/-! ## §4. Coming to an outcome. -/

/-- The machine is `n` after `k` steps, and was above `stack` before. -/
structure Passes (stack : List Frame) (m : Machine) (k : Nat) (n : Machine) : Prop where
  last : step^[k] m = n
  above : ∀ l < k, (step^[l] m).Above stack

/-- After `k` steps the machine comes to the outcome `o` in the image `j`. -/
def Comes (stack : List Frame) (m : Machine) (k : Nat) (j : Image) (o : Upshot) : Prop :=
  Passes stack m k ⟨j, o.control, stack⟩

namespace Passes

variable {n p : Machine}

theorem refl (stack : List Frame) (m : Machine) : Passes stack m 0 m :=
  ⟨rfl, fun _ hl => absurd hl (Nat.not_lt_zero _)⟩

theorem trans (h : Passes stack m k n) (h' : Passes stack n l p) : Passes stack m (k + l) p := by
  obtain ⟨rfl, habove⟩ := h
  refine ⟨?_, fun d hd => ?_⟩
  · rw [Nat.add_comm, Function.iterate_add_apply]
    exact h'.last
  · by_cases hdk : d < k
    · exact habove d hdk
    · obtain ⟨e, rfl⟩ := Nat.exists_eq_add_of_le (Nat.le_of_not_lt hdk)
      rw [Nat.add_comm, Function.iterate_add_apply]
      exact h'.above e (by omega)

theorem step (h : m.Above stack) : Passes stack m 1 m.step :=
  ⟨rfl, fun l hl => by rwa [Nat.lt_one_iff.mp hl]⟩

end Passes

namespace Comes

theorem here (j : Image) (o : Upshot) (stack : List Frame) :
    Comes stack ⟨j, o.control, stack⟩ 0 j o :=
  Passes.refl stack _

/-- There is one outcome at most. -/
theorem unique {k' : Nat} {j' : Image} {o' : Upshot} (h : Comes stack m k j o)
    (h' : Comes stack m k' j' o') : k' = k ∧ j' = j ∧ o' = o := by
  have hk : k' = k := by
    obtain hlt | heq | hlt := Nat.lt_trichotomy k k'
    · have habove := h'.above k hlt
      rw [h.last] at habove
      exact absurd habove (not_above_settled o)
    · exact heq.symm
    · have habove := h.above k' hlt
      rw [h'.last] at habove
      exact absurd habove (not_above_settled o')
  subst hk
  have hlast := h.last.symm.trans h'.last
  simp only [Machine.mk.injEq] at hlast
  exact ⟨rfl, hlast.1.symm, (Upshot.control_injective hlast.2.1).symm⟩

theorem value_iff {v : Ref} :
    Comes stack ⟨i, .value v, stack⟩ k j o ↔ k = 0 ∧ j = i ∧ o = .value v := by
  constructor
  · exact (here i (.value v) stack).unique
  · rintro ⟨rfl, rfl, rfl⟩
    exact here _ (.value v) stack

theorem unwind_iff {s : Signal} :
    Comes stack ⟨i, .unwind s, stack⟩ k j o ↔ k = 0 ∧ j = i ∧ o = .signal s := by
  constructor
  · exact (here i (.signal s) stack).unique
  · rintro ⟨rfl, rfl, rfl⟩
    exact here _ (.signal s) stack

/-- One step, then the rest. -/
theorem step_iff (habove : m.Above stack) :
    Comes stack m k j o ↔ ∃ l, Comes stack m.step l j o ∧ k = l + 1 := by
  constructor
  · intro h
    cases k with
    | zero =>
      rw [show m = ⟨j, o.control, stack⟩ from h.last] at habove
      exact absurd habove (not_above_settled o)
    | succ l => exact ⟨l, ⟨h.last, fun n hn => h.above (n + 1) (Nat.succ_lt_succ hn)⟩, rfl⟩
  · rintro ⟨l, h, rfl⟩
    rw [Nat.add_comm]
    exact (Passes.step habove).trans h

/-- What has come to something at a frame is handed to the frame. -/
theorem passes (h : Comes (frame :: stack) m k i o) :
    Passes stack m (k + 1) (Machine.step ⟨i, o.control, frame :: stack⟩) := by
  refine ⟨?_, fun l hl => ?_⟩
  · rw [Function.iterate_succ_apply', h.last]
  · obtain hlt | rfl := Nat.lt_succ_iff_lt_or_eq.mp hl
    · exact above_of_suffix_cons (h.above l hlt).1
    · rw [h.last]
      exact above_of_suffix_cons List.suffix_rfl

/-- What is started above a frame comes to something at the frame first. -/
theorem exists_cons (hframe : frame :: stack <:+ m.stack) (h : Comes stack m k j o) :
    ∃ n i p, Comes (frame :: stack) m n i p ∧ n < k := by
  classical
  -- at its end the machine is no longer above the frame, and when it stops being so it comes there
  have hend : ¬ (Machine.step^[k] m).Above (frame :: stack) := by
    rw [h.last]
    intro habove
    have hle := habove.1.length_le
    rw [List.length_cons] at hle
    exact Nat.lt_irrefl _ hle
  have hexists : ∃ n, ¬ (Machine.step^[n] m).Above (frame :: stack) := ⟨k, hend⟩
  obtain ⟨n, hn, hfirst⟩ := Nat.findX hexists
  have hbefore (l : Nat) (hl : l < n) : (Machine.step^[l] m).Above (frame :: stack) :=
    not_not.mp (hfirst l hl)
  have hsuffix : frame :: stack <:+ (Machine.step^[n] m).stack := by
    cases n with
    | zero => exact hframe
    | succ l =>
      rw [Function.iterate_succ_apply']
      exact (hbefore l (Nat.lt_succ_self l)).suffix_step
  obtain ⟨hstack, p, hp⟩ : (Machine.step^[n] m).Settled (frame :: stack) := by
    by_contra hsettled
    exact hn ⟨hsuffix, hsettled⟩
  have hlast : Machine.step^[n] m
      = ⟨(Machine.step^[n] m).image, p.control, frame :: stack⟩ := by
    rw [← hstack, ← hp]
  refine ⟨n, _, p, ⟨hlast, hbefore⟩, ?_⟩
  -- the end comes later, since the frame still waits
  by_contra hle
  obtain hlt | rfl := Nat.lt_or_eq_of_le (Nat.not_lt.mp hle)
  · exact hend (hbefore k hlt)
  · rw [h.last] at hstack
    exact List.cons_ne_self frame stack hstack.symm

end Comes

/-- **What is started above a frame comes to something at the frame, and the frame goes on with
that.** -/
theorem comes_cons_iff (hframe : frame :: stack <:+ m.stack) :
    Comes stack m k j o ↔ ∃ n i p l, Comes (frame :: stack) m n i p
      ∧ Comes stack (step ⟨i, p.control, frame :: stack⟩) l j o ∧ k = n + 1 + l := by
  constructor
  · intro h
    obtain ⟨n, i, p, hfirst, hlt⟩ := h.exists_cons hframe
    obtain ⟨l, rfl⟩ := Nat.exists_eq_add_of_le hlt
    refine ⟨n, i, p, l, hfirst, ⟨?_, fun d hd => ?_⟩, rfl⟩
    · rw [← hfirst.passes.last, ← Function.iterate_add_apply, Nat.add_comm l]
      exact h.last
    · rw [← hfirst.passes.last, ← Function.iterate_add_apply]
      exact h.above _ (by omega)
  · rintro ⟨n, i, p, l, hfirst, hrest, rfl⟩
    exact hfirst.passes.trans hrest

end Machine

end Prototalk
