/-
  Prototalk.Proofs.Evaluation.Endless
  ────────────────────────────────
  **A PROGRAM CAN GO ON FOREVER WITHOUT ANY ACTIVATION.**

  A call that is kept can be asked for its arguments at any time.  If the
  first argument of a call finds the call itself and asks for its first
  argument (`Image.echoes`), evaluating it comes back to evaluating it, with
  one more chain waiting and the image as before:

    • `Machine.recalls_again` — one round, which takes six steps,
    • `Machine.run_eq_none_of_recalls` — so the program never ends.

  No block is active meanwhile, so the limit of activations does not matter.
-/
import Prototalk.Proofs.Evaluation.Ending

namespace Prototalk

/-! ## §1. Calls that evaluate themselves. -/

/-- Whether a name finds an operation. -/
def Image.findsNative (i : Image) (r : Ref) (n : Name) (op : Native) : Bool :=
  match Machine.findSlot? i r n with
  | some slot =>
      match i.payload slot with
      | .native found => found == op
      | _ => false
  | none => false

/-- Whether the object of a number was made already, and is that number. -/
def Image.remembers (i : Image) (x : Binary64) : Bool :=
  match i.literals.lookup (.number x.bits) with
  | some r =>
      match i.payload r with
      | .number y => y == x
      | _ => false
  | none => false

/-- The index that a number names. -/
def Payload.index? : Payload → Option Nat
  | .number x => x.asIndex?
  | _ => none

/-- Whether an object is a call whose first argument finds the call itself and evaluates the first
argument of it. -/
def Image.echoes (i : Image) (r : Ref) : Bool :=
  match i.payload r with
  | .call c =>
      match c.site.message.args with
      | [⟨.ident name, [], _⟩, ⟨.ident op, [[⟨.number x, [], _⟩]], _⟩] :: _ =>
          Machine.findSlot? i c.sender name == some r
            && i.findsNative r op (.call .evalArgAt)
            && i.remembers x && x.asIndex? == some 0
      | _ => false
  | _ => false

namespace Image

variable {i : Image} {r : Ref} {n : Name} {op : Native} {x : Binary64}

theorem exists_of_findsNative (h : i.findsNative r n op = true) :
    ∃ slot, Machine.findSlot? i r n = some slot ∧ i.payload slot = .native op := by
  unfold findsNative at h
  split at h
  · rename_i slot hslot
    split at h
    · rename_i found hfound
      exact ⟨slot, hslot, beq_iff_eq.mp h ▸ hfound⟩
    · cases h
  · cases h

theorem exists_of_remembers (h : i.remembers x = true) :
    ∃ z, i.literals.lookup (.number x.bits) = some z ∧ i.payload z = .number x := by
  unfold remembers at h
  split at h
  · rename_i z hz
    split at h
    · rename_i y hy
      exact ⟨z, hz, beq_iff_eq.mp h ▸ hy⟩
    · cases h
  · cases h

theorem exists_of_echoes (h : i.echoes r = true) :
    ∃ c name op x s₁ s₂ s₃, i.payload r = .call c
      ∧ c.site.message.args[0]?
        = some [⟨.ident name, [], s₁⟩, ⟨.ident op, [[⟨.number x, [], s₂⟩]], s₃⟩]
      ∧ Machine.findSlot? i c.sender name = some r
      ∧ i.findsNative r op (.call .evalArgAt) = true
      ∧ i.remembers x = true ∧ x.asIndex? = some 0 := by
  unfold echoes at h
  split at h
  · rename_i c hc
    split at h
    · rename_i name s₁ op x s₂ s₃ others hargs
      simp only [Bool.and_eq_true, beq_iff_eq] at h
      obtain ⟨⟨⟨hself, hop⟩, hx⟩, hzero⟩ := h
      exact ⟨c, name, op, x, s₁, s₂, s₃, hc, by rw [hargs]; rfl, hself, hop, hx, hzero⟩
    · cases h
  · cases h

end Image

namespace Machine

variable {i : Image} {r : Ref} {m : Machine} {w : Walk} {rest : List Message} {stack : List Frame}

/-! ## §2. The steps of a round. -/

/-- The argument of a call takes the place of the operation that asks for it. -/
theorem step_evalArgAt {a : Activation} {v : Ref} {x : Binary64} {index : Nat} {c : CallRecord}
    {chain : Chain} (hv : i.payload v = .number x) (hx : x.asIndex? = some index)
    (hc : i.payload a.target = .call c) (hchain : c.site.message.args[index]? = some chain) :
    step ⟨i, .value v, .native a .index :: stack⟩
      = ⟨i, .walk (.start chain c.sender), stack⟩ := by
  have hbind : x.asIndex?.bind (fun k => c.site.message.args[k]?) = some chain := by
    rw [hx]
    exact hchain
  show meet (Pending.resume .index i a v).1 (Pending.resume .index i a v).2 a stack = _
  rw [Pending.resume, hv]
  dsimp only
  rw [evalArgAt, hc]
  dsimp only
  rw [hbind]
  rfl

/-- A name that finds a call answers the call. -/
theorem step_call {n : Name} {args : List Chain} {span : Span} {c : CallRecord}
    (hcoming : w.coming = ⟨.ident n, args, span⟩ :: rest)
    (hr : findSlot? i w.receiver n = some r) (hc : i.payload r = .call c) :
    step ⟨i, .walk w, stack⟩ = ⟨i, .value r,
      .send w.locals w.receiver w.result r ⟨w.passed, ⟨.ident n, args, span⟩, rest⟩ :: stack⟩ := by
  rw [step, stepWalk, hcoming]
  dsimp only
  rw [send, hr]
  dsimp only
  rw [activate, hc]

/-- `evalArgAt` asks for the index first. -/
theorem step_evalArgAt_index {n : Name} {arg : Chain} {args : List Chain} {span : Span}
    {slot : Ref} {c : CallRecord} (hcoming : w.coming = ⟨.ident n, arg :: args, span⟩ :: rest)
    (hslot : findSlot? i w.receiver n = some slot)
    (hop : i.payload slot = .native (.call .evalArgAt)) (hc : i.payload w.receiver = .call c) :
    ∃ a frame, a.target = w.receiver ∧ step ⟨i, .walk w, stack⟩
      = ⟨i, .walk (.start arg w.locals), .native a .index :: frame :: stack⟩ := by
  let site : Site := ⟨w.passed, ⟨.ident n, arg :: args, span⟩, rest⟩
  refine ⟨⟨w.receiver, w.locals, site⟩, .send w.locals w.receiver w.result slot site, rfl, ?_⟩
  rw [step, stepWalk, hcoming]
  dsimp only
  rw [send, hslot]
  dsimp only
  rw [activate, hop]
  dsimp only
  rw [Native.begin, CallOp.begin]
  dsimp only
  rw [hc]
  rfl

/-- A number that was met before is the object that was made then. -/
theorem step_number {x : Binary64} {args : List Chain} {span : Span}
    (hcoming : w.coming = ⟨.number x, args, span⟩ :: rest)
    (hr : i.literals.lookup (.number x.bits) = some r) :
    step ⟨i, .walk w, stack⟩
      = ⟨i, .walk ⟨w.locals, r, r, ⟨.number x, args, span⟩ :: w.passed, rest⟩, stack⟩ := by
  rw [step, stepWalk, hcoming]
  dsimp only
  rw [Image.literal, hr]
  rfl

/-! ## §3. Rounds. -/

/-- Whether the machine is about to evaluate the first argument of a call that evaluates itself. -/
def recalls (m : Machine) : Bool :=
  match m.control, m.stack with
  | .value v, .native a .index :: _ =>
      m.image.echoes a.target && (m.image.payload v).index? == some 0
  | _, _ => false

theorem exists_of_recalls (hm : m.recalls = true) :
    ∃ v x a rest, m = ⟨m.image, .value v, .native a .index :: rest⟩
      ∧ m.image.echoes a.target = true
      ∧ m.image.payload v = .number x ∧ x.asIndex? = some 0 := by
  obtain ⟨image, control, stack⟩ := m
  unfold recalls at hm
  dsimp only at hm
  split at hm
  · rename_i v a rest
    rw [Bool.and_eq_true, beq_iff_eq] at hm
    obtain ⟨hechoes, hindex⟩ := hm
    unfold Payload.index? at hindex
    split at hindex
    · rename_i x hx
      exact ⟨v, x, a, rest, rfl, hechoes, hx, hindex⟩
    · cases hindex
  · cases hm

/-- **A call whose argument evaluates itself comes back to itself.** -/
theorem recalls_again (hm : m.recalls = true) : (step^[6] m).recalls = true := by
  obtain ⟨v, x, a, rest, hm, hechoes, hv, hx⟩ := exists_of_recalls hm
  generalize m.image = image at hm hechoes hv
  subst hm
  obtain ⟨c, name, op, y, s₁, s₂, s₃, hc, harg, hself, hop, hy, hzero⟩ :=
    Image.exists_of_echoes hechoes
  obtain ⟨slot, hslot, hnative⟩ := Image.exists_of_findsNative hop
  obtain ⟨z, hz, hnumber⟩ := Image.exists_of_remembers hy
  -- the argument is evaluated in the sender, where the name finds the call again
  rw [show (6 : Nat) = 5 + 1 from rfl, Function.iterate_succ_apply, step_evalArgAt hv hx hc harg,
    Function.iterate_succ_apply, step_call rfl hself hc, Function.iterate_succ_apply, step, resume,
    continueWith]
  let asking : Walk := ⟨c.sender, a.target, a.target, [⟨.ident name, [], s₁⟩],
    [⟨.ident op, [[⟨.number y, [], s₂⟩]], s₃⟩]⟩
  have hasks : ∃ b frame, b.target = asking.receiver ∧ step ⟨image, .walk asking, rest⟩
      = ⟨image, .walk (.start [⟨.number y, [], s₂⟩] asking.locals),
        .native b .index :: frame :: rest⟩ := step_evalArgAt_index rfl hslot hnative hc
  obtain ⟨b, frame, hb, hstep⟩ := hasks
  rw [Function.iterate_succ_apply]
  dsimp only [Walk.start]
  rw [hstep, Function.iterate_succ_apply, step_number rfl hz, Function.iterate_succ_apply]
  show (image.echoes b.target && (image.payload z).index? == some 0) = true
  rw [hb, hechoes, hnumber, Payload.index?, hzero]
  rfl

theorem not_isDone_of_recalls (hm : m.recalls = true) : m.isDone = false := by
  obtain ⟨v, x, a, rest, hm, -⟩ := exists_of_recalls hm
  rw [hm]
  rfl

theorem recalls_forever (hm : m.recalls = true) (rounds : Nat) :
    (step^[6 * rounds] m).recalls = true := by
  induction rounds with
  | zero => exact hm
  | succ rounds ih =>
    rw [Nat.mul_succ, Nat.add_comm, Function.iterate_add_apply]
    exact recalls_again ih

/-! ### What has ended stays so -/

theorem isDone_iterate (hdone : m.isDone = true) (n : Nat) : (step^[n] m).isDone = true := by
  rw [Function.iterate_fixed (step_of_isDone hdone)]
  exact hdone

theorem isDone_of_run {fuel : Nat} {last : Machine} (hrun : run fuel m = some last) :
    (step^[fuel] m).isDone = true := by
  induction fuel generalizing m with
  | zero =>
    by_contra hnot
    change ¬ m.isDone = true at hnot
    rw [run, if_neg hnot] at hrun
    cases hrun
  | succ fuel ih =>
    by_cases hdone : m.isDone = true
    · exact isDone_iterate hdone _
    · rw [run, if_neg hdone] at hrun
      exact ih hrun

/-- A machine that comes to a call whose argument evaluates itself does not end. -/
theorem run_eq_none_of_recalls {n : Nat} (hm : (step^[n] m).recalls = true) (fuel : Nat) :
    run fuel m = none := by
  by_contra hrun
  obtain ⟨last, hlast⟩ := Option.ne_none_iff_exists'.mp hrun
  have hdone := isDone_iterate (isDone_of_run hlast) (n + 5 * fuel)
  have hnot := not_isDone_of_recalls (recalls_forever hm fuel)
  rw [← Function.iterate_add_apply] at hdone hnot
  rw [show n + 5 * fuel + fuel = 6 * fuel + n by omega, hnot] at hdone
  cases hdone

end Machine

/-! ## §4. Programs. -/

namespace Image

/-- Whether a program comes, after so many steps, to a call whose argument evaluates itself. -/
def recallsAfter (image : Image) (n : Nat) (text : String) : Bool :=
  let parsed := parse image.names text
  match parsed.result with
  | .ok (some chain) =>
      let first := Machine.start { image with names := parsed.names } chain Builtin.lobby.ref
      (Machine.step^[n] first).recalls
  | _ => false

theorem doString_eq_none_of_recallsAfter {image : Image} {n : Nat} {text : String}
    (h : image.recallsAfter n text = true) (fuel : Nat) : image.doString fuel text = none := by
  unfold recallsAfter at h
  dsimp only at h
  split at h
  · rename_i chain hchain
    unfold doString runParsed
    dsimp only
    rw [hchain]
    simp [runChain, evaluate, Machine.run_eq_none_of_recalls h]
  · cases h

/-- A program that keeps a call whose argument evaluates itself, and then evaluates it. -/
def endless : String :=
  "setSlot(\"f\", method(call)); setSlot(\"c\", f(c evalArgAt(0))); c evalArgAt(0)"

/-- **A program that never ends**, although no activation is inside another one. -/
theorem not_exists_doString_endless :
    ¬ ∃ fuel ran, (Image.new {}).doString fuel endless = some ran := by
  rintro ⟨fuel, ran, hran⟩
  have hrecalls : (Image.new {}).recallsAfter 29 endless = true := by decide +kernel
  rw [doString_eq_none_of_recallsAfter hrecalls] at hran
  cases hran

end Image

end Prototalk
