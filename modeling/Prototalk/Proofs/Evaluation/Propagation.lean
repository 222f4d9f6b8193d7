/-
  Prototalk.Proofs.Evaluation.Propagation
  ────────────────────────────────
  **HOW FAR A RETURN AND AN ERROR GO.**

  A part of a program that is left with a signal leaves what waits for it,
  frame by frame:

      send      passes it on; an error gets its place there
      native    passes it on and does nothing
      bind      passes it on: the argument was the sender's
      body      turns a return into a value, passes an error on

  So a return ends at the body it was raised in (`comes_value_of_returning`),
  leaves an activation only if it was raised in one of its arguments
  (`leftByArgument_enterBlock`), and is the result of a program that has
  no body to end at (`evaluate_eq_some_iff`).  An error is an error for good
  (`control_iterate_failed`).  An operation whose argument is left has done
  nothing before (`Native.discreet_begin`, `Pending.discreet_resume`) and
  does nothing after (`comes_meet_iff`).
-/
import Prototalk.Proofs.Evaluation.Upshot

namespace Prototalk

/-! ## §1. Operations that ask or fail. -/

/-- The error, if there is one, has no place yet. -/
def Signal.Bare : Signal → Prop
  | .failed e => e.span = none
  | .returning _ => True

namespace Demand

/-- Whether an argument is asked for. -/
def asks : Demand → Bool
  | .argument _ _ _ => true
  | _ => false

/-- An error that is raised has no place yet. -/
def Bare : Demand → Prop
  | .raise s => s.Bare
  | _ => True

end Demand

/-- An operation asks before it does anything, and does not say where it fails. -/
structure Discreet (i : Image) (x : Image × Demand) : Prop where
  /-- What asks for an argument has done nothing. -/
  asking : x.2.asks = true → x.1 = i
  /-- What fails does not say where. -/
  failing : x.2.Bare

section

variable {i : Image} {a : Activation}

theorem Discreet.of_demand {d : Demand} (hd : d.Bare) : Discreet i (i, d) := ⟨fun _ => rfl, hd⟩

theorem Discreet.answer (j : Image) (v : Ref) : Discreet i (j, .answer v) where
  asking := fun h => by cases h
  failing := trivial

theorem Discreet.fail (fault : EvalFault) : Discreet i (i, Activation.fail fault) :=
  .of_demand rfl

theorem Activation.discreet_required (names : Interner) (index : Nat) (p : Pending) :
    Discreet i (i, a.required names index p) := by
  unfold Activation.required
  split
  · exact .of_demand trivial
  · exact .fail _

theorem discreet_blockOfArgs (captured : Option Ref) : Discreet i (blockOfArgs i a captured) := by
  unfold blockOfArgs
  split
  · exact .fail _
  · exact .answer _ _

theorem ObjectOp.discreet_begin (op : ObjectOp) : Discreet i (op.begin i a) := by
  cases op with
  | makeBlock => exact discreet_blockOfArgs (some a.locals)
  | makeMethod => exact discreet_blockOfArgs none
  | setSlot | updateSlot | getSlot | hasSlot | appendProto => exact a.discreet_required _ 0 _
  | returnValue | doWithin => exact .of_demand trivial
  | clone | thisMessage | print | println => exact .answer _ _
  | writeln =>
    unfold begin
    dsimp only
    split
    · exact .answer _ _
    · exact .of_demand trivial

theorem BlockOp.discreet_begin (op : BlockOp) : Discreet i (op.begin i a) := by
  unfold begin
  cases i.payload a.target with
  | block b =>
    cases op with
    | asString | argumentNames => exact .answer _ _
    | call | setIsActivatable => exact .of_demand trivial
  | _ => exact .fail _

theorem CallOp.discreet_begin (op : CallOp) : Discreet i (op.begin i a) := by
  unfold begin
  cases i.payload a.target with
  | call c =>
    cases op with
    | evalArgAt => exact a.discreet_required _ 0 _
    | _ => exact .answer _ _
  | _ => exact .fail _

theorem discreet_siteObject (site : Option Site) : Discreet i (siteObject i site) := by
  cases site <;> exact .answer _ _

theorem MessageOp.discreet_begin (op : MessageOp) : Discreet i (op.begin i a) := by
  unfold begin
  cases i.payload a.target with
  | message site =>
    cases op with
    | next => exact discreet_siteObject site.next?
    | previous => exact discreet_siteObject site.previous?
    | _ => exact .answer _ _
  | _ => exact .fail _

/-- **How an operation starts.** -/
theorem Native.discreet_begin (op : Native) : Discreet i (op.begin i a) := by
  cases op with
  | object op => exact op.discreet_begin
  | block op => exact op.discreet_begin
  | call op => exact op.discreet_begin
  | message op => exact op.discreet_begin

theorem SlotUse.discreet_perform (use : SlotUse) (n : Name) : Discreet i (use.perform i a n) := by
  cases use with
  | set => exact a.discreet_required _ 1 _
  | update =>
    unfold perform
    dsimp only
    split
    · exact a.discreet_required _ 1 _
    · exact .fail _
  | get | has => exact .answer _ _

theorem discreet_evalArgAt (x : Binary64) : Discreet i (evalArgAt i a x) := by
  unfold evalArgAt
  split
  · split
    · exact .of_demand trivial
    · exact .fail _
  · exact .fail _

/-- **How an operation goes on with an argument**, after it has given at most a text a name. -/
theorem Pending.discreet_resume (p : Pending) (v : Ref) :
    ∃ names, Discreet { i with names := names } (p.resume i a v) := by
  cases p with
  | slotName use =>
    unfold resume
    dsimp only
    cases i.payload v with
    | text s => exact ⟨_, use.discreet_perform _⟩
    | _ => exact ⟨i.names, .fail _⟩
  | line text coming =>
    unfold resume
    dsimp only
    cases coming with
    | nil => exact ⟨i.names, .answer _ _⟩
    | cons c rest => exact ⟨i.names, .of_demand trivial⟩
  | index =>
    unfold resume
    dsimp only
    cases i.payload v with
    | number x => exact ⟨i.names, discreet_evalArgAt x⟩
    | _ => exact ⟨i.names, .fail _⟩
  | returning => exact ⟨i.names, .of_demand trivial⟩
  | slotValue | proto | done | flag => exact ⟨i.names, .answer _ _⟩

end

/-- Whether the frame waits for the code of an activation. -/
def Frame.isBody : Frame → Bool
  | .body _ => true
  | _ => false

namespace Machine

variable {stack : List Frame} {a : Activation} {i j : Image} {k l n : Nat} {m : Machine}
  {o : Upshot} {v : Ref} {s : Signal}

/-! ## §2. Operations. -/

/-- What an operation comes to, from what it asks for on.  It evaluates argument after argument;
the first that is left with a signal is the end of the operation. -/
inductive Performs (stack : List Frame) (a : Activation) :
    Image × Demand → Nat → Image → Upshot → Prop where
  | answer (i : Image) (v : Ref) : Performs stack a (i, .answer v) 0 i (.value v)
  | raise (i : Image) (s : Signal) : Performs stack a (i, .raise s) 0 i (.signal s)
  | missing {i j : Image} {locals : Ref} {p : Pending} {k : Nat} {o : Upshot}
      (hrest : Performs stack a (p.resume i a Builtin.nil.ref) k j o) :
      Performs stack a (i, .argument none locals p) (k + 1) j o
  | argument {i i' j : Image} {chain : Chain} {locals v : Ref} {p : Pending} {n k : Nat}
      {o : Upshot}
      (hvalue : Comes (.native a p :: stack)
        ⟨i, .walk (.start chain locals), .native a p :: stack⟩ n i' (.value v))
      (hrest : Performs stack a (p.resume i' a v) k j o) :
      Performs stack a (i, .argument (some chain) locals p) (n + 1 + k) j o
  | left {i j : Image} {chain : Chain} {locals : Ref} {p : Pending} {n : Nat} {s : Signal}
      (hsignal : Comes (.native a p :: stack)
        ⟨i, .walk (.start chain locals), .native a p :: stack⟩ n j (.signal s)) :
      Performs stack a (i, .argument (some chain) locals p) (n + 1) j (.signal s)
  | delegate {i j : Image} {chain : Chain} {locals : Ref} {k : Nat} {o : Upshot}
      (h : Comes stack ⟨i, .walk (.start chain locals), stack⟩ k j o) :
      Performs stack a (i, .delegate chain locals) k j o
  | activate {i j : Image} {block : Ref} {code : Block} {k : Nat} {o : Upshot}
      (h : Comes stack (enterBlock i block code a stack) k j o) :
      Performs stack a (i, .activate block code) k j o

theorem Performs.comes {x : Image × Demand} (h : Performs stack a x k j o) :
    Comes stack (meet x.1 x.2 a stack) k j o := by
  induction h with
  | answer i v => exact .here i (.value v) stack
  | raise i s => exact .here i (.signal s) stack
  | missing _ ih =>
    exact (Comes.step_iff (above_of_suffix_cons List.suffix_rfl)).mpr ⟨_, ih, rfl⟩
  | argument hvalue _ ih =>
    exact (comes_cons_iff List.suffix_rfl).mpr ⟨_, _, _, _, hvalue, ih, rfl⟩
  | @left i j chain locals p n s hsignal =>
    exact (comes_cons_iff List.suffix_rfl).mpr
      ⟨_, _, _, 0, hsignal, .here j (.signal s) stack, rfl⟩
  | delegate h => exact h
  | activate h => exact h

/-- **What an operation comes to.** -/
theorem comes_meet_iff (x : Image × Demand) :
    Comes stack (meet x.1 x.2 a stack) k j o ↔ Performs stack a x k j o := by
  refine ⟨fun h => ?_, Performs.comes⟩
  -- by the number of steps: an argument that has a value takes some of them
  induction k using Nat.strongRecOn generalizing x with
  | ind k ih =>
    obtain ⟨i, d⟩ := x
    cases d with
    | answer v =>
      obtain ⟨rfl, rfl, rfl⟩ := Comes.value_iff.mp h
      exact .answer _ v
    | raise s =>
      obtain ⟨rfl, rfl, rfl⟩ := Comes.unwind_iff.mp h
      exact .raise _ s
    | argument chain locals p =>
      cases chain with
      | none =>
        obtain ⟨l, hrest, rfl⟩ :=
          (Comes.step_iff (above_of_suffix_cons List.suffix_rfl)).mp h
        exact .missing (ih l (Nat.lt_succ_self l) _ hrest)
      | some chain =>
        obtain ⟨n, i', q, l, hargument, hrest, rfl⟩ := (comes_cons_iff List.suffix_rfl).mp h
        cases q with
        | value v => exact .argument hargument (ih l (by omega) _ hrest)
        | signal s =>
          obtain ⟨rfl, rfl, rfl⟩ := Comes.unwind_iff.mp hrest
          exact .left hargument
    | delegate chain locals => exact .delegate h
    | activate block code => exact .activate h

/-- **An operation that waits for an argument is left with it.** -/
theorem comes_signal_of_argument {p : Pending} {chain : Chain} {locals : Ref}
    (h : Passes stack m l ⟨i, .walk (.start chain locals), .native a p :: stack⟩)
    (hargument : Comes (.native a p :: stack)
      ⟨i, .walk (.start chain locals), .native a p :: stack⟩ n j (.signal s)) :
    Comes stack m (l + (n + 1)) j (.signal s) :=
  h.trans ((comes_cons_iff List.suffix_rfl).mpr
    ⟨n, j, .signal s, 0, hargument, .here j (.signal s) stack, rfl⟩)

/-! ## §3. Activations. -/

/-- An activation is left by an argument that returns `v`: after `l` steps it evaluates the argument
in the sender, which takes `n` steps and comes to the return, and one step later it has ended. -/
def LeftByArgument (stack : List Frame) (m : Machine) (params : List Name) (args : List Chain)
    (locals : Ref) (k : Nat) (j : Image) (v : Ref) : Prop :=
  ∃ (index l n : Nat) (param : Name) (arg : Chain) (b : Binding) (i i' : Image),
    params[index]? = some param ∧ args[index]? = some arg ∧ b.args = args.drop (index + 1)
      ∧ Passes stack m l ⟨i, .walk (.start arg locals), .bind b param :: stack⟩
      ∧ Comes (.bind b param :: stack) ⟨i, .walk (.start arg locals), .bind b param :: stack⟩ n i'
        (.signal (.returning v))
      ∧ k = l + (n + 1) ∧ j = { i' with depth := i'.depth - 1 }

theorem not_returning_enterBody (b : Binding)
    (h : Comes stack (enterBody i b stack) k j (.signal (.returning v))) : False := by
  unfold enterBody at h
  dsimp only at h
  split at h
  · obtain ⟨n, i', q, l, -, hrest, -⟩ := (comes_cons_iff List.suffix_rfl).mp h
    -- whatever the code comes to, its frame makes no return of it
    cases q with
    | value w => cases (Comes.value_iff.mp hrest).2.2
    | signal s =>
      cases s with
      | returning w => cases (Comes.value_iff.mp hrest).2.2
      | failed e => cases (Comes.unwind_iff.mp hrest).2.2
  · cases (Comes.value_iff.mp h).2.2

theorem leftByArgument_bindNext (b : Binding)
    (h : Comes stack (bindNext i b stack) k j (.signal (.returning v))) :
    LeftByArgument stack (bindNext i b stack) b.params b.args b.activation.locals k j v := by
  obtain ⟨block, code, activation, scope, params, args⟩ := b
  dsimp only
  induction params generalizing i k args with
  | nil => exact (not_returning_enterBody _ h).elim
  | cons param params ih =>
    cases args with
    | nil =>
      -- a parameter without an argument is `nil`, and so are all behind it
      obtain ⟨l, hrest, -⟩ := (Comes.step_iff (above_of_suffix_cons List.suffix_rfl)).mp h
      obtain ⟨index, -, -, -, arg, -, -, -, -, harg, -⟩ := ih [] hrest
      cases harg
    | cons arg args =>
      obtain ⟨n, i', q, l, hargument, hrest, rfl⟩ := (comes_cons_iff List.suffix_rfl).mp h
      cases q with
      | value w =>
        obtain ⟨index, l', n', param', arg', b', i₁, i₂, hparam, harg, hargs, hpasses, hreturn, rfl,
          hj⟩ := ih args hrest
        exact ⟨index + 1, n + 1 + l', n', param', arg', b', i₁, i₂, hparam, harg, hargs,
          hargument.passes.trans hpasses, hreturn, by omega, hj⟩
      | signal s =>
        obtain ⟨rfl, rfl, hs⟩ := Comes.unwind_iff.mp hrest
        cases hs
        exact ⟨0, 0, n, param, arg, _, i, i', rfl, rfl, rfl, .refl _ _, hargument, by omega, rfl⟩

/-- **An activation returns only what one of its arguments returns**, and nothing else of it is
evaluated afterwards. -/
theorem leftByArgument_enterBlock {block : Ref} {code : Block}
    (h : Comes stack (enterBlock i block code a stack) k j (.signal (.returning v))) :
    LeftByArgument stack (enterBlock i block code a stack) code.params a.args a.locals k j v := by
  by_cases hfull : i.maxDepth ≤ i.depth
  · rw [enterBlock_of_le block code a hfull] at h
    cases (Comes.unwind_iff.mp h).2.2
  · rw [enterBlock_of_lt block code a (Nat.lt_of_not_le hfull)] at h ⊢
    exact leftByArgument_bindNext _ h

/-! ## §4. Returns in a body. -/

/-- A return leaves frame after frame; activations that wait for an argument end. -/
theorem iterate_returning (v : Ref) {inner : List Frame} (rest : List Frame)
    (hinner : ∀ f ∈ inner, f.isBody = false) (i : Image) (hn : n ≤ inner.length) :
    step^[n] ⟨i, .unwind (.returning v), inner ++ rest⟩
      = ⟨{ i with depth := i.depth - waiting (inner.take n) }, .unwind (.returning v),
        inner.drop n ++ rest⟩ := by
  induction n generalizing inner i with
  | zero => rfl
  | succ n ih =>
    cases inner with
    | nil => cases hn
    | cons frame inner =>
      obtain ⟨hframe, hrest⟩ := List.forall_mem_cons.mp hinner
      have hn' : n ≤ inner.length := Nat.le_of_succ_le_succ hn
      rw [Function.iterate_succ_apply, List.take_succ_cons, List.drop_succ_cons]
      cases frame with
      | body scope => cases hframe
      | send locals receiver result slot site =>
        rw [waiting_send]
        exact ih hrest i hn'
      | native a pending =>
        rw [waiting_native]
        exact ih hrest i hn'
      | bind b param =>
        rw [waiting_bind, Nat.add_comm, Nat.sub_add_eq]
        exact ih hrest { i with depth := i.depth - 1 } hn'

/-- **A return in a body lands there**, after as many steps as frames wait in the body. -/
theorem comes_value_of_returning {inner : List Frame} {scope : Ref}
    (hinner : ∀ f ∈ inner, f.isBody = false)
    (h : Passes stack m l ⟨i, .unwind (.returning v), inner ++ .body scope :: stack⟩) :
    Comes stack m (l + (inner.length + 1))
      (leaveBody { i with depth := i.depth - waiting inner } [v] stack) (.value v) := by
  have hbody : Comes (.body scope :: stack)
      ⟨i, .unwind (.returning v), inner ++ .body scope :: stack⟩ inner.length
      { i with depth := i.depth - waiting inner } (.signal (.returning v)) := by
    refine ⟨?_, fun d hd => ?_⟩
    · rw [iterate_returning v _ hinner i (Nat.le_refl _), List.take_length, List.drop_length]
      rfl
    · rw [iterate_returning v _ hinner i (Nat.le_of_lt hd)]
      refine ⟨List.suffix_append _ _, fun hsettled => Nat.not_le_of_lt hd ?_⟩
      simpa using hsettled.1
  exact h.trans hbody.passes

/-! ## §5. Errors. -/

/-- **An error is an error for good.** -/
theorem control_iterate_failed {e : EvalError} (h : m.control = .unwind (.failed e)) (k : Nat) :
    ∃ e', (step^[k] m).control = .unwind (.failed e') ∧ e'.fault = e.fault := by
  induction k with
  | zero => exact ⟨e, h, rfl⟩
  | succ k ih =>
    obtain ⟨e₁, hcontrol, hfault₁⟩ := ih
    rw [Function.iterate_succ_apply']
    generalize step^[k] m = n at hcontrol ⊢
    obtain ⟨i, control, stack⟩ := n
    subst hcontrol
    cases stack with
    | nil => exact ⟨e₁, rfl, hfault₁⟩
    | cons frame stack =>
      obtain ⟨i', e₂, hstep, hfault₂⟩ := step_failed i e₁ frame stack
      exact ⟨e₂, congrArg control hstep, hfault₂.trans hfault₁⟩

/-! ## §6. Programs. -/

theorem isDone_iff : m.isDone = true ↔ m.Settled [] := by
  obtain ⟨i, control, stack⟩ := m
  constructor
  · intro hdone
    have hstack : stack = [] := stack_of_isDone hdone
    refine ⟨hstack, ?_⟩
    cases control with
    | walk w => cases hdone
    | value v => exact ⟨.value v, rfl⟩
    | unwind s => exact ⟨.signal s, rfl⟩
  · rintro ⟨hstack, o, ho⟩
    subst hstack ho
    cases o <;> rfl

/-- A run ends with what its machine comes to. -/
theorem exists_comes_of_run {fuel : Nat} {last : Machine} (hrun : run fuel m = some last) :
    ∃ k o, k ≤ fuel ∧ Comes [] m k last.image o ∧ last.result = o.toResult := by
  classical
  obtain ⟨hdone, hlast⟩ := run_eq_some_iff.mp hrun
  have hexists : ∃ k, (step^[k] m).isDone = true := ⟨fuel, hdone⟩
  obtain ⟨k, hk, hfirst⟩ := Nat.findX hexists
  have hsame : step^[k] m = last := (iterate_eq_of_isDone hk hdone).trans hlast
  obtain ⟨hstack, o, ho⟩ := isDone_iff.mp hk
  rw [hsame] at hstack ho
  refine ⟨k, o, ?_, ⟨?_, fun l hl => ⟨List.nil_suffix, fun hsettled => ?_⟩⟩, ?_⟩
  · by_contra hlt
    exact hfirst fuel (Nat.lt_of_not_le hlt) hdone
  · rw [hsame, ← hstack, ← ho]
  · exact hfirst l hl (isDone_iff.mpr hsettled)
  · rw [result, ho]
    cases o <;> rfl

theorem run_of_comes {fuel : Nat} (h : Comes [] m k j o) (hk : k ≤ fuel) :
    run fuel m = some ⟨j, o.control, []⟩ := by
  have hdone : (step^[k] m).isDone = true := by
    rw [h.last]
    exact isDone_iff.mpr ⟨rfl, o, rfl⟩
  rw [run_of_isDone_iterate hdone hk, h.last]

end Machine

/-- **A chain is evaluated to what its machine comes to**; there a returned value is a result. -/
theorem Image.evaluate_eq_some_iff (image : Image) (fuel : Nat) (chain : Chain) (locals : Ref)
    (ran : Ran) : image.evaluate fuel chain locals = some ran
      ↔ ∃ k o, k ≤ fuel ∧ Machine.Comes [] (.start image chain locals) k ran.image o
        ∧ ran.result = o.toResult := by
  unfold evaluate
  rw [Option.map_eq_some_iff]
  constructor
  · rintro ⟨last, hrun, rfl⟩
    exact Machine.exists_comes_of_run hrun
  · rintro ⟨k, o, hk, hcomes, hresult⟩
    refine ⟨_, Machine.run_of_comes hcomes hk, ?_⟩
    obtain ⟨result, image'⟩ := ran
    dsimp only at hresult
    subst hresult
    cases o <;> rfl

/-! ## §7. How far signals go. -/

open Machine in
/-- What becomes of returns and errors, in any image and above any frames that wait. -/
structure Propagates (image : Image) (stack : List Frame) : Prop where
  /-- A return that is raised while the body of an activation runs, whatever waits in between but
  another body, is the value of the activation, and nothing is evaluated on the way to it. -/
  lands : ∀ (block : Ref) (code : Block) (a : Activation) (l : Nat) (i : Image)
    (inner : List Frame) (scope v : Ref), (∀ f ∈ inner, f.isBody = false) →
    Passes stack (enterBlock image block code a stack) l
      ⟨i, .unwind (.returning v), inner ++ .body scope :: stack⟩ →
    (∀ n ≤ inner.length,
      (step^[l + n] (enterBlock image block code a stack)).control = .unwind (.returning v))
    ∧ Comes stack (enterBlock image block code a stack) (l + (inner.length + 1))
      (leaveBody { i with depth := i.depth - waiting inner } [v] stack) (.value v)
  /-- An activation returns only what one of its arguments returns, and at once. -/
  leaves : ∀ (block : Ref) (code : Block) (a : Activation) (k : Nat) (j : Image) (v : Ref),
    Comes stack (enterBlock image block code a stack) k j (.signal (.returning v)) →
    LeftByArgument stack (enterBlock image block code a stack) code.params a.args a.locals k j v
  /-- An error stays an error. -/
  failed : ∀ (m : Machine) (e : EvalError), m.control = .unwind (.failed e) → ∀ k,
    ∃ e', (step^[k] m).control = .unwind (.failed e') ∧ e'.fault = e.fault
  /-- An operation comes to what its first argument that is left with a signal comes to, in the same
  image; otherwise to what it makes of the values of its arguments. -/
  operation : ∀ (op : Native) (slot : Ref) (a : Activation), image.payload slot = .native op →
    ∀ k j o, Comes stack (activate image slot a stack) k j o
      ↔ Performs stack a (op.begin image a) k j o
  /-- So an operation that waits for an argument is left as the argument is, and does nothing. -/
  interrupted : ∀ (m : Machine) (a : Activation) (p : Pending) (chain : Chain) (locals : Ref)
    (l n : Nat) (i j : Image) (s : Signal),
    Passes stack m l ⟨i, .walk (.start chain locals), .native a p :: stack⟩ →
    Comes (.native a p :: stack) ⟨i, .walk (.start chain locals), .native a p :: stack⟩ n j
      (.signal s) →
    Comes stack m (l + (n + 1)) j (.signal s)
  /-- An operation that starts with an argument has done nothing. -/
  begins : ∀ (op : Native) (a : Activation), (op.begin image a).2.asks = true →
    (op.begin image a).1 = image
  /-- An operation that goes on with another argument has done nothing but name a text. -/
  resumes : ∀ (p : Pending) (a : Activation) (v : Ref), (p.resume image a v).2.asks = true →
    ∃ names, (p.resume image a v).1 = { image with names := names }
  /-- A chain that is evaluated from outside has its outcome as result, a return as a value. -/
  evaluated : ∀ (fuel : Nat) (chain : Chain) (locals : Ref) (ran : Ran),
    image.evaluate fuel chain locals = some ran
      ↔ ∃ k o, k ≤ fuel ∧ Comes [] (.start image chain locals) k ran.image o
        ∧ ran.result = o.toResult

/-- **How far returns and errors go.** -/
theorem propagates (image : Image) (stack : List Frame) : Propagates image stack where
  lands := by
    intro block code a l i inner scope v hinner hpasses
    refine ⟨fun n hn => ?_, Machine.comes_value_of_returning hinner hpasses⟩
    rw [Nat.add_comm, Function.iterate_add_apply, hpasses.last,
      Machine.iterate_returning v _ hinner i hn]
  leaves := fun _ _ _ _ _ _ h => Machine.leftByArgument_enterBlock h
  failed := fun _ _ h => Machine.control_iterate_failed h
  operation := by
    intro op slot a hslot k j o
    rw [Machine.activate, hslot]
    exact Machine.comes_meet_iff (op.begin image a)
  interrupted := fun _ _ _ _ _ _ _ _ _ _ => Machine.comes_signal_of_argument
  begins := fun op _ => op.discreet_begin.asking
  resumes := by
    intro p a v hasks
    obtain ⟨names, hdiscreet⟩ := p.discreet_resume v
    exact ⟨names, hdiscreet.asking hasks⟩
  evaluated := image.evaluate_eq_some_iff

/-- The return leaves `do` and ends the method, so `nope` is not sent. -/
example : ((Image.new {}).doString 22 "setSlot(\"f\", method(do(return(7)); nope)); f").map
    (fun ran => ran.result.toOption.map ran.image.display) = some (some "7") := by
  decide +kernel

end Prototalk
