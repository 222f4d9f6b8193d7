/-
  Prototalk.Proofs.Evaluation.Weight
  ────────────────────────────────
  **HOW MUCH CODE THERE IS TO EVALUATE.**

  The weight of a chain counts its messages, with those of their arguments.
  Objects hold code as well: a block the chain it runs, a call the arguments
  it was sent with.  An image is `Light` if no object of it holds more than
  some bound.

  An operation makes no new code.  The blocks it makes hold arguments that it
  was given, and what it still asks for weighs less than what it was given
  (`Demand.Affordable`):

    • `Native.start_begin` — at the start, the arguments of its message,
    • `Pending.affordable_resume` — later, the arguments that are left.

  The one exception is `evalArgAt`, which asks for the argument of a call,
  and that may weigh as much as anything in the image.
-/
import Mathlib.Algebra.Order.BigOperators.Group.List
import Mathlib.Algebra.Order.Group.Nat
import Prototalk.Evaluation.Operation
import Prototalk.Proofs.Object.Collection

namespace Prototalk

/-! ## §1. The weight of code. -/

mutual

/-- Number of messages, with those of the arguments. -/
def Message.weight : Message → Nat
  | ⟨_, args, _⟩ => Message.argWeight args + 1

/-- A chain has an end besides its messages. -/
def Chain.weight : List Message → Nat
  | [] => 1
  | m :: rest => m.weight + Chain.weight rest

/-- Argument chains together. -/
def Message.argWeight : List (List Message) → Nat
  | [] => 0
  | c :: rest => Chain.weight c + 1 + Message.argWeight rest

end

namespace Message

theorem weight_eq (m : Message) : m.weight = argWeight m.args + 1 := by
  cases m
  rw [weight]

theorem argWeight_append (as bs : List Chain) :
    argWeight (as ++ bs) = argWeight as + argWeight bs := by
  induction as with
  | nil => simp [argWeight]
  | cons a as ih =>
    rw [List.cons_append, argWeight, argWeight, ih]
    omega

theorem length_le_argWeight (as : List Chain) : as.length ≤ argWeight as := by
  induction as with
  | nil => simp
  | cons a as ih =>
    rw [argWeight, List.length_cons]
    omega

/-- An argument and those behind it. -/
theorem argWeight_get_add_drop {as : List Chain} {index : Nat} {c : Chain}
    (hc : as[index]? = some c) :
    Chain.weight c + 1 + argWeight (as.drop (index + 1)) ≤ argWeight as := by
  have hlt : index < as.length := (List.getElem?_eq_some_iff.mp hc).1
  have hget : as.drop index = c :: as.drop (index + 1) := by
    rw [List.drop_eq_getElem_cons hlt, (List.getElem?_eq_some_iff.mp hc).2]
  have hsplit := argWeight_append (as.take index) (as.drop index)
  rw [List.take_append_drop, hget, argWeight] at hsplit
  omega

theorem weight_get_lt {as : List Chain} {index : Nat} {c : Chain} (hc : as[index]? = some c) :
    Chain.weight c < argWeight as := by
  have := argWeight_get_add_drop hc
  omega

end Message

/-- The parameters and the code of a block. -/
def Block.weight (b : Block) : Nat := b.params.length + Message.argWeight b.body.toList

/-- The code that an object holds. -/
def Payload.weight : Payload → Nat
  | .block b => b.weight
  | .call c => Message.argWeight c.site.message.args
  | _ => 0

/-! ## §2. Images without heavy code. -/

namespace Heap

variable {bound : Nat} {h : Heap} {o : Object} {r : Ref}

/-- No object holds code that weighs more than `bound`. -/
def Light (bound : Nat) (h : Heap) : Prop :=
  ∀ r o, h.get? r = some o → o.payload.weight ≤ bound

theorem Light.payload (hl : h.Light bound) (r : Ref) : (h.payload r).weight ≤ bound := by
  unfold Heap.payload
  split
  · exact hl r _ ‹_›
  · simp [Payload.weight]

theorem Light.alloc (hl : h.Light bound) (ho : o.payload.weight ≤ bound) :
    (h.alloc o).2.Light bound := by
  intro s p hp
  rw [get?_alloc] at hp
  split at hp
  · cases hp
    exact ho
  · exact hl s p hp

theorem Light.modify (hl : h.Light bound) {f : Object → Object}
    (hf : ∀ o, (f o).payload.weight = o.payload.weight) : (h.modify r f).Light bound := by
  intro s p hp
  rw [get?_modify] at hp
  split at hp
  · obtain ⟨o, ho, rfl⟩ := Option.map_eq_some_iff.mp hp
    rw [hf]
    exact hl s o ho
  · exact hl s p hp

theorem Light.erase (hl : h.Light bound) : (h.erase r).Light bound := by
  intro s p hp
  rw [get?_erase] at hp
  split at hp
  · cases hp
  · exact hl s p hp

theorem Light.releaseFrom (rounds : Nat) (counts : Array Nat) (todo : List Ref)
    (hl : h.Light bound) : (releaseFrom rounds counts todo h).Light bound := by
  fun_induction Heap.releaseFrom rounds counts todo h with
  | case1 => exact hl
  | case2 => exact hl
  | case3 rounds counts h r todo hr ih => exact ih hl
  | case4 rounds counts h r todo o ho counts' todo' hfold ih => exact ih hl.erase

theorem Light.release (hl : h.Light bound) (handles : List Ref) :
    (h.release handles).Light bound :=
  Light.releaseFrom _ _ _ hl

theorem Light.clear (hl : h.Light bound) (refs : List Ref) : (h.clear refs).Light bound := by
  intro s p hp
  rw [get?_clear] at hp
  split at hp
  · obtain ⟨o, ho, rfl⟩ := Option.map_eq_some_iff.mp hp
    exact hl s o ho
  · exact hl s p hp

theorem Light.collect (hl : h.Light bound) (handles : List Ref) :
    (h.collect handles).2.Light bound :=
  ((hl.release handles).clear _).release handles

/-- A heap is finite, so some bound holds for all of it. -/
theorem exists_light (h : Heap) : ∃ bound, h.Light bound := by
  refine ⟨(h.refs.map fun r => (h.payload r).weight).sum, fun r o ho => ?_⟩
  have hr : r ∈ h.refs := mem_refs.mpr (by rw [ho]; rfl)
  rw [← payload_of_get? ho]
  exact List.le_sum_of_mem (List.mem_map_of_mem hr)

theorem Light.mono {more : Nat} (hl : h.Light bound) (hle : bound ≤ more) : h.Light more :=
  fun r o ho => (hl r o ho).trans hle

end Heap

namespace Image

variable {bound : Nat} {i j k : Image}

/-- An image like `i` as far as evaluation is bounded: at the same depth, and without heavier
code. -/
structure Keeps (bound : Nat) (i j : Image) : Prop where
  light : i.objects.Light bound → j.objects.Light bound
  depth_eq : j.depth = i.depth
  maxDepth_eq : j.maxDepth = i.maxDepth

namespace Keeps

theorem refl (i : Image) : Keeps bound i i := ⟨id, rfl, rfl⟩

theorem trans (hij : Keeps bound i j) (hjk : Keeps bound j k) : Keeps bound i k :=
  ⟨hjk.light ∘ hij.light, hjk.depth_eq.trans hij.depth_eq,
    hjk.maxDepth_eq.trans hij.maxDepth_eq⟩

theorem alloc (i : Image) {payload : Payload} (hpayload : payload.weight ≤ bound)
    (protos : List Ref) : Keeps bound i (i.alloc payload protos).2 :=
  ⟨fun hl => hl.alloc hpayload, rfl, rfl⟩

theorem setSlot (i : Image) (r : Ref) (n : Name) (v : Ref) : Keeps bound i (i.setSlot r n v) :=
  ⟨fun hl => hl.modify fun _ => rfl, rfl, rfl⟩

theorem appendProto (i : Image) (r p : Ref) : Keeps bound i (i.appendProto r p) :=
  ⟨fun hl => hl.modify fun _ => rfl, rfl, rfl⟩

theorem setActivatable (i : Image) (r : Ref) (flag : Bool) :
    Keeps bound i (i.setActivatable r flag) := by
  refine ⟨fun hl => hl.modify fun o => ?_, rfl, rfl⟩
  show (o.payload.setActivatable flag).weight = _
  cases o.payload <;> rfl

theorem collectIfDue (i : Image) (inUse : List Ref) : Keeps bound i (i.collectIfDue inUse) := by
  unfold Image.collectIfDue
  split
  · exact ⟨fun hl => hl.collect _, rfl, rfl⟩
  · exact refl i

theorem literal (i : Image) (c : Constant) : Keeps bound i (i.literal c).2 := by
  unfold Image.literal
  split
  · exact refl i
  · cases c with
    | number bits => exact ⟨fun hl => hl.alloc (Nat.zero_le _), rfl, rfl⟩
    | text s => exact ⟨fun hl => hl.alloc (Nat.zero_le _), rfl, rfl⟩

end Keeps

end Image

/-! ## §3. What operations ask for. -/

/-- The arguments that an operation may still ask for. -/
def Pending.weight (a : Activation) : Pending → Nat
  | .slotName _ => Message.argWeight (a.args.drop 1)
  | .line _ coming => Message.argWeight coming
  | _ => 0

/-- A demand for code within a budget, or within the bound of the image where it comes out of an
object. -/
def Demand.Affordable (bound budget : Nat) (a : Activation) : Demand → Prop
  | .answer _ => True
  | .raise _ => True
  | .argument chain _ pending => chain.elim 0 Chain.weight + pending.weight a + 1 ≤ budget
  | .delegate chain _ => Chain.weight chain ≤ bound
  | .activate _ code => code.weight ≤ bound ∧ Message.argWeight a.args + 1 ≤ budget

/-- Whether an argument of a call is asked for. -/
def Demand.isDelegate : Demand → Bool
  | .delegate _ _ => true
  | _ => false

/-- An image and a demand that an operation may go on with. -/
structure Affordable (bound budget : Nat) (a : Activation) (image : Image)
    (x : Image × Demand) : Prop where
  keeps : Image.Keeps bound image x.1
  demand : x.2.Affordable bound budget a

/-- A start of an operation, which asks for no argument of a call. -/
structure Affordable.Start (bound : Nat) (a : Activation) (image : Image)
    (x : Image × Demand) : Prop
    extends Affordable bound (Message.argWeight a.args + 1) a image x where
  own : x.2.isDelegate = false

theorem Demand.Affordable.mono {bound budget more : Nat} {a : Activation} {d : Demand}
    (hd : d.Affordable bound budget a) (hle : budget ≤ more) : d.Affordable bound more a := by
  cases d with
  | argument chain locals pending => exact Nat.le_trans hd hle
  | activate block code => exact ⟨hd.1, hd.2.trans hle⟩
  | _ => exact hd

section

variable {bound : Nat} {i : Image} {a : Activation}

/-! ### Arguments -/

theorem Activation.affordable_required (names : Interner) (index : Nat) (pending : Pending)
    (hpending : pending.weight a ≤ Message.argWeight (a.args.drop (index + 1))) :
    (a.required names index pending).Affordable bound
      (Message.argWeight (a.args.drop index)) a := by
  unfold Activation.required
  split
  · rename_i chain hchain
    have hfirst : (a.args.drop index)[0]? = some chain := by simpa using hchain
    have hsplit := Message.argWeight_get_add_drop hfirst
    rw [List.drop_drop, Nat.zero_add] at hsplit
    show Chain.weight chain + pending.weight a + 1 ≤ _
    omega
  · exact trivial

theorem Activation.isDelegate_required (names : Interner) (index : Nat) (pending : Pending) :
    (a.required names index pending).isDelegate = false := by
  unfold Activation.required
  split <;> rfl

namespace Affordable.Start

theorem of_required (pending : Pending)
    (hpending : pending.weight a ≤ Message.argWeight (a.args.drop 1)) :
    Start bound a i (i, a.required i.names 0 pending) where
  keeps := .refl i
  demand := (a.affordable_required i.names 0 pending hpending).mono (Nat.le_succ _)
  own := a.isDelegate_required i.names 0 pending

theorem of_first (locals : Ref) (pending : Pending) (hpending : pending.weight a = 0) :
    Start bound a i (i, .argument a.args[0]? locals pending) where
  keeps := .refl i
  demand := by
    show a.args[0]?.elim 0 Chain.weight + pending.weight a + 1 ≤ Message.argWeight a.args + 1
    rw [hpending]
    cases hchain : a.args[0]? with
    | none => simp
    | some chain =>
      have := Message.weight_get_lt hchain
      simp only [Option.elim_some]
      omega
  own := rfl

theorem answer {j : Image} {v : Ref} (hkeeps : Image.Keeps bound i j) :
    Start bound a i (j, .answer v) :=
  ⟨⟨hkeeps, trivial⟩, rfl⟩

theorem fail (fault : EvalFault) : Start bound a i (i, Activation.fail fault) :=
  ⟨⟨.refl i, trivial⟩, rfl⟩

/-- A new object that holds no code. -/
theorem made {payload : Payload} {protos : List Ref} (hpayload : payload.weight = 0) :
    Start bound a i ((i.alloc payload protos).2, .answer (i.alloc payload protos).1) :=
  answer (.alloc i (by omega) protos)

end Affordable.Start

open Affordable (Start)

/-! ### Starting an operation -/

/-- Every parameter is named by an argument. -/
theorem length_paramNames {index : Nat} {chains : List Chain} {params : List Name}
    (hparams : paramNames index chains = .ok params) : params.length = chains.length := by
  fun_induction paramNames index chains generalizing params with
  | case1 => cases hparams; rfl
  | case2 => cases hparams
  | case3 index c rest n hname ns hns ih =>
    cases hparams
    simp [ih hns]
  | case4 => cases hparams

/-- A block holds the arguments it was made of. -/
theorem weight_new_le (captured : Option Ref) {args : List Chain} {params : List Name}
    (hparams : paramNames 0 args.dropLast = .ok params) :
    (Block.new args.getLast? params captured).weight ≤ Message.argWeight args := by
  have hlength := Message.length_le_argWeight args.dropLast
  rw [← length_paramNames hparams] at hlength
  show params.length + Message.argWeight args.getLast?.toList ≤ _
  cases hlast : args.getLast? with
  | none =>
    rw [List.getLast?_eq_none_iff.mp hlast] at hlength ⊢
    exact hlength
  | some c =>
    have hsplit := Message.argWeight_append args.dropLast [c]
    rw [List.dropLast_append_getLast? c hlast] at hsplit
    simp only [Option.toList_some]
    omega

theorem start_blockOfArgs (captured : Option Ref) (hargs : Message.argWeight a.args ≤ bound) :
    Start bound a i (blockOfArgs i a captured) := by
  unfold blockOfArgs
  split
  · exact .fail _
  · rename_i params hparams
    refine .answer (.alloc i ?_ _)
    exact (weight_new_le captured hparams).trans hargs

theorem ObjectOp.start_begin (op : ObjectOp) (hargs : Message.argWeight a.args ≤ bound) :
    Start bound a i (op.begin i a) := by
  cases op with
  | makeBlock => exact start_blockOfArgs _ hargs
  | makeMethod => exact start_blockOfArgs _ hargs
  | returnValue => exact .of_first a.locals .returning rfl
  | setSlot => exact .of_required (.slotName .set) (Nat.le_refl _)
  | updateSlot => exact .of_required (.slotName .update) (Nat.le_refl _)
  | getSlot => exact .of_required (.slotName .get) (Nat.le_refl _)
  | hasSlot => exact .of_required (.slotName .has) (Nat.le_refl _)
  | clone => exact .made rfl
  | appendProto => exact .of_required .proto (Nat.zero_le _)
  | doWithin => exact .of_first a.target .done rfl
  | thisMessage => exact .made rfl
  | print => exact .answer ⟨id, rfl, rfl⟩
  | println => exact .answer ⟨id, rfl, rfl⟩
  | writeln =>
    unfold ObjectOp.begin
    cases hcases : a.args with
    | nil => exact .answer ⟨id, rfl, rfl⟩
    | cons c rest =>
      refine ⟨⟨.refl i, ?_⟩, rfl⟩
      show Chain.weight c + Message.argWeight rest + 1 ≤ Message.argWeight a.args + 1
      rw [hcases, Message.argWeight]
      omega

theorem BlockOp.start_begin (op : BlockOp) (hl : i.objects.Light bound) :
    Start bound a i (op.begin i a) := by
  unfold BlockOp.begin
  cases hpayload : i.payload a.target with
  | block b =>
    cases op with
    | call =>
      have hb : (i.payload a.target).weight ≤ bound := hl.payload a.target
      rw [hpayload] at hb
      exact ⟨⟨.refl i, hb, Nat.le_refl _⟩, rfl⟩
    | asString => exact .made rfl
    | argumentNames => exact .made rfl
    | setIsActivatable => exact .of_first a.locals .flag rfl
  | _ => exact .fail _

theorem CallOp.start_begin (op : CallOp) : Start bound a i (op.begin i a) := by
  unfold CallOp.begin
  cases i.payload a.target with
  | call c =>
    cases op with
    | sender => exact .answer (.refl i)
    | target => exact .answer (.refl i)
    | message => exact .made rfl
    | activated => exact .answer (.refl i)
    | argCount => exact .made rfl
    | evalArgAt => exact .of_required .index (Nat.zero_le _)
  | _ => exact .fail _

theorem start_siteObject (site : Option Site) : Start bound a i (siteObject i site) := by
  cases site with
  | none => exact .answer (.refl i)
  | some site => exact .made rfl

theorem MessageOp.start_begin (op : MessageOp) : Start bound a i (op.begin i a) := by
  unfold MessageOp.begin
  cases i.payload a.target with
  | message site =>
    cases op with
    | name => exact .made rfl
    | argCount => exact .made rfl
    | asString => exact .made rfl
    | next => exact start_siteObject site.next?
    | previous => exact start_siteObject site.previous?
  | _ => exact .fail _

/-- **An operation starts with no more than the arguments of its message.** -/
theorem Native.start_begin (op : Native) (hl : i.objects.Light bound)
    (hargs : Message.argWeight a.args ≤ bound) : Start bound a i (op.begin i a) := by
  cases op with
  | object op => exact op.start_begin hargs
  | block op => exact op.start_begin hl
  | call op => exact op.start_begin
  | message op => exact op.start_begin

/-! ### Going on with an argument -/

theorem SlotUse.affordable_perform (use : SlotUse) (n : Name) :
    Affordable bound (Message.argWeight (a.args.drop 1)) a i (use.perform i a n) := by
  have hvalue : (a.required i.names 1 (.slotValue n)).Affordable bound _ a :=
    a.affordable_required i.names 1 (.slotValue n) (Nat.zero_le _)
  cases use with
  | set => exact ⟨.refl i, hvalue⟩
  | update =>
    unfold SlotUse.perform
    dsimp only
    cases i.lookup? a.target n with
    | some v => exact ⟨.refl i, hvalue⟩
    | none => exact ⟨.refl i, trivial⟩
  | get => exact ⟨.refl i, trivial⟩
  | has => exact ⟨.refl i, trivial⟩

/-- The arguments of a call weigh no more than the code of the image. -/
theorem affordable_evalArgAt (hl : i.objects.Light bound) (x : Binary64) :
    Affordable bound 0 a i (evalArgAt i a x) := by
  unfold evalArgAt
  cases hpayload : i.payload a.target with
  | call c =>
    dsimp only
    split
    · rename_i chain hchain
      obtain ⟨index, -, hget⟩ := Option.bind_eq_some_iff.mp hchain
      have hcall : (i.payload a.target).weight ≤ bound := hl.payload a.target
      rw [hpayload] at hcall
      exact ⟨.refl i, (Message.weight_get_lt hget).le.trans hcall⟩
    · exact ⟨.refl i, trivial⟩
  | _ => exact ⟨.refl i, trivial⟩

/-- **An operation goes on with no more than the arguments that are left**, unless it evaluates an
argument of a call. -/
theorem Pending.affordable_resume (p : Pending) (hl : i.objects.Light bound) (v : Ref) :
    Affordable bound (p.weight a) a i (p.resume i a v) := by
  cases p with
  | returning => exact ⟨.refl i, trivial⟩
  | slotName use =>
    unfold Pending.resume
    dsimp only
    cases i.payload v with
    | text s =>
      have hperform : Affordable bound _ a (i.intern s).2
          (use.perform (i.intern s).2 a (i.intern s).1) := use.affordable_perform _
      have hintern : Image.Keeps bound i (i.intern s).2 := ⟨id, rfl, rfl⟩
      exact ⟨hintern.trans hperform.keeps, hperform.demand⟩
    | _ => exact ⟨.refl i, trivial⟩
  | slotValue n => exact ⟨.setSlot i a.target n v, trivial⟩
  | proto => exact ⟨.appendProto i a.target v, trivial⟩
  | done => exact ⟨.refl i, trivial⟩
  | line text coming =>
    cases coming with
    | nil => exact ⟨⟨id, rfl, rfl⟩, trivial⟩
    | cons c rest =>
      refine ⟨.refl i, ?_⟩
      show Chain.weight c + Message.argWeight rest + 1 ≤ Message.argWeight (c :: rest)
      rw [Message.argWeight]
      omega
  | flag => exact ⟨.setActivatable i a.target _, trivial⟩
  | index =>
    unfold Pending.resume
    dsimp only
    cases i.payload v with
    | number x => exact affordable_evalArgAt hl x
    | _ => exact ⟨.refl i, trivial⟩

end

end Prototalk
