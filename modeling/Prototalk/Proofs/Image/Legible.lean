/-
  Prototalk.Proofs.Image.Legible
  ────────────────────────────────
  **IMAGES WHOSE CODE CAN BE WRITTEN.**

  An image is `Legible` if all its blocks are, and if so is the code that it
  can still run on behalf of a call.  Names keep their texts, so whatever is
  legible stays so in a larger table.

    • `Legible.alloc`, `Legible.modify`, `Legible.know` — objects that are
      made and changed, names that are added,
    • `Heap.Sheds.collect` — a collection changes no payload of what it
      leaves, so it keeps images legible (`Legible.collectIfDue`),
    • `legible_new` — new images have no code at all.
-/
import Prototalk.Proofs.Image.BlockText
import Prototalk.Proofs.Image.Genesis

namespace Prototalk

/-! ## §1. Payloads. -/

/-- What is code in a payload can be written.  A message that a program holds as an object is
never run, so nothing is asked of it. -/
def Payload.Legible (names : Interner) : Payload → Prop
  | .block b => b.Legible names
  | .call c => c.site.message.WellFormed names
  | _ => True

/-- The code of a block. -/
def Payload.code? : Payload → Option Block
  | .block b => some b
  | _ => none

theorem Payload.code?_eq_some_iff {p : Payload} {b : Block} : p.code? = some b ↔ p = .block b := by
  cases p <;> simp [code?]

namespace Payload.Legible

variable {names names' : Interner} {p : Payload}

theorem mono (hext : names.Extends names') (h : p.Legible names) : p.Legible names' := by
  cases p with
  | block b => exact Block.Legible.mono hext h
  | call c => exact Message.WellFormed.mono hext h
  | _ => trivial

/-- Whether finding a block runs it does not matter. -/
theorem setActivatable (h : p.Legible names) (flag : Bool) :
    (p.setActivatable flag).Legible names := by
  cases p with
  | block b => exact ⟨h.body, h.params, h.complete⟩
  | _ => exact h

end Payload.Legible

/-! ## §2. What a heap keeps. -/

namespace Heap

variable {h h' h'' : Heap} {r : Ref}

theorem payload_alloc (h : Heap) (o : Object) (r : Ref) :
    (h.alloc o).2.payload r = if r = ⟨h.cells.size⟩ then o.payload else h.payload r := by
  rw [payload, get?_alloc]
  by_cases hr : r = ⟨h.cells.size⟩
  · rw [if_pos hr, if_pos hr]
  · rw [if_neg hr, if_neg hr]
    rfl

theorem payload_modify (h : Heap) (r s : Ref) (f : Object → Object) :
    (h.modify r f).payload s
      = if s = r then ((h.get? s).map fun o => (f o).payload).getD .plain else h.payload s := by
  rw [payload, get?_modify]
  by_cases hs : s = r
  · rw [if_pos hs, if_pos hs]
    cases h.get? s <;> rfl
  · rw [if_neg hs, if_neg hs]
    rfl

/-- What is there is what it was, as far as payloads go. -/
def Sheds (h h' : Heap) : Prop := ∀ r, h'.payload r = h.payload r ∨ h'.payload r = .plain

namespace Sheds

theorem refl (h : Heap) : h.Sheds h := fun _ => .inl rfl

theorem trans (hfirst : h.Sheds h') (hsecond : h'.Sheds h'') : h.Sheds h'' := by
  intro r
  rcases hsecond r with hr | hr
  · rw [hr]
    exact hfirst r
  · exact .inr hr

theorem erase (h : Heap) (r : Ref) : h.Sheds (h.erase r) := by
  intro s
  unfold payload
  rw [get?_erase]
  by_cases hs : s = r
  · rw [if_pos hs]
    exact .inr rfl
  · rw [if_neg hs]
    exact .inl rfl

theorem cleared (h : Heap) (r : Ref) : h.Sheds (h.modify r Object.cleared) := by
  intro s
  rw [payload_modify]
  split
  · unfold payload
    cases h.get? s with
    | none => exact .inr rfl
    | some o => exact .inl rfl
  · exact .inl rfl

theorem clear (h : Heap) (refs : List Ref) : h.Sheds (h.clear refs) := by
  induction refs generalizing h with
  | nil => exact refl h
  | cons r refs ih => exact (cleared h r).trans (ih _)

theorem releaseFrom (rounds : Nat) (counts : Array Nat) (todo : List Ref) (h : Heap) :
    h.Sheds (releaseFrom rounds counts todo h) := by
  induction rounds generalizing counts todo h with
  | zero => exact refl h
  | succ rounds ih =>
    cases todo with
    | nil => exact refl h
    | cons r todo =>
      rw [Heap.releaseFrom]
      -- a round removes one object, unless it is gone already
      split
      · exact ih counts todo h
      · exact (erase h r).trans (ih _ _ _)

theorem release (h : Heap) (handles : List Ref) : h.Sheds (h.release handles) :=
  releaseFrom _ _ _ h

/-- **A collection changes no payload of what it leaves.** -/
theorem collect (h : Heap) (handles : List Ref) : h.Sheds (h.collect handles).2 :=
  ((release h handles).trans (clear _ _)).trans (release _ handles)

end Sheds

end Heap

/-! ## §3. Images. -/

namespace Image

/-- The names are in order, and whatever code there is can be written. -/
structure Legible (i : Image) : Prop where
  names : i.names.Valid
  payload : ∀ r, (i.payload r).Legible i.names

namespace Legible

variable {i j : Image} {p : Payload}

/-- Only the names and the payloads matter. -/
theorem of_payload (h : i.Legible) (hnames : j.names = i.names)
    (hpayload : ∀ r, (j.payload r).Legible i.names) : j.Legible where
  names := hnames ▸ h.names
  payload := fun r => hnames ▸ hpayload r

/-- Whatever is written or counted, the code stays as it is. -/
theorem of_eq (h : i.Legible) (hnames : j.names = i.names) (hobjects : j.objects = i.objects) :
    j.Legible := by
  refine h.of_payload hnames fun r => ?_
  rw [Image.payload, hobjects]
  exact h.payload r

/-- A larger table. -/
theorem know (h : i.Legible) {names : Interner} (hv : names.Valid) (hext : i.names.Extends names) :
    Legible { i with names := names } where
  names := hv
  payload := fun r => (h.payload r).mono hext

theorem intern (h : i.Legible) (text : String) : (i.intern text).2.Legible :=
  h.know (h.names.intern text) (Interner.extends_intern i.names text)

/-- A new object. -/
theorem alloc (h : i.Legible) (hp : p.Legible i.names) (protos : List Ref) :
    (i.alloc p protos).2.Legible := by
  refine h.of_payload rfl fun r => ?_
  show ((i.objects.alloc (.new p protos)).2.payload r).Legible i.names
  rw [Heap.payload_alloc]
  split
  · exact hp
  · exact h.payload r

/-- A changed object. -/
theorem modify (h : i.Legible) (r : Ref) {f : Object → Object}
    (hf : ∀ o : Object, o.payload.Legible i.names → (f o).payload.Legible i.names) :
    Legible { i with objects := i.objects.modify r f } := by
  refine h.of_payload rfl fun s => ?_
  have hs := h.payload s
  show ((i.objects.modify r f).payload s).Legible i.names
  rw [Heap.payload_modify]
  split
  · unfold Image.payload Heap.payload at hs
    cases ho : i.objects.get? s with
    | none => trivial
    | some o =>
      rw [ho] at hs
      exact hf o hs
  · exact hs

theorem setSlot (h : i.Legible) (r : Ref) (n : Name) (v : Ref) : (i.setSlot r n v).Legible :=
  h.modify r fun _ ho => ho

theorem appendProto (h : i.Legible) (r p : Ref) : (i.appendProto r p).Legible :=
  h.modify r fun _ ho => ho

theorem setActivatable (h : i.Legible) (r : Ref) (flag : Bool) :
    (i.setActivatable r flag).Legible :=
  h.modify r fun _ ho => ho.setActivatable flag

theorem literal (h : i.Legible) (c : Constant) : (i.literal c).2.Legible := by
  unfold Image.literal
  cases i.literals.lookup c with
  | some r => exact h
  | none =>
    cases c with
    | number bits => exact (h.alloc (p := .number ⟨bits⟩) trivial _).of_eq rfl rfl
    | text s => exact (h.alloc (p := .text s) trivial _).of_eq rfl rfl

theorem collect (h : i.Legible) (inUse : List Ref) : (i.collect inUse).2.Legible := by
  refine h.of_payload rfl fun r => ?_
  show ((i.objects.collect (inUse ++ i.handles)).2.payload r).Legible i.names
  rcases Heap.Sheds.collect i.objects (inUse ++ i.handles) r with hr | hr
  · rw [hr]
    exact h.payload r
  · rw [hr]
    trivial

/-- **A collection keeps images legible.** -/
theorem collectIfDue (h : i.Legible) (inUse : List Ref) : (i.collectIfDue inUse).Legible := by
  unfold Image.collectIfDue
  split
  · exact h.collect inUse
  · exact h

/-! ## §4. New images. -/

theorem addBuiltin (h : i.Legible) (b : Builtin) : (i.addBuiltin b).Legible := by
  have hb : (builtinPayload b).Legible i.names := by
    cases b <;> trivial
  exact h.alloc hb _

theorem nameBuiltin (h : i.Legible) (b : Builtin) : (i.nameBuiltin b).Legible :=
  (h.intern b.name).setSlot _ _ _

theorem addNative (h : i.Legible) (op : Native) : (i.addNative op).Legible :=
  ((h.alloc (p := .native op) trivial []).intern op.name).setSlot _ _ _

/-- One thing after another. -/
theorem foldl {α : Type} {f : Image → α → Image}
    (hf : ∀ {i : Image} (x : α), i.Legible → (f i x).Legible) (h : i.Legible) (xs : List α) :
    (xs.foldl f i).Legible := by
  induction xs generalizing i with
  | nil => exact h
  | cons x xs ih => exact ih (hf x h)

end Legible

/-- **New images are legible**, whatever names they know from the start. -/
theorem legible_new {config : Config} (hv : config.names.Valid) : (new config).Legible := by
  -- before there are any objects
  have hvoid : (void config).Legible :=
    ⟨((hv.intern "self").intern "call").intern "forward", fun _ => trivial⟩
  have hbuiltins := hvoid.foldl (fun b h => h.addBuiltin b) Builtin.all
  have hnamed := hbuiltins.foldl (fun b h => h.nameBuiltin b) Builtin.all
  exact hnamed.foldl (fun op h => h.addNative op) Native.all

end Image

end Prototalk
