/-
  Prototalk.Proofs.Image.Effect
  ────────────────────────────────
  **WHAT CAN HAPPEN TO AN IMAGE.**

  Apart from collections, whatever a program does to an image is a list of
  the effects below; what is held from outside is not among them.  Each
  mentions the objects it works with (`Effect.refs`), and a list of effects
  `Fits` a set of known objects if it mentions only these and the objects it
  has made itself.

  What every effect preserves is said once, here:

    • `Image.Sound` — nothing refers to what is gone, payloads refer to what
      is older,
    • `Payload.captured?` — what a block has captured never changes.
-/
import Mathlib.Data.Set.Insert
import Prototalk.Image
import Prototalk.Proofs.Object.Reference

namespace Prototalk

/-! ## §1. Effects. -/

/-- One change of an image. -/
inductive Effect where
  /-- Make an object. -/
  | make (payload : Payload) (protos : List Ref)
  /-- Set a slot. -/
  | setSlot (r : Ref) (n : Name) (v : Ref)
  /-- Let an object delegate to one more. -/
  | appendProto (r p : Ref)
  /-- Tell a block whether finding it runs it. -/
  | setActivatable (r : Ref) (flag : Bool)
  /-- Remember the object of a literal. -/
  | remember (c : Constant) (r : Ref)
  /-- Replace the table of names. -/
  | know (names : Interner)
  /-- Replace what was written. -/
  | write (output : Output)
  /-- Set the number of activations. -/
  | setDepth (depth : Nat)

namespace Effect

/-- The image after an effect. -/
def apply (image : Image) : Effect → Image
  | .make payload protos => (image.alloc payload protos).2
  | .setSlot r n v => image.setSlot r n v
  | .appendProto r p => image.appendProto r p
  | .setActivatable r flag => image.setActivatable r flag
  | .remember c r => { image with literals := (c, r) :: image.literals }
  | .know names => { image with names := names }
  | .write output => { image with output := output }
  | .setDepth depth => { image with depth := depth }

/-- The objects that an effect mentions. -/
def refs : Effect → List Ref
  | .make payload protos => payload.refs ++ protos
  | .setSlot r _ v => [r, v]
  | .appendProto r p => [r, p]
  | .setActivatable r _ => [r]
  | .remember _ r => [r]
  | _ => []

/-- The object that an effect makes. -/
def made (image : Image) : Effect → Set Ref
  | .make _ _ => {⟨image.objects.cells.size⟩}
  | _ => ∅

end Effect

namespace Image

/-- The image after several effects. -/
def after (image : Image) (effects : List Effect) : Image := effects.foldl Effect.apply image

/-- The objects known after several effects, if `known` were known before. -/
def knownAfter (image : Image) (known : Set Ref) : List Effect → Set Ref
  | [] => known
  | e :: effects => (e.apply image).knownAfter (known ∪ e.made image) effects

/-- Effects that mention known objects only. -/
def Fits (image : Image) (known : Set Ref) : List Effect → Prop
  | [] => True
  | e :: effects =>
      (∀ r ∈ e.refs, r ∈ known) ∧ (e.apply image).Fits (known ∪ e.made image) effects

variable {image : Image} {known : Set Ref} {effects more : List Effect} {r : Ref}

theorem after_append (image : Image) (effects more : List Effect) :
    image.after (effects ++ more) = (image.after effects).after more :=
  List.foldl_append

theorem knownAfter_append (image : Image) (known : Set Ref) (effects more : List Effect) :
    image.knownAfter known (effects ++ more)
      = (image.after effects).knownAfter (image.knownAfter known effects) more := by
  induction effects generalizing image known with
  | nil => rfl
  | cons e effects ih => exact ih _ _

theorem Fits.append (hfirst : image.Fits known effects)
    (hrest : (image.after effects).Fits (image.knownAfter known effects) more) :
    image.Fits known (effects ++ more) := by
  induction effects generalizing image known with
  | nil => exact hrest
  | cons e effects ih => exact ⟨hfirst.1, ih hfirst.2 hrest⟩

/-- No effect changes what is held from outside. -/
theorem held_after (image : Image) (effects : List Effect) :
    (image.after effects).held = image.held := by
  induction effects generalizing image with
  | nil => rfl
  | cons e effects ih =>
    refine (ih (e.apply image)).trans ?_
    cases e <;> rfl

theorem mem_knownAfter (effects : List Effect) (hr : r ∈ known) :
    r ∈ image.knownAfter known effects := by
  induction effects generalizing image known with
  | nil => exact hr
  | cons e effects ih => exact ih (Set.mem_union_left _ hr)

end Image

/-! ## §2. Sound images. -/

namespace Object

theorem mem_putSlot {n m : Name} {v w : Ref} {slots : List (Name × Ref)}
    (hw : (m, w) ∈ putSlot n v slots) : (m, w) ∈ slots ∨ w = v := by
  induction slots with
  | nil =>
    simp only [putSlot, List.mem_singleton, Prod.mk.injEq] at hw
    exact Or.inr hw.2
  | cons slot slots ih =>
    obtain ⟨k, u⟩ := slot
    unfold putSlot at hw
    split at hw
    · rcases List.mem_cons.mp hw with hw | hw
      · exact Or.inr (Prod.mk.inj hw).2
      · exact Or.inl (List.mem_cons_of_mem _ hw)
    · rcases List.mem_cons.mp hw with hw | hw
      · exact Or.inl (hw ▸ List.mem_cons_self)
      · exact (ih hw).imp_left (List.mem_cons_of_mem _)

theorem mem_refs_setSlot {o : Object} {n : Name} {v s : Ref} (hs : s ∈ (o.setSlot n v).refs) :
    s ∈ o.refs ∨ s = v := by
  simp only [refs, setSlot, List.mem_append, List.mem_map, Prod.exists, exists_eq_right] at hs ⊢
  rcases hs with (⟨m, hm⟩ | hs) | hs
  · exact (mem_putSlot hm).imp_left fun hm => Or.inl (Or.inl ⟨m, hm⟩)
  · exact Or.inl (Or.inl (Or.inr hs))
  · exact Or.inl (Or.inr hs)

theorem mem_refs_appendProto {o : Object} {p s : Ref} (hs : s ∈ (o.appendProto p).refs) :
    s ∈ o.refs ∨ s = p := by
  simp only [refs, appendProto, List.mem_append, List.mem_singleton] at hs ⊢
  rcases hs with (hs | hs | hs) | hs
  · exact Or.inl (Or.inl (Or.inl hs))
  · exact Or.inl (Or.inl (Or.inr hs))
  · exact Or.inr hs
  · exact Or.inl (Or.inr hs)

end Object

@[simp] theorem Payload.refs_setActivatable (flag : Bool) (p : Payload) :
    (p.setActivatable flag).refs = p.refs := by
  cases p <;> rfl

namespace Heap

variable {h : Heap} {handles : List Ref} {r s : Ref} {o : Object} {f : Object → Object}

theorem isSome_get?_alloc (o : Object) (hr : (h.get? r).isSome) :
    ((h.alloc o).2.get? r).isSome := by
  rw [get?_alloc]
  split
  · rfl
  · exact hr

theorem isSome_get?_modify : ((h.modify r f).get? s).isSome ↔ (h.get? s).isSome := by
  rw [get?_modify]
  split <;> simp

/-- A new object may refer to what is there. -/
theorem Sound.alloc (hsound : h.Sound handles) (ho : ∀ s ∈ o.refs, (h.get? s).isSome) :
    (h.alloc o).2.Sound handles := by
  refine ⟨fun r hr => isSome_get?_alloc o (hsound.held r hr), fun r p hp s hs => ?_,
    fun r p hp s hs => ?_⟩ <;> rw [get?_alloc] at hp <;> split at hp
  · cases hp
    exact isSome_get?_alloc o (ho s hs)
  · exact isSome_get?_alloc o (hsound.closed r p hp s hs)
  · rename_i hr
    cases hp
    subst hr
    -- the new object has the next number, so whatever is there is older
    obtain ⟨q, hq⟩ := Option.isSome_iff_exists.mp (ho s (List.mem_append_right _ hs))
    exact index_lt_of_get? hq
  · exact hsound.older r p hp s hs

/-- A changed object may refer to what is there, and keeps the references of its payload. -/
theorem Sound.modify (hsound : h.Sound handles)
    (hf : ∀ o, ∀ s ∈ (f o).refs, s ∈ o.refs ∨ (h.get? s).isSome)
    (hpayload : ∀ o, (f o).payload.refs = o.payload.refs) : (h.modify r f).Sound handles := by
  have hobject : ∀ s o, (h.modify r f).get? s = some o →
      ∃ o', h.get? s = some o' ∧ (o = f o' ∨ o = o') := by
    intro s o ho
    rw [get?_modify] at ho
    split at ho
    · obtain ⟨o', ho', rfl⟩ := Option.map_eq_some_iff.mp ho
      exact ⟨o', ho', Or.inl rfl⟩
    · exact ⟨o, ho, Or.inr rfl⟩
  refine ⟨fun s hs => isSome_get?_modify.mpr (hsound.held s hs), fun s o ho t ht => ?_,
    fun s o ho t ht => ?_⟩
  · rw [isSome_get?_modify]
    obtain ⟨o', ho', rfl | rfl⟩ := hobject s o ho
    · exact (hf o' t ht).elim (hsound.closed s o' ho' t) id
    · exact hsound.closed s o ho' t ht
  · obtain ⟨o', ho', rfl | rfl⟩ := hobject s o ho
    · exact hsound.older s o' ho' t (hpayload o' ▸ ht)
    · exact hsound.older s o ho' t ht

/-- Other handles, if they are objects. -/
theorem Sound.of_held {others : List Ref} (hsound : h.Sound handles)
    (hothers : ∀ r ∈ others, (h.get? r).isSome) : h.Sound others :=
  ⟨hothers, hsound.closed, hsound.older⟩

end Heap

namespace Image

variable {image : Image} {known : Set Ref} {e : Effect} {effects : List Effect} {r : Ref}

/-- Nothing of an image refers to what is gone, and payloads refer to older objects. -/
def Sound (image : Image) : Prop := image.objects.Sound image.handles

/-- Objects stay. -/
theorem isSome_get?_apply (image : Image) (e : Effect) (hr : (image.objects.get? r).isSome) :
    ((e.apply image).objects.get? r).isSome := by
  cases e with
  | make payload protos => exact Heap.isSome_get?_alloc _ hr
  | setSlot => exact Heap.isSome_get?_modify.mpr hr
  | appendProto => exact Heap.isSome_get?_modify.mpr hr
  | setActivatable => exact Heap.isSome_get?_modify.mpr hr
  | _ => exact hr

theorem isSome_get?_of_mem_made (image : Image) (e : Effect) (hr : r ∈ e.made image) :
    ((e.apply image).objects.get? r).isSome := by
  cases e with
  | make payload protos =>
    cases hr
    show ((image.objects.alloc _).2.get? _).isSome
    rw [Heap.get?_alloc, if_pos rfl]
    rfl
  | _ => cases hr

/-- **An effect that mentions objects of the image leaves it sound.** -/
theorem Sound.apply (hsound : image.Sound) (hrefs : ∀ r ∈ e.refs, (image.objects.get? r).isSome) :
    (e.apply image).Sound := by
  cases e with
  | make payload protos =>
    refine Heap.Sound.alloc hsound fun s hs => hrefs s ?_
    simp only [Object.refs, Object.new, List.map_nil, List.nil_append, List.mem_append] at hs
    exact List.mem_append.mpr hs.symm
  | setSlot r n v =>
    refine Heap.Sound.modify hsound (fun o s hs => ?_) fun _ => rfl
    exact (Object.mem_refs_setSlot hs).imp_right fun hs => hrefs s (by simp [Effect.refs, hs])
  | appendProto r p =>
    refine Heap.Sound.modify hsound (fun o s hs => ?_) fun _ => rfl
    exact (Object.mem_refs_appendProto hs).imp_right fun hs => hrefs s (by simp [Effect.refs, hs])
  | setActivatable r flag =>
    refine Heap.Sound.modify hsound (fun o s hs => Or.inl ?_)
      fun o => Payload.refs_setActivatable ..
    simpa [Object.refs] using hs
  | remember c r =>
    refine Heap.Sound.of_held hsound fun s hs => ?_
    simp only [handles, Effect.apply, List.map_cons, List.mem_append, List.mem_cons] at hs
    rcases hs with (hs | rfl | hs) | hs
    · exact hsound.held s (List.mem_append_left _ (List.mem_append_left _ hs))
    · exact hrefs s (by simp [Effect.refs])
    · exact hsound.held s (List.mem_append_left _ (List.mem_append_right _ hs))
    · exact hsound.held s (List.mem_append_right _ hs)
  | _ => exact hsound

/-! ## §3. What a block has captured. -/

end Image

/-- What a block has captured; nothing for other payloads. -/
def Payload.captured? : Payload → Option (Option Ref)
  | .block b => some b.captured
  | _ => none

namespace Image

variable {image : Image} {r : Ref}

theorem payload_eq_of_get? {o : Object} (ho : image.objects.get? r = some o) :
    image.payload r = o.payload :=
  Heap.payload_of_get? ho

theorem captured?_modify (h : Heap) (r s : Ref) (f : Object → Object)
    (hf : ∀ o, (f o).payload.captured? = o.payload.captured?) :
    ((h.modify r f).payload s).captured? = (h.payload s).captured? := by
  rw [Heap.payload, Heap.payload, Heap.get?_modify]
  by_cases hs : s = r
  · rw [if_pos hs]
    cases h.get? s with
    | none => rfl
    | some o => exact hf o
  · rw [if_neg hs]

/-- No effect changes what a block has captured. -/
theorem captured?_apply (image : Image) (e : Effect) (hr : (image.objects.get? r).isSome) :
    ((e.apply image).payload r).captured? = (image.payload r).captured? := by
  cases e with
  | make payload protos =>
    obtain ⟨o, ho⟩ := Option.isSome_iff_exists.mp hr
    -- the new object is not one of those that were there
    have hne : r ≠ ⟨image.objects.cells.size⟩ := by
      rintro rfl
      exact Nat.lt_irrefl _ (Heap.index_lt_of_get? ho)
    have hget : (Effect.apply image (.make payload protos)).objects.get? r = some o := by
      show (image.objects.alloc _).2.get? r = _
      rw [Heap.get?_alloc, if_neg hne, ho]
    rw [payload_eq_of_get? hget, payload_eq_of_get? ho]
  | setSlot => exact captured?_modify _ _ _ _ fun _ => rfl
  | appendProto => exact captured?_modify _ _ _ _ fun _ => rfl
  | setActivatable r flag =>
    refine captured?_modify _ _ _ _ fun o => ?_
    show (o.payload.setActivatable flag).captured? = _
    cases o.payload <;> rfl
  | _ => rfl

/-! ## §4. Several effects. -/

variable {known : Set Ref} {effects : List Effect}

/-- **Effects that fit leave an image sound.** -/
theorem Sound.after (hsound : image.Sound) (hknown : ∀ r ∈ known, (image.objects.get? r).isSome)
    (hfits : image.Fits known effects) : (image.after effects).Sound := by
  induction effects generalizing image known with
  | nil => exact hsound
  | cons e effects ih =>
    refine ih (hsound.apply fun r hr => hknown r (hfits.1 r hr)) (fun r hr => ?_) hfits.2
    -- known are the objects from before and the one just made
    exact hr.elim (fun hr => isSome_get?_apply image e (hknown r hr))
      (isSome_get?_of_mem_made image e)

theorem captured?_after (image : Image) (effects : List Effect)
    (hr : (image.objects.get? r).isSome) :
    ((image.after effects).payload r).captured? = (image.payload r).captured? := by
  induction effects generalizing image with
  | nil => rfl
  | cons e effects ih =>
    exact (ih (e.apply image) (isSome_get?_apply image e hr)).trans (captured?_apply image e hr)

end Image

end Prototalk
