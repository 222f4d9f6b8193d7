/-
  Prototalk.Proofs.Image.Genesis
  ────────────────────────────────
  **NEW IMAGES ARE SOUND, AND DIFFER IN THEIR THRESHOLD ONLY.**

  The ten built-in objects refer to nothing but the first of them.  Whatever
  a new image gets after them is a list of effects, so two new images that
  were configured alike, but for the threshold of collections, are twins.
-/
import Prototalk.Image.Genesis
import Prototalk.Proofs.Image.Alike

namespace Prototalk.Image

/-! ## §1. The built-in objects. -/

/-- A built-in object before it has slots. -/
def builtinObject (b : Builtin) : Object :=
  .new (builtinPayload b) (if b = .object then [] else [Builtin.object.ref])

/-- An image without objects. -/
def void (config : Config) : Image :=
  let (selfName, names) := config.names.intern "self"
  let (callName, names) := names.intern "call"
  let (forwardName, names) := names.intern "forward"
  ⟨names, selfName, callName, forwardName, .new config.threshold, [], config.output, 0,
    config.maxDepth, config.lexMode, []⟩

/-- An image with the built-in objects, not one of which has a slot. -/
def seed (config : Config) : Image := Builtin.all.foldl addBuiltin (void config)

/-- Making the built-in objects changes nothing but the objects. -/
theorem foldl_addBuiltin (bs : List Builtin) (image : Image) :
    bs.foldl addBuiltin image
      = { image with objects := (bs.foldl addBuiltin image).objects } := by
  induction bs generalizing image with
  | nil => rfl
  | cons b bs ih =>
    rw [List.foldl_cons, ih]
    rfl

theorem new_eq (config : Config) :
    new config = Native.all.foldl addNative (Builtin.all.foldl nameBuiltin (seed config)) :=
  rfl

theorem cells_seed (config : Config) :
    (seed config).objects.cells = (Builtin.all.map fun b => some (builtinObject b)).toArray :=
  rfl

/-- The identities of the built-in objects. -/
def builtinRefs : Set Ref := {r | r.index < Builtin.all.length}

theorem get?_seed (config : Config) {r : Ref} {o : Object}
    (ho : (seed config).objects.get? r = some o) : ∃ b, o = builtinObject b := by
  rw [Heap.get?, cells_seed, List.getElem?_toArray, List.getElem?_map] at ho
  cases hb : Builtin.all[r.index]? with
  | none => simp [hb] at ho
  | some b =>
    rw [hb] at ho
    exact ⟨b, (Option.some.inj ho).symm⟩

theorem isSome_get?_seed (config : Config) {r : Ref} (hr : r ∈ builtinRefs) :
    ((seed config).objects.get? r).isSome := by
  have hr : r.index < Builtin.all.length := hr
  rw [Heap.get?, cells_seed, List.getElem?_toArray, List.getElem?_map,
    List.getElem?_eq_getElem hr]
  rfl

theorem builtin_mem (b : Builtin) : b.ref ∈ builtinRefs := by
  show b.index < Builtin.all.length
  cases b <;> decide

theorem refs_builtinObject (b : Builtin) {r : Ref} (hr : r ∈ (builtinObject b).refs) :
    r = Builtin.object.ref := by
  cases b <;> simp_all [builtinObject, Object.refs, Object.new, builtinPayload, Payload.refs]

theorem payload_refs_builtinObject (b : Builtin) : (builtinObject b).payload.refs = [] := by
  cases b <;> rfl

theorem mem_handles_seed (config : Config) {r : Ref} (hr : r ∈ (seed config).handles) :
    r ∈ builtinRefs := by
  rw [seed, foldl_addBuiltin] at hr
  have hr : r ∈ Builtin.all.map Builtin.ref := by simpa [handles, void] using hr
  obtain ⟨b, -, rfl⟩ := List.mem_map.mp hr
  exact builtin_mem b

theorem sound_seed (config : Config) : (seed config).Sound where
  held := fun _ hr => isSome_get?_seed config (mem_handles_seed config hr)
  closed := by
    intro r o ho s hs
    obtain ⟨b, rfl⟩ := get?_seed config ho
    rw [refs_builtinObject b hs]
    exact isSome_get?_seed config (builtin_mem .object)
  older := by
    intro r o ho s hs
    obtain ⟨b, rfl⟩ := get?_seed config ho
    rw [payload_refs_builtinObject] at hs
    cases hs

theorem twins_seed (config : Config) (threshold : Nat) :
    Twins builtinRefs (seed config) (seed { config with threshold := threshold }) where
  alike := by
    refine ⟨?_, fun r hr => mem_handles_seed config hr, by rw [cells_seed, cells_seed],
      fun r hr => isSome_get?_seed config hr, fun r _ o ho s hs => ?_,
      fun r _ => by rw [Heap.get?, Heap.get?, cells_seed, cells_seed]⟩
    · rw [seed, seed, foldl_addBuiltin, foldl_addBuiltin Builtin.all (void config)]
      rfl
    obtain ⟨b, rfl⟩ := get?_seed config ho
    rw [refs_builtinObject b hs]
    exact builtin_mem .object
  left := sound_seed config
  right := sound_seed _

/-! ## §2. Slots and operations. -/

variable {known : Set Ref} {i j : Image}

/-- Naming an object changes the names and one slot. -/
theorem Twins.intern_setSlot (ht : Twins known i j) (text : String) {r v : Ref} (hr : r ∈ known)
    (hv : v ∈ known) :
    Twins known ((i.intern text).2.setSlot r (i.intern text).1 v)
      ((j.intern text).2.setSlot r (j.intern text).1 v) := by
  have hj : j.intern text
      = ((i.names.intern text).1, { j with names := (i.names.intern text).2 }) := by
    rw [intern, ht.alike.names_eq]
  rw [hj]
  exact (ht.know (i.names.intern text).2).setSlot hr _ hv

theorem Twins.nameBuiltin (ht : Twins known i j) (b : Builtin) :
    Twins known (i.nameBuiltin b) (j.nameBuiltin b) :=
  ht.intern_setSlot b.name (ht.alike.mem_builtin .object) (ht.alike.mem_builtin b)

theorem Twins.addNative (ht : Twins known i j) (op : Native) :
    ∃ known', Twins known' (i.addNative op) (j.addNative op) := by
  have hmade := ht.after
    (show i.Fits known [.make (.native op) []] from ⟨by simp [Effect.refs, Payload.refs], trivial⟩)
  have hafter := hmade.intern_setSlot op.name (hmade.alike.mem_builtin op.owner)
    (show ⟨i.objects.cells.size⟩ ∈ i.knownAfter known _ from Or.inr rfl)
  -- the operation's object gets the same number in both images
  have hj : j.addNative op = ((j.alloc (.native op) []).2.intern op.name).2.setSlot op.owner.ref
      ((j.alloc (.native op) []).2.intern op.name).1 ⟨i.objects.cells.size⟩ := by
    rw [← ht.alike.objects.size_cells]
    rfl
  rw [hj]
  exact ⟨_, hafter⟩

/-- **New images with different thresholds are twins.** -/
theorem twins_new (config : Config) (threshold : Nat) :
    ∃ known, Twins known (new config) (new { config with threshold := threshold }) := by
  -- names of built-in objects make nothing; each operation makes one object
  have hnamed : ∀ (bs : List Builtin) {i j : Image}, Twins builtinRefs i j →
      Twins builtinRefs (bs.foldl nameBuiltin i) (bs.foldl nameBuiltin j) := by
    intro bs
    induction bs with
    | nil => exact fun ht => ht
    | cons b bs ih => exact fun ht => ih (ht.nameBuiltin b)
  have hadded : ∀ (ops : List Native) {i j : Image}, (∃ known, Twins known i j) →
      ∃ known, Twins known (ops.foldl addNative i) (ops.foldl addNative j) := by
    intro ops
    induction ops with
    | nil => exact fun ht => ht
    | cons op ops ih =>
      rintro i j ⟨known, ht⟩
      exact ih (ht.addNative op)
  rw [new_eq, new_eq]
  exact hadded _ ⟨_, hnamed _ (twins_seed config threshold)⟩

/-- Nothing is held of a new image. -/
theorem held_new (config : Config) : (new config).held = [] := by
  have hnamed : ∀ (bs : List Builtin) (image : Image),
      (bs.foldl nameBuiltin image).held = image.held := by
    intro bs
    induction bs with
    | nil => exact fun _ => rfl
    | cons b bs ih => exact fun image => ih _
  have hadded : ∀ (ops : List Native) (image : Image),
      (ops.foldl addNative image).held = image.held := by
    intro ops
    induction ops with
    | nil => exact fun _ => rfl
    | cons op ops ih => exact fun image => ih _
  rw [new_eq, hadded, hnamed, seed, foldl_addBuiltin]
  rfl

end Prototalk.Image
