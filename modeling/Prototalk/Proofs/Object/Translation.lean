/-
  Prototalk.Proofs.Object.Translation
  ────────────────────────────────
  **THE SAME OBJECTS WITH OTHER NAMES.**

  Names are the keys of slots and stand in the code that blocks, calls and
  messages keep.  Two heaps are translations of each other if their objects
  have the same numbers and differ in names only, as a dictionary pairs
  them.  Then

    • a slot is found under a name if it is found under the other one of its
      pair (`Heap.Translates.lookup?_eq`),
    • what refers to what is the same, so that collections remove the same
      objects (`Heap.Translates.collect`, `Heap.Translates.live_eq`),
    • whatever is made or changed is translated.
-/
import Prototalk.Object.Lookup
import Prototalk.Proofs.Message.Translation
import Prototalk.Proofs.Object.Collection

namespace Prototalk

/-! ## §1. Translations. -/

/-- The blocks have the same code and the same parameters. -/
structure Block.Translates (d : Dictionary) (b b' : Block) : Prop where
  body : Option.Rel (Chain.Translates d) b.body b'.body
  captured_eq : b'.captured = b.captured
  params : List.Forall₂ d.Pairs b.params b'.params
  activatable_eq : b'.activatable = b.activatable

/-- The calls are of the same message in the same circumstances. -/
structure CallRecord.Translates (d : Dictionary) (c c' : CallRecord) : Prop where
  sender_eq : c'.sender = c.sender
  target_eq : c'.target = c.target
  activated_eq : c'.activated = c.activated
  site : c.site.Translates d c'.site

/-- The payloads are the same, and code in them says the same. -/
inductive Payload.Translates (d : Dictionary) : Payload → Payload → Prop where
  | plain : Payload.Translates d .plain .plain
  | nil : Payload.Translates d .nil .nil
  | boolean (b : Bool) : Payload.Translates d (.boolean b) (.boolean b)
  | number (x : Binary64) : Payload.Translates d (.number x) (.number x)
  | text (s : String) : Payload.Translates d (.text s) (.text s)
  | native (op : Native) : Payload.Translates d (.native op) (.native op)
  | block {b b' : Block} (h : b.Translates d b') : Payload.Translates d (.block b) (.block b')
  | call {c c' : CallRecord} (h : c.Translates d c') : Payload.Translates d (.call c) (.call c')
  | message {s s' : Site} (h : s.Translates d s') :
      Payload.Translates d (.message s) (.message s')

/-- The slots hold the same object under paired names. -/
structure SlotTranslates (d : Dictionary) (x y : Name × Ref) : Prop where
  name : d.Pairs x.1 y.1
  value_eq : y.2 = x.2

/-- The objects are the same but for the names. -/
structure Object.Translates (d : Dictionary) (o o' : Object) : Prop where
  payload : o.payload.Translates d o'.payload
  slots : List.Forall₂ (SlotTranslates d) o.slots o'.slots
  protos_eq : o'.protos = o.protos

/-- The heaps have the same objects under the same numbers, but for the names. -/
structure Heap.Translates (d : Dictionary) (h h' : Heap) : Prop where
  size_eq : h'.cells.size = h.cells.size
  fresh_eq : h'.fresh = h.fresh
  threshold_eq : h'.threshold = h.threshold
  get? : ∀ r, Option.Rel (Object.Translates d) (h.get? r) (h'.get? r)

/-! ### Larger dictionaries -/

/-- What holds of related things holds of them under a weaker relation. -/
theorem rel_imp {α β : Type} {R S : α → β → Prop} {x : Option α} {y : Option β}
    (himp : ∀ a b, R a b → S a b) (h : Option.Rel R x y) : Option.Rel S x y := by
  cases h with
  | none => exact .none
  | some h => exact .some (himp _ _ h)

section

variable {d d' : Dictionary} (hext : d.Extends d')

include hext

theorem Block.Translates.mono {b b' : Block} (h : b.Translates d b') : b.Translates d' b' where
  body := rel_imp (fun _ _ hc => Chain.Translates.mono hext hc) h.body
  captured_eq := h.captured_eq
  params := h.params.imp fun _ _ hn => hn.mono hext
  activatable_eq := h.activatable_eq

theorem Payload.Translates.mono {p p' : Payload} (h : p.Translates d p') :
    p.Translates d' p' := by
  cases h with
  | plain => exact .plain
  | nil => exact .nil
  | boolean b => exact .boolean b
  | number x => exact .number x
  | text s => exact .text s
  | native op => exact .native op
  | block h => exact .block (h.mono hext)
  | call h => exact .call ⟨h.sender_eq, h.target_eq, h.activated_eq, h.site.mono hext⟩
  | message h => exact .message (h.mono hext)

theorem Object.Translates.mono {o o' : Object} (h : o.Translates d o') : o.Translates d' o' where
  payload := h.payload.mono hext
  slots := h.slots.imp fun _ _ hs => ⟨hs.name.mono hext, hs.value_eq⟩
  protos_eq := h.protos_eq

theorem Heap.Translates.mono {h h' : Heap} (ht : h.Translates d h') : h.Translates d' h' where
  size_eq := ht.size_eq
  fresh_eq := ht.fresh_eq
  threshold_eq := ht.threshold_eq
  get? := fun r => rel_imp (fun _ _ ho => ho.mono hext) (ht.get? r)

end

variable {d : Dictionary}

/-! ## §2. Objects. -/

theorem Block.Translates.isMethod_eq {b b' : Block} (h : b.Translates d b') :
    b'.isMethod = b.isMethod := by
  rw [isMethod, isMethod, h.captured_eq]

theorem Block.Translates.new {body body' : Option Chain} {params params' : List Name}
    (hbody : Option.Rel (Chain.Translates d) body body')
    (hparams : List.Forall₂ d.Pairs params params') (captured : Option Ref) :
    (Block.new body params captured).Translates d (.new body' params' captured) :=
  ⟨hbody, rfl, hparams, rfl⟩

namespace Payload.Translates

variable {p p' : Payload}

theorem isTruthy_eq (h : p.Translates d p') : p'.isTruthy = p.isTruthy := by
  cases h <;> rfl

theorem refs_eq (h : p.Translates d p') : p'.refs = p.refs := by
  cases h with
  | block h => rw [refs, refs, h.captured_eq]
  | call h => rw [refs, refs, h.sender_eq, h.target_eq, h.activated_eq]
  | _ => rfl

theorem setActivatable (h : p.Translates d p') (flag : Bool) :
    (p.setActivatable flag).Translates d (p'.setActivatable flag) := by
  cases h with
  | block h => exact .block ⟨h.body, h.captured_eq, h.params, rfl⟩
  | plain => exact .plain
  | nil => exact .nil
  | boolean b => exact .boolean b
  | number x => exact .number x
  | text s => exact .text s
  | native op => exact .native op
  | call h => exact .call h
  | message h => exact .message h

end Payload.Translates

/-! ### Slots -/

/-- A name finds in its table what the other one of its pair finds in the other table. -/
theorem lookup_eq {slots slots' : List (Name × Ref)}
    (h : List.Forall₂ (SlotTranslates d) slots slots') {n k : Name} (hnk : d.Pairs n k) :
    slots'.lookup k = slots.lookup n := by
  induction h with
  | nil => rfl
  | @cons x y slots slots' hxy _ ih =>
    obtain ⟨m, v⟩ := x
    obtain ⟨m', w⟩ := y
    obtain ⟨hname, hvalue⟩ := hxy
    dsimp only at hname hvalue
    -- a slot is skipped on one side exactly if it is skipped on the other
    have hbeq : (k == m') = (n == m) := by
      rw [Bool.eq_iff_iff]
      simpa using (hnk.eq_iff hname).symm
    rw [List.lookup_cons, List.lookup_cons, hbeq, hvalue, ih]

theorem putSlot_translates {slots slots' : List (Name × Ref)}
    (h : List.Forall₂ (SlotTranslates d) slots slots') {n k : Name} (hnk : d.Pairs n k) (v : Ref) :
    List.Forall₂ (SlotTranslates d) (Object.putSlot n v slots) (Object.putSlot k v slots') := by
  induction h with
  | nil => exact .cons ⟨hnk, rfl⟩ .nil
  | @cons x y slots slots' hxy hrest ih =>
    have hsame := hxy.name.eq_iff hnk
    unfold Object.putSlot
    by_cases hn : x.1 = n
    · rw [if_pos hn, if_pos (hsame.mp hn)]
      exact .cons ⟨hnk, rfl⟩ hrest
    · rw [if_neg hn, if_neg fun hk => hn (hsame.mpr hk)]
      exact .cons hxy ih

namespace Object.Translates

variable {o o' : Object} (h : o.Translates d o')

include h

theorem refs_eq : o'.refs = o.refs := by
  have hvalues : o'.slots.map (·.2) = o.slots.map (·.2) := by
    have hslots := h.slots
    generalize o.slots = slots, o'.slots = slots' at hslots ⊢
    induction hslots with
    | nil => rfl
    | cons hs _ ih => rw [List.map_cons, List.map_cons, ih, hs.value_eq]
  rw [refs, refs, hvalues, h.protos_eq, h.payload.refs_eq]

theorem slot?_eq {n k : Name} (hnk : d.Pairs n k) : o'.slot? k = o.slot? n := lookup_eq h.slots hnk

theorem setSlot {n k : Name} (hnk : d.Pairs n k) (v : Ref) :
    (o.setSlot n v).Translates d (o'.setSlot k v) :=
  ⟨h.payload, putSlot_translates h.slots hnk v, h.protos_eq⟩

theorem appendProto (p : Ref) : (o.appendProto p).Translates d (o'.appendProto p) :=
  ⟨h.payload, h.slots, congrArg (· ++ [p]) h.protos_eq⟩

theorem cleared : o.cleared.Translates d o'.cleared := ⟨h.payload, .nil, rfl⟩

end Object.Translates

/-! ## §3. Heaps. -/

namespace Heap.Translates

variable {h h' : Heap} (ht : h.Translates d h')

include ht

theorem isSome_eq (r : Ref) : (h'.get? r).isSome = (h.get? r).isSome := by
  have hr := ht.get? r
  generalize h.get? r = x, h'.get? r = y at hr ⊢
  cases hr <;> rfl

theorem payload (r : Ref) : (h.payload r).Translates d (h'.payload r) := by
  have hr := ht.get? r
  unfold Heap.payload
  generalize h.get? r = x, h'.get? r = y at hr ⊢
  cases hr with
  | none => exact .plain
  | some ho => exact ho.payload

theorem protos_eq (r : Ref) : h'.protos r = h.protos r := by
  have hr := ht.get? r
  unfold Heap.protos
  generalize h.get? r = x, h'.get? r = y at hr ⊢
  cases hr with
  | none => rfl
  | some ho => exact ho.protos_eq

theorem cellRefs_eq (r : Ref) : cellRefs (h'.get? r) = cellRefs (h.get? r) := by
  have hr := ht.get? r
  generalize h.get? r = x, h'.get? r = y at hr ⊢
  cases hr with
  | none => rfl
  | some ho => exact ho.refs_eq

theorem ownSlot?_eq (r : Ref) {n k : Name} (hnk : d.Pairs n k) :
    h'.ownSlot? r k = h.ownSlot? r n := by
  have hr := ht.get? r
  unfold Heap.ownSlot?
  generalize h.get? r = x, h'.get? r = y at hr ⊢
  cases hr with
  | none => rfl
  | some ho => exact ho.slot?_eq hnk

/-! ### Making, changing and removing -/

theorem alloc {o o' : Object} (ho : o.Translates d o') :
    (h'.alloc o').1 = (h.alloc o).1 ∧ (h.alloc o).2.Translates d (h'.alloc o').2 := by
  refine ⟨congrArg Ref.mk ht.size_eq, ?_, congrArg (· + 1) ht.fresh_eq, ht.threshold_eq,
    fun r => ?_⟩
  · rw [size_cells_alloc, size_cells_alloc, ht.size_eq]
  · rw [get?_alloc, get?_alloc, ht.size_eq]
    by_cases hr : r = ⟨h.cells.size⟩
    · rw [if_pos hr, if_pos hr]
      exact .some ho
    · rw [if_neg hr, if_neg hr]
      exact ht.get? r

theorem modify (r : Ref) {f f' : Object → Object}
    (hf : ∀ {o o' : Object}, o.Translates d o' → (f o).Translates d (f' o')) :
    (h.modify r f).Translates d (h'.modify r f') := by
  refine ⟨?_, ht.fresh_eq, ht.threshold_eq, fun s => ?_⟩
  · rw [size_cells_modify, size_cells_modify, ht.size_eq]
  · have hs := ht.get? s
    rw [get?_modify, get?_modify]
    by_cases hsr : s = r
    · rw [if_pos hsr, if_pos hsr]
      generalize h.get? s = x, h'.get? s = y at hs ⊢
      cases hs with
      | none => exact .none
      | some ho => exact .some (hf ho)
    · rw [if_neg hsr, if_neg hsr]
      exact hs

theorem erase (r : Ref) : (h.erase r).Translates d (h'.erase r) := by
  refine ⟨?_, ht.fresh_eq, ht.threshold_eq, fun s => ?_⟩
  · rw [size_cells_erase, size_cells_erase, ht.size_eq]
  · rw [get?_erase, get?_erase]
    by_cases hsr : s = r
    · rw [if_pos hsr, if_pos hsr]
      exact .none
    · rw [if_neg hsr, if_neg hsr]
      exact ht.get? s

theorem setSlot (r : Ref) {n k : Name} (hnk : d.Pairs n k) (v : Ref) :
    (h.setSlot r n v).Translates d (h'.setSlot r k v) :=
  ht.modify r fun ho => ho.setSlot hnk v

theorem appendProto (r p : Ref) : (h.appendProto r p).Translates d (h'.appendProto r p) :=
  ht.modify r fun ho => ho.appendProto p

/-! ### Slots -/

theorem search_eq {n k : Name} (hnk : d.Pairs n k) (rounds : Nat) (visited todo : List Ref) :
    h'.search k rounds visited todo = h.search n rounds visited todo := by
  induction rounds generalizing visited todo with
  | zero => rfl
  | succ rounds ih =>
    -- the same objects are gone, so both searches go on with the same one
    have hgone : (fun r => visited.contains r || (h'.get? r).isNone)
        = fun r => visited.contains r || (h.get? r).isNone := by
      funext r
      rw [← Option.not_isSome, ← Option.not_isSome, ht.isSome_eq]
    rw [search, search, hgone]
    cases todo.dropWhile fun r => visited.contains r || (h.get? r).isNone with
    | nil => rfl
    | cons r rest =>
      dsimp only
      rw [ht.ownSlot?_eq r hnk, ht.protos_eq, ih]

/-- **Paired names find the same slot.** -/
theorem lookup?_eq (r : Ref) {n k : Name} (hnk : d.Pairs n k) : h'.lookup? r k = h.lookup? r n := by
  rw [Heap.lookup?, Heap.lookup?, ht.size_eq, ht.search_eq hnk]

/-! ## §4. Collection. -/

theorem refs_eq : h'.refs = h.refs := by
  unfold Heap.refs
  rw [ht.size_eq]
  simp only [ht.isSome_eq]

theorem tally_eq (handles : List Ref) : h'.tally handles = h.tally handles := by
  -- counting looks at nothing but the references, which no name is part of
  have hcitations : h'.citations = h.citations := by
    rw [citations, citations, toList_cells, toList_cells, ht.size_eq, List.flatMap_map,
      List.flatMap_map]
    simp only [ht.cellRefs_eq]
  rw [Heap.tally_eq, Heap.tally_eq, hcitations, ht.size_eq]

theorem releaseFrom (rounds : Nat) (counts : Array Nat) (todo : List Ref) :
    (releaseFrom rounds counts todo h).Translates d (releaseFrom rounds counts todo h') := by
  induction rounds generalizing counts todo h h' with
  | zero => exact ht
  | succ rounds ih =>
    cases todo with
    | nil => exact ht
    | cons r todo =>
      have hr := ht.get? r
      unfold Heap.releaseFrom
      generalize h.get? r = x, h'.get? r = y at hr ⊢
      cases hr with
      | none => exact ih ht counts todo
      | some ho =>
        dsimp only
        rw [ho.refs_eq]
        exact ih (ht.erase r) _ _

theorem release (handles : List Ref) :
    (h.release handles).Translates d (h'.release handles) := by
  unfold Heap.release
  rw [ht.tally_eq, ht.refs_eq, ht.size_eq]
  exact ht.releaseFrom _ _ _

theorem size_objects_eq : h'.size = h.size := by
  rw [size_eq_length_refs, size_eq_length_refs, ht.refs_eq]

/-- **As many objects are there.** -/
theorem live_eq (handles : List Ref) : h'.live handles = h.live handles :=
  (ht.release handles).size_objects_eq

theorem markFrom_eq (rounds : Nat) (marked : Array Bool) (pending : List Ref) :
    h'.markFrom rounds marked pending = h.markFrom rounds marked pending := by
  induction rounds generalizing marked pending with
  | zero => rfl
  | succ rounds ih =>
    cases pending with
    | nil => rfl
    | cons r pending =>
      have hr := ht.get? r
      rw [markFrom, markFrom]
      generalize h.get? r = x, h'.get? r = y at hr ⊢
      cases hr with
      | none => exact ih _ _
      | some ho =>
        dsimp only
        rw [ho.refs_eq]
        exact ih _ _

theorem garbage_eq (handles : List Ref) : h'.garbage handles = h.garbage handles := by
  unfold Heap.garbage Heap.mark Heap.roots
  simp only [ht.refs_eq, ht.tally_eq, ht.size_eq, ht.markFrom_eq]

theorem clear (refs : List Ref) : (h.clear refs).Translates d (h'.clear refs) := by
  induction refs generalizing h h' with
  | nil => exact ht
  | cons r refs ih => exact ih (ht.modify r fun ho => ho.cleared)

/-- **A collection removes the same.** -/
theorem collect (handles : List Ref) :
    (h'.collect handles).1 = (h.collect handles).1
      ∧ (h.collect handles).2.Translates d (h'.collect handles).2 := by
  have hreleased := ht.release handles
  have hcleared := (hreleased.clear ((h.release handles).garbage handles)).release handles
  unfold Heap.collect
  dsimp only
  rw [hreleased.garbage_eq]
  exact ⟨rfl, hcleared.size_eq, rfl, hcleared.threshold_eq, hcleared.get?⟩

end Heap.Translates

end Prototalk
