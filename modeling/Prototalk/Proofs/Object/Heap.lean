/-
  Prototalk.Proofs.Object.Heap
  ────────────────────────────────
  **WHAT EACH OPERATION DOES TO THE VIEW `get?`.**

  A heap is looked at through `get?` and through its number of cells.  The
  lemmas here say what making, changing and removing an object does to
  these two, and that `refs` lists every object once, so that no later
  proof has to open the array of cells.  In the same way `lookup_putSlot`
  says what a table of slots holds when one of them was set.
-/
import Mathlib.Data.List.Basic
import Mathlib.Data.List.Nodup
import Prototalk.Object.Heap

namespace Prototalk

/-- A slot that is set has its new value, and the others keep theirs. -/
theorem Object.lookup_putSlot (n m : Name) (v : Ref) (slots : List (Name × Ref)) :
    (putSlot n v slots).lookup m = if m = n then some v else slots.lookup m := by
  have hbeq : ∀ {k : Name}, m ≠ k → (m == k) = false := fun hmk => beq_eq_false_iff_ne.mpr hmk
  induction slots with
  | nil =>
    by_cases hmn : m = n
    · simp [putSlot, hmn]
    · simp [putSlot, List.lookup_cons, hmn, hbeq hmn]
  | cons slot slots ih =>
    obtain ⟨k, w⟩ := slot
    unfold putSlot
    by_cases hkn : k = n
    · subst hkn
      by_cases hmk : m = k
      · simp [hmk]
      · simp [List.lookup_cons, hmk, hbeq hmk]
    · rw [if_neg hkn, List.lookup_cons, List.lookup_cons, ih]
      -- the slot in front is not the one that is set
      by_cases hmk : m = k
      · simp [hmk, hkn]
      · simp [hbeq hmk]

namespace Heap

variable {h : Heap} {r s : Ref} {o : Object}

/-! ## §1. The view. -/

theorem get?_eq_none_of_size_le (hr : h.cells.size ≤ r.index) : h.get? r = none := by
  simp [get?, Array.getElem?_eq_none hr]

theorem index_lt_of_get? (ho : h.get? r = some o) : r.index < h.cells.size := by
  by_contra hr
  rw [get?_eq_none_of_size_le (Nat.le_of_not_lt hr)] at ho
  cases ho

theorem payload_of_get? (ho : h.get? r = some o) : h.payload r = o.payload := by
  simp [payload, ho]

theorem protos_of_get? (ho : h.get? r = some o) : h.protos r = o.protos := by
  simp [protos, ho]

theorem get?_isSome_of_mem_protos {p : Ref} (hp : p ∈ h.protos r) : (h.get? r).isSome := by
  unfold protos at hp
  split at hp
  · simp_all
  · cases hp

/-- The cells are what `get?` shows, number by number. -/
theorem toList_cells (h : Heap) :
    h.cells.toList = (List.range h.cells.size).map fun i => h.get? ⟨i⟩ := by
  refine List.ext_getElem (by simp) fun i hi _ => ?_
  have hlt : i < h.cells.size := by simpa using hi
  simp [get?, Array.getElem?_eq_getElem hlt]

/-! ## §2. Making, changing and removing. -/

@[simp] theorem size_cells_alloc (h : Heap) (o : Object) :
    (h.alloc o).2.cells.size = h.cells.size + 1 := by
  simp [alloc]

theorem get?_alloc (h : Heap) (o : Object) (r : Ref) :
    (h.alloc o).2.get? r = if r = ⟨h.cells.size⟩ then some o else h.get? r := by
  obtain ⟨i⟩ := r
  simp only [alloc, get?, Array.getElem?_push, Ref.mk.injEq]
  split <;> rfl

@[simp] theorem size_cells_modify (h : Heap) (r : Ref) (f : Object → Object) :
    (h.modify r f).cells.size = h.cells.size := by
  simp [modify]

theorem get?_modify (h : Heap) (r s : Ref) (f : Object → Object) :
    (h.modify r f).get? s = if s = r then (h.get? s).map f else h.get? s := by
  obtain ⟨i⟩ := r
  obtain ⟨j⟩ := s
  simp only [modify, get?, Array.getElem?_modify, Ref.mk.injEq]
  by_cases hij : i = j
  · subst hij
    cases h.cells[i]? <;> simp
  · simp [hij, Ne.symm hij]

@[simp] theorem size_cells_erase (h : Heap) (r : Ref) :
    (h.erase r).cells.size = h.cells.size := by
  simp [erase]

theorem get?_erase (h : Heap) (r s : Ref) :
    (h.erase r).get? s = if s = r then none else h.get? s := by
  obtain ⟨i⟩ := r
  obtain ⟨j⟩ := s
  simp only [erase, get?, Array.getElem?_setIfInBounds, Ref.mk.injEq]
  by_cases hij : i = j
  · subst hij
    by_cases hi : i < h.cells.size <;> simp [hi]
  · simp [hij, Ne.symm hij]

/-! ## §3. The list of objects. -/

theorem mem_refs : r ∈ h.refs ↔ (h.get? r).isSome := by
  simp only [refs, List.mem_filterMap, List.mem_range, Option.ite_none_right_eq_some,
    Option.some.injEq]
  constructor
  · rintro ⟨i, _, hi, rfl⟩
    exact hi
  · intro hr
    obtain ⟨o, ho⟩ := Option.isSome_iff_exists.mp hr
    exact ⟨r.index, index_lt_of_get? ho, hr, rfl⟩

theorem nodup_refs (h : Heap) : h.refs.Nodup := by
  refine List.Nodup.filterMap ?_ List.nodup_range
  intro i j r hi hj
  simp only [Option.mem_def, Option.ite_none_right_eq_some, Option.some.injEq] at hi hj
  exact congrArg Ref.index (hi.2.trans hj.2.symm)

theorem length_refs_le (h : Heap) : h.refs.length ≤ h.cells.size := by
  refine Nat.le_trans (List.length_filterMap_le _ _) ?_
  simp

end Heap

end Prototalk
