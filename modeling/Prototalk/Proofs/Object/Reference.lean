/-
  Prototalk.Proofs.Object.Reference
  ────────────────────────────────
  **WHO REFERS TO WHOM.**

  An object refers to others through its slots, its protos and its payload.
  `citations` lists all these references, each as often as it is there, so
  that counting is `List.count`; `Reaches` is what handles lead to.

  A heap is `Sound` for its handles if nothing refers to an object that is
  gone, and payloads refer to older objects only.
-/
import Prototalk.Proofs.Object.Heap

namespace Prototalk.Heap

variable {h h' : Heap} {handles : List Ref} {r s : Ref} {o : Object}

/-! ## §1. All references of a heap. -/

/-- The references of what is in a cell. -/
def cellRefs : Option Object → List Ref
  | none => []
  | some o => o.refs

/-- The references of all objects. -/
def citations (h : Heap) : List Ref := h.cells.toList.flatMap cellRefs

theorem mem_citations : s ∈ h.citations ↔ ∃ r o, h.get? r = some o ∧ s ∈ o.refs := by
  simp only [citations, List.mem_flatMap, Array.mem_toList_iff, Array.mem_iff_getElem?]
  constructor
  · rintro ⟨cell, ⟨i, hi⟩, hs⟩
    cases cell with
    | none => cases hs
    | some o => exact ⟨⟨i⟩, o, by simp [get?, hi], hs⟩
  · rintro ⟨r, o, ho, hs⟩
    refine ⟨some o, ⟨r.index, ?_⟩, hs⟩
    simpa [get?, Option.join_eq_some_iff] using ho

/-- Removing an object takes exactly its own references away. -/
theorem count_citations_erase (ho : h.get? r = some o) (s : Ref) :
    h.citations.count s = (h.erase r).citations.count s + o.refs.count s := by
  have hlt := index_lt_of_get? ho
  have hcell : h.cells.toList[r.index]? = some (some o) := by
    simpa [get?, Option.join_eq_some_iff] using ho
  have hlen : r.index < h.cells.toList.length := by simpa using hlt
  have hget : h.cells.toList[r.index] = some o := by
    simpa [List.getElem?_eq_getElem hlen] using hcell
  -- the cells before `r`, its own and those behind it; only its own is another one afterwards
  have hsplit : h.cells.toList = h.cells.toList.take r.index
      ++ some o :: h.cells.toList.drop (r.index + 1) := by
    rw [← hget, List.getElem_cons_drop, List.take_append_drop]
  have herase : (h.erase r).cells.toList = h.cells.toList.take r.index
      ++ none :: h.cells.toList.drop (r.index + 1) := by
    rw [erase, Array.toList_setIfInBounds, List.set_eq_take_append_cons_drop, if_pos hlen]
  have hbefore := congrArg (fun cells => (cells.flatMap cellRefs).count s) hsplit
  have hafter := congrArg (fun cells => (cells.flatMap cellRefs).count s) herase
  simp only [List.flatMap_append, List.flatMap_cons, List.count_append, cellRefs,
    List.count_nil] at hbefore hafter
  unfold citations
  omega

/-! ## §2. What handles lead to. -/

/-- The objects that handles lead to, through any number of references. -/
inductive Reaches (h : Heap) (handles : List Ref) : Ref → Prop where
  /-- A handle. -/
  | handle {r : Ref} (hr : r ∈ handles) : Reaches h handles r
  /-- What an object that is led to refers to. -/
  | refer {r s : Ref} {o : Object} (hr : Reaches h handles r) (ho : h.get? r = some o)
      (hs : s ∈ o.refs) : Reaches h handles s

/-- A set of objects that holds the handles and whatever its members refer to holds everything the
handles lead to. -/
theorem Reaches.of_closed {P : Ref → Prop} (hhandles : ∀ r ∈ handles, P r)
    (hclosed : ∀ r o, P r → h.get? r = some o → ∀ s ∈ o.refs, P s) (hr : h.Reaches handles r) :
    P r := by
  induction hr with
  | handle hr => exact hhandles _ hr
  | refer _ ho hs ih => exact hclosed _ _ ih ho _ hs

/-- Heaps that have the same objects behind the handles lead to the same. -/
theorem Reaches.congr (hsame : ∀ r, h.Reaches handles r → h'.get? r = h.get? r)
    (hr : h.Reaches handles r) : h'.Reaches handles r := by
  induction hr with
  | handle hr => exact .handle hr
  | refer hr ho hs ih => exact .refer ih ((hsame _ hr).trans ho) hs

theorem reaches_iff_of_get?_eq (hsame : ∀ r, h.Reaches handles r → h'.get? r = h.get? r) (r : Ref) :
    h'.Reaches handles r ↔ h.Reaches handles r := by
  refine ⟨fun hr => ?_, Reaches.congr hsame⟩
  induction hr with
  | handle hr => exact .handle hr
  | refer _ ho hs ih => exact .refer ih ((hsame _ ih).symm.trans ho) hs

/-! ## §3. Sound heaps. -/

/-- Nothing refers to what is gone, and payloads refer to older objects. -/
structure Sound (h : Heap) (handles : List Ref) : Prop where
  /-- Handles are objects. -/
  held : ∀ r ∈ handles, (h.get? r).isSome
  /-- Objects refer to objects. -/
  closed : ∀ r o, h.get? r = some o → ∀ s ∈ o.refs, (h.get? s).isSome
  /-- What a payload refers to was made before. -/
  older : ∀ r o, h.get? r = some o → ∀ s ∈ o.payload.refs, s.index < r.index

theorem Sound.isSome_of_reaches (hs : h.Sound handles) (hr : h.Reaches handles r) :
    (h.get? r).isSome :=
  hr.of_closed hs.held fun r o _ ho => hs.closed r o ho

theorem Sound.index_lt_of_mem_refs (hs : h.Sound handles) (ho : h.get? r = some o)
    (hr : s ∈ o.refs) : s.index < h.cells.size := by
  obtain ⟨o', ho'⟩ := Option.isSome_iff_exists.mp (hs.closed r o ho s hr)
  exact index_lt_of_get? ho'

theorem Sound.isSome_of_mem_citations (hs : h.Sound handles) (hr : r ∈ h.citations) :
    (h.get? r).isSome := by
  obtain ⟨s, o, ho, hr⟩ := mem_citations.mp hr
  exact hs.closed s o ho r hr

end Prototalk.Heap
