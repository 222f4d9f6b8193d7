/-
  Prototalk.Proofs.Object.Release
  ────────────────────────────────
  **REFERENCE COUNTING REMOVES WHAT NOTHING REFERS TO.**

    • `tally_getD` — the counts are the numbers of references there are,
    • `Releasing` — what holds between two rounds of `releaseFrom`: the
      counts are exact for the objects still there, and the list of work
      holds exactly those of them to which nothing refers,
    • `released_release` — afterwards every object is referred to, and all
      that handles lead to is as it was.
-/
import Prototalk.Object.Collection
import Prototalk.Proofs.Object.Reference

namespace Prototalk.Heap

variable {h h' : Heap} {handles refs todo : List Ref} {counts : Array Nat} {r s : Ref} {o : Object}

/-! ## §1. Counting up. -/

theorem getD_foldl_countRef (refs : List Ref) (counts : Array Nat) (hr : r.index < counts.size) :
    (refs.foldl countRef counts).getD r.index 0 = counts.getD r.index 0 + refs.count r := by
  induction refs generalizing counts with
  | nil => simp
  | cons s refs ih =>
    have hsize : r.index < (countRef counts s).size := by simpa [countRef] using hr
    have hone : (countRef counts s).getD r.index 0
        = counts.getD r.index 0 + if s = r then 1 else 0 := by
      obtain ⟨i⟩ := r
      obtain ⟨j⟩ := s
      simp only [countRef, Array.getD_eq_getD_getElem?, Array.getElem?_modify,
        Array.getElem?_eq_getElem hr, Ref.mk.injEq]
      split <;> simp
    rw [List.foldl_cons, ih (countRef counts s) hsize, hone, List.count_cons]
    simp only [beq_iff_eq]
    omega

theorem countCell_eq (counts : Array Nat) (cell : Option Object) :
    countCell counts cell = (cellRefs cell).foldl countRef counts := by
  cases cell <;> rfl

/-- All counting is one pass over the handles and then over the references of all objects. -/
theorem tally_eq (h : Heap) (handles : List Ref) :
    h.tally handles
      = (handles ++ h.citations).foldl countRef (Array.replicate h.cells.size 0) := by
  have hcell : countCell = fun counts cell => (cellRefs cell).foldl countRef counts :=
    funext fun counts => funext (countCell_eq counts)
  rw [tally, ← Array.foldl_toList, citations, List.foldl_append, List.foldl_flatMap, hcell]

theorem tally_getD (h : Heap) (handles : List Ref) (hr : r.index < h.cells.size) :
    (h.tally handles).getD r.index 0 = (handles ++ h.citations).count r := by
  rw [tally_eq, getD_foldl_countRef _ _ (by simpa using hr)]
  simp [Array.getD_eq_getD_getElem?, hr]

/-! ## §2. Counting down. -/

theorem getD_setIfInBounds_pred (counts : Array Nat) (r s : Ref) :
    (counts.setIfInBounds r.index (counts.getD r.index 0 - 1)).getD s.index 0
      = counts.getD s.index 0 - if r = s then 1 else 0 := by
  obtain ⟨i⟩ := r
  obtain ⟨j⟩ := s
  simp only [Array.getD_eq_getD_getElem?, Array.getElem?_setIfInBounds, Ref.mk.injEq]
  by_cases hij : i = j
  · subst hij
    by_cases hi : i < counts.size
    · simp [hi]
    · simp [hi]
  · simp [hij]

theorem getD_foldl_uncountRef (refs : List Ref) (counts : Array Nat) (todo : List Ref) (s : Ref) :
    (refs.foldl uncountRef (counts, todo)).1.getD s.index 0
      = counts.getD s.index 0 - refs.count s := by
  induction refs generalizing counts todo with
  | nil => simp
  | cons r refs ih =>
    rw [List.foldl_cons, uncountRef, ih, getD_setIfInBounds_pred, List.count_cons]
    simp only [beq_iff_eq]
    omega

/-- An object joins the work when its last reference is counted off. -/
theorem mem_foldl_uncountRef (refs : List Ref) (counts : Array Nat) (todo : List Ref) (s : Ref) :
    s ∈ (refs.foldl uncountRef (counts, todo)).2
      ↔ s ∈ todo ∨ (s ∈ refs ∧ counts.getD s.index 0 ≤ refs.count s) := by
  induction refs generalizing counts todo with
  | nil => simp
  | cons r refs ih =>
    rw [List.foldl_cons, uncountRef, ih, getD_setIfInBounds_pred, List.count_cons]
    simp only [beq_iff_eq, List.mem_cons]
    by_cases hrs : r = s
    · subst hrs
      have hpos : 0 < refs.count r ↔ r ∈ refs := List.count_pos_iff
      -- `r` joins here if this was its last reference, else it may join later in the list
      by_cases hlast : counts.getD r.index 0 - 1 = 0
      · simp only [if_pos hlast, if_true, List.mem_cons, true_or, true_and, true_iff]
        omega
      · simp only [if_neg hlast, if_true, true_or, true_and]
        constructor
        · rintro (hin | ⟨_, hle⟩)
          · exact Or.inl hin
          · exact Or.inr (by omega)
        · rintro (hin | hle)
          · exact Or.inl hin
          · exact Or.inr ⟨hpos.mp (by omega), by omega⟩
    · have hsr : s ≠ r := Ne.symm hrs
      split <;> simp [hsr]

/-- No object joins the work twice, as no more references are counted off than there are. -/
theorem nodup_foldl_uncountRef (refs : List Ref) (counts : Array Nat) (todo : List Ref)
    (hle : ∀ s ∈ refs, refs.count s ≤ counts.getD s.index 0) (hnew : ∀ s ∈ todo, s ∉ refs)
    (hnodup : todo.Nodup) : (refs.foldl uncountRef (counts, todo)).2.Nodup := by
  induction refs generalizing counts todo with
  | nil => exact hnodup
  | cons r refs ih =>
    have hr := hle r List.mem_cons_self
    rw [List.count_cons_self] at hr
    rw [List.foldl_cons, uncountRef]
    refine ih _ _ ?_ ?_ ?_
    · intro s hs
      have hs' := hle s (List.mem_cons_of_mem _ hs)
      rw [getD_setIfInBounds_pred]
      rw [List.count_cons] at hs'
      simp only [beq_iff_eq] at hs'
      omega
    · intro s hs
      split at hs
      · rename_i hlast
        rcases List.mem_cons.mp hs with rfl | hs
        -- `r` joins now, so the rest of the list does not refer to it
        · exact List.count_eq_zero.mp (by omega)
        · exact fun hm => hnew s hs (List.mem_cons_of_mem _ hm)
      · exact fun hm => hnew s hs (List.mem_cons_of_mem _ hm)
    · split
      · exact List.nodup_cons.mpr ⟨fun hm => hnew r hm List.mem_cons_self, hnodup⟩
      · exact hnodup

/-! ## §3. One round. -/

/-- What holds between two rounds: the heap is sound, the counts of its objects are exact, and the
work is the list of the objects to which nothing refers. -/
structure Releasing (handles : List Ref) (counts : Array Nat) (todo : List Ref) (h : Heap) :
    Prop where
  /-- Nothing refers to what is gone. -/
  sound : h.Sound handles
  /-- The count of an object is the number of references to it. -/
  exact_counts : ∀ r, (h.get? r).isSome →
    counts.getD r.index 0 = (handles ++ h.citations).count r
  /-- The work is what nothing refers to. -/
  work : ∀ r, r ∈ todo ↔ (h.get? r).isSome ∧ r ∉ handles ++ h.citations
  /-- Nothing is to be removed twice. -/
  nodup : todo.Nodup

theorem mem_citations_of_erase (hs : s ∈ (h.erase r).citations) : s ∈ h.citations := by
  obtain ⟨t, o, ho, hs⟩ := mem_citations.mp hs
  rw [get?_erase] at ho
  split at ho
  · cases ho
  · exact mem_citations.mpr ⟨t, o, ho, hs⟩

theorem isSome_get?_erase : ((h.erase r).get? s).isSome ↔ s ≠ r ∧ (h.get? s).isSome := by
  rw [get?_erase]
  split <;> simp_all

/-- An object to which nothing refers can go. -/
theorem Sound.erase (hsound : h.Sound handles) (hr : r ∉ handles ++ h.citations) :
    (h.erase r).Sound handles := by
  simp only [List.mem_append, not_or] at hr
  refine ⟨fun s hs => ?_, fun t o ho s hs => ?_, fun t o ho s hs => ?_⟩
  · exact isSome_get?_erase.mpr ⟨fun hsr => hr.1 (hsr ▸ hs), hsound.held s hs⟩
  · have hcite := mem_citations_of_erase (mem_citations.mpr ⟨t, o, ho, hs⟩)
    exact isSome_get?_erase.mpr
      ⟨fun hsr => hr.2 (hsr ▸ hcite), hsound.isSome_of_mem_citations hcite⟩
  · rw [get?_erase] at ho
    split at ho
    · cases ho
    · exact hsound.older t o ho s hs

/-- **A round keeps the counts exact and finds everything that has lost its last reference.** -/
theorem Releasing.step (hinv : Releasing handles counts (r :: todo) h) (ho : h.get? r = some o) :
    Releasing handles (o.refs.foldl uncountRef (counts, todo)).1
      (o.refs.foldl uncountRef (counts, todo)).2 (h.erase r) := by
  have hfree : r ∉ handles ++ h.citations := ((hinv.work r).mp List.mem_cons_self).2
  -- what `r` referred to has lost exactly these references
  have hcount : ∀ s, (handles ++ h.citations).count s
      = (handles ++ (h.erase r).citations).count s + o.refs.count s := by
    intro s
    rw [List.count_append, List.count_append, count_citations_erase ho s]
    omega
  have hobject : ∀ s ∈ o.refs, (h.get? s).isSome := hinv.sound.closed r o ho
  refine ⟨hinv.sound.erase hfree, fun s hs => ?_, fun s => ?_, ?_⟩
  · obtain ⟨_, hs⟩ := isSome_get?_erase.mp hs
    rw [getD_foldl_uncountRef, hinv.exact_counts s hs, hcount s]
    omega
  · have htail : s ∈ todo ↔ s ≠ r ∧ s ∈ r :: todo := by
      have := (List.nodup_cons.mp hinv.nodup).1
      constructor
      · intro hs
        exact ⟨fun hsr => this (hsr ▸ hs), List.mem_cons_of_mem _ hs⟩
      · rintro ⟨hsr, hs⟩
        exact (List.mem_cons.mp hs).resolve_left hsr
    rw [mem_foldl_uncountRef, htail, hinv.work s, isSome_get?_erase, ← List.count_eq_zero,
      ← List.count_eq_zero (a := s), hcount s]
    -- free is what was free before, `r` apart, and what has just lost its last reference
    constructor
    · rintro (⟨hsr, hs, hzero⟩ | ⟨hs, hle⟩)
      · exact ⟨⟨hsr, hs⟩, by omega⟩
      · have hcited : s ∈ h.citations := mem_citations.mpr ⟨r, o, ho, hs⟩
        refine ⟨⟨fun hsr => hfree (List.mem_append_right _ (hsr ▸ hcited)), hobject s hs⟩, ?_⟩
        rw [hinv.exact_counts s (hobject s hs), hcount s] at hle
        omega
    · rintro ⟨⟨hsr, hs⟩, hzero⟩
      by_cases hmem : s ∈ o.refs
      · refine Or.inr ⟨hmem, ?_⟩
        rw [hinv.exact_counts s hs, hcount s]
        omega
      · exact Or.inl ⟨hsr, hs, by rw [hzero, List.count_eq_zero.mpr hmem]⟩
  · refine nodup_foldl_uncountRef _ _ _ (fun s hs => ?_) (fun s hs hm => ?_)
      (List.nodup_cons.mp hinv.nodup).2
    · rw [hinv.exact_counts s (hobject s hs), hcount s]
      omega
    · have hwork := ((hinv.work s).mp (List.mem_cons_of_mem _ hs)).2
      exact hwork (List.mem_append_right _ (mem_citations.mpr ⟨r, o, ho, hm⟩))

/-! ## §4. All rounds. -/

/-- What is left when everything that nothing refers to is gone. -/
structure Released (h : Heap) (handles : List Ref) (h' : Heap) : Prop where
  /-- Numbers are not used again. -/
  size_cells : h'.cells.size = h.cells.size
  /-- Objects do not change. -/
  unchanged : ∀ r o, h'.get? r = some o → h.get? r = some o
  /-- Nothing refers to what is gone. -/
  sound : h'.Sound handles
  /-- Every object is referred to. -/
  cited : ∀ r, (h'.get? r).isSome → r ∈ handles ++ h'.citations

theorem length_refs_erase_lt (hr : (h.get? r).isSome) :
    (h.erase r).refs.length < h.refs.length := by
  have hsub : (h.erase r).refs ⊆ h.refs.filter (· ≠ r) := by
    intro s hs
    obtain ⟨hsr, hs⟩ := isSome_get?_erase.mp (mem_refs.mp hs)
    simpa [hsr] using mem_refs.mpr hs
  refine Nat.lt_of_le_of_lt (List.Nodup.length_le_of_subset (h.erase r).nodup_refs hsub) ?_
  exact List.length_filter_lt_length_iff_exists.mpr ⟨r, mem_refs.mpr hr, by simp⟩

/-- **Every round removes an object, so as many rounds as there are objects are enough.** -/
theorem released_releaseFrom (rounds : Nat) (hinv : Releasing handles counts todo h)
    (hrounds : h.refs.length ≤ rounds) :
    Released h handles (releaseFrom rounds counts todo h) := by
  induction rounds generalizing counts todo h with
  | zero =>
    refine ⟨rfl, fun _ _ ho => ho, hinv.sound, fun r hr => ?_⟩
    -- no rounds are left only if no objects are
    have hempty : h.refs = [] := List.length_eq_zero_iff.mp (Nat.le_zero.mp hrounds)
    have hmem : r ∈ h.refs := mem_refs.mpr hr
    rw [hempty] at hmem
    cases hmem
  | succ rounds ih =>
    cases todo with
    | nil =>
      refine ⟨rfl, fun _ _ ho => ho, hinv.sound, fun r hr => ?_⟩
      -- the work is empty, so nothing is free
      by_contra hfree
      exact absurd ((hinv.work r).mpr ⟨hr, hfree⟩) List.not_mem_nil
    | cons r todo =>
      have hr := ((hinv.work r).mp List.mem_cons_self).1
      obtain ⟨o, ho⟩ := Option.isSome_iff_exists.mp hr
      have hlt := length_refs_erase_lt hr
      have hrest := ih (hinv.step ho) (by omega)
      have hround : releaseFrom (rounds + 1) counts (r :: todo) h
          = releaseFrom rounds (o.refs.foldl uncountRef (counts, todo)).1
            (o.refs.foldl uncountRef (counts, todo)).2 (h.erase r) := by
        simp only [releaseFrom, ho]
      rw [hround]
      refine ⟨hrest.size_cells.trans (size_cells_erase h r), fun s o' ho' => ?_, hrest.sound,
        hrest.cited⟩
      have := hrest.unchanged s o' ho'
      rw [get?_erase] at this
      split at this
      · cases this
      · exact this

/-- **Releasing a sound heap leaves exactly what is referred to.** -/
theorem released_release (hsound : h.Sound handles) : Released h handles (h.release handles) := by
  refine released_releaseFrom h.cells.size ⟨hsound, fun r hr => ?_, fun r => ?_, ?_⟩
    h.length_refs_le
  · obtain ⟨o, ho⟩ := Option.isSome_iff_exists.mp hr
    exact tally_getD h handles (index_lt_of_get? ho)
  · rw [List.mem_filter, mem_refs]
    refine and_congr_right fun hr => ?_
    obtain ⟨o, ho⟩ := Option.isSome_iff_exists.mp hr
    rw [tally_getD h handles (index_lt_of_get? ho), beq_iff_eq, List.count_eq_zero]
  · exact h.nodup_refs.filter _

/-- What handles lead to is still there, as it was. -/
theorem Released.get?_of_reaches (hrel : Released h handles h') (hr : h.Reaches handles r) :
    h'.get? r = h.get? r := by
  have hthere : (h'.get? r).isSome := by
    refine hr.of_closed (P := fun r => (h'.get? r).isSome) hrel.sound.held fun r o hr ho s hs => ?_
    obtain ⟨o', ho'⟩ := Option.isSome_iff_exists.mp hr
    have := hrel.unchanged r o' ho'
    rw [ho] at this
    cases this
    exact hrel.sound.closed r o ho' s hs
  obtain ⟨o, ho⟩ := Option.isSome_iff_exists.mp hthere
  rw [ho, hrel.unchanged r o ho]

end Prototalk.Heap
