/-
  Prototalk.Proofs.Object.Collection
  ────────────────────────────────
  **A COLLECTION REMOVES EXACTLY WHAT NO HANDLE LEADS TO.**

  Garbage is cleared of its slots and protos, which leaves it the references
  of its payload.  These lead to older objects only.  So if some garbage were
  left, take the youngest: what refers to it is garbage too, does so by its
  payload, and is younger.

    • `mem_garbage` — garbage is what the marker did not reach,
    • `get?_collect` — the view after a collection,
    • `sound_collect`, `live_collect`, `live_eq_collect_add` — the heap stays
      sound, every object left is in use, and the number given is the
      difference.
-/
import Mathlib.Data.Set.Card
import Prototalk.Proofs.Object.Marking

namespace Prototalk.Heap

variable {h h' : Heap} {handles : List Ref} {r s : Ref} {o : Object}

/-! ## §1. Garbage. -/

theorem mem_garbage (hsound : h.Sound handles) :
    r ∈ h.garbage handles ↔ (h.get? r).isSome ∧ ¬ h.Reaches handles r := by
  rw [← isMarked_mark hsound, IsMarked]
  simp [garbage, mem_refs]

theorem get?_clear (h : Heap) (refs : List Ref) (r : Ref) :
    (h.clear refs).get? r = if r ∈ refs then (h.get? r).map Object.cleared else h.get? r := by
  unfold clear
  induction refs generalizing h with
  | nil => rfl
  | cons s refs ih =>
    rw [List.foldl_cons, ih, get?_modify]
    by_cases hrs : r = s
    · subst hrs
      -- clearing twice is clearing once
      cases h.get? r <;> simp [Object.cleared]
    · simp [hrs]

@[simp] theorem size_cells_clear (h : Heap) (refs : List Ref) :
    (h.clear refs).cells.size = h.cells.size := by
  unfold clear
  induction refs generalizing h with
  | nil => rfl
  | cons s refs ih => rw [List.foldl_cons, ih, size_cells_modify]

theorem Sound.clear (hsound : h.Sound handles) (refs : List Ref) :
    (h.clear refs).Sound handles := by
  have hthere : ∀ r, ((h.clear refs).get? r).isSome ↔ (h.get? r).isSome := by
    intro r
    rw [get?_clear]
    split <;> simp
  -- a cleared object refers to some of what it referred to
  have hobject : ∀ r o, (h.clear refs).get? r = some o → ∃ o', h.get? r = some o'
      ∧ o.payload = o'.payload ∧ ∀ s ∈ o.refs, s ∈ o'.refs := by
    intro r o ho
    rw [get?_clear] at ho
    split at ho
    · obtain ⟨o', ho', rfl⟩ := Option.map_eq_some_iff.mp ho
      exact ⟨o', ho', rfl, fun s hs => List.mem_append_right _ hs⟩
    · exact ⟨o, ho, rfl, fun s hs => hs⟩
  refine ⟨fun r hr => (hthere r).mpr (hsound.held r hr), fun r o ho s hs => ?_,
    fun r o ho s hs => ?_⟩
  · obtain ⟨o', ho', _, hsub⟩ := hobject r o ho
    exact (hthere s).mpr (hsound.closed r o' ho' s (hsub s hs))
  · obtain ⟨o', ho', hpayload, _⟩ := hobject r o ho
    exact hsound.older r o' ho' s (hpayload ▸ hs)

/-- What handles lead to is no garbage and is not cleared. -/
theorem get?_clear_garbage (hsound : h.Sound handles) (hr : h.Reaches handles r) :
    (h.clear (h.garbage handles)).get? r = h.get? r := by
  rw [get?_clear, if_neg]
  intro hmem
  exact ((mem_garbage hsound).mp hmem).2 hr

/-! ## §2. Nothing else is left. -/

/-- **Once garbage is cleared, releasing removes all of it.** -/
theorem reaches_of_released_clear (hsound : h.Sound handles)
    (hrel : Released (h.clear (h.garbage handles)) handles h') (hr : (h'.get? r).isSome) :
    h.Reaches handles r := by
  by_contra hgarbage
  obtain ⟨o, ho⟩ := Option.isSome_iff_exists.mp hr
  have hlt : r.index < h'.cells.size := index_lt_of_get? ho
  -- by the distance from the youngest object: what refers to `r` is garbage and younger
  induction hd : h'.cells.size - r.index using Nat.strongRecOn generalizing r o with
  | ind d ih =>
    rcases List.mem_append.mp (hrel.cited r hr) with hhandle | hcited
    · exact hgarbage (.handle hhandle)
    · obtain ⟨s, p, hp, hs⟩ := mem_citations.mp hcited
      have hp' := hrel.unchanged s p hp
      by_cases hsreach : h.Reaches handles s
      -- what refers to `r` is not cleared: then `r` would be in use
      · rw [get?_clear_garbage hsound hsreach] at hp'
        exact hgarbage (.refer hsreach hp' hs)
      -- it is cleared, so it refers to `r` by its payload
      · have hslt : s.index < h'.cells.size := index_lt_of_get? hp
        have hyounger : r.index < s.index := by
          rw [get?_clear] at hp'
          split at hp'
          · obtain ⟨p', hp'', rfl⟩ := Option.map_eq_some_iff.mp hp'
            exact hsound.older s p' hp'' r hs
          · rename_i hnot
            exact absurd ((mem_garbage hsound).mpr ⟨by simp [hp'], hsreach⟩) hnot
        exact ih (h'.cells.size - s.index) (by omega) (by simp [hp]) hsreach p hp hslt rfl

/-! ## §3. The heap after a collection. -/

/-- Releasing changes nothing behind the handles. -/
theorem reaches_release (hsound : h.Sound handles) (r : Ref) :
    (h.release handles).Reaches handles r ↔ h.Reaches handles r :=
  reaches_iff_of_get?_eq (fun _ hr => (released_release hsound).get?_of_reaches hr) r

theorem released_collect (hsound : h.Sound handles) :
    Released ((h.release handles).clear ((h.release handles).garbage handles)) handles
      (((h.release handles).clear ((h.release handles).garbage handles)).release handles) :=
  released_release ((released_release hsound).sound.clear _)

/-- **After a collection there is what the handles lead to, unchanged, and nothing else.** -/
theorem get?_collect (hsound : h.Sound handles) (r : Ref) [Decidable (h.Reaches handles r)] :
    (h.collect handles).2.get? r = if h.Reaches handles r then h.get? r else none := by
  have hfirst := released_release hsound
  have hlast := released_collect hsound
  show (((h.release handles).clear ((h.release handles).garbage handles)).release handles).get? r
    = _
  split
  · rename_i hr
    have hr₁ := (reaches_release hsound r).mpr hr
    have hsame : ∀ s, (h.release handles).Reaches handles s →
        ((h.release handles).clear ((h.release handles).garbage handles)).get? s
          = (h.release handles).get? s := fun s hs => get?_clear_garbage hfirst.sound hs
    rw [hlast.get?_of_reaches ((reaches_iff_of_get?_eq hsame r).mpr hr₁), hsame r hr₁,
      hfirst.get?_of_reaches hr]
  · rename_i hr
    by_contra hthere
    rw [← ne_eq, ← Option.isSome_iff_ne_none] at hthere
    exact hr ((reaches_release hsound r).mp
      (reaches_of_released_clear hfirst.sound hlast hthere))

@[simp] theorem size_cells_collect (hsound : h.Sound handles) :
    (h.collect handles).2.cells.size = h.cells.size := by
  show (((h.release handles).clear
    ((h.release handles).garbage handles)).release handles).cells.size = _
  rw [(released_collect hsound).size_cells, size_cells_clear, (released_release hsound).size_cells]

theorem sound_collect (hsound : h.Sound handles) : (h.collect handles).2.Sound handles :=
  ⟨(released_collect hsound).sound.held, (released_collect hsound).sound.closed,
    (released_collect hsound).sound.older⟩

theorem get?_collect_of_reaches (hsound : h.Sound handles) (hr : h.Reaches handles r) :
    (h.collect handles).2.get? r = h.get? r := by
  classical
  rw [get?_collect hsound, if_pos hr]

theorem reaches_collect (hsound : h.Sound handles) (r : Ref) :
    (h.collect handles).2.Reaches handles r ↔ h.Reaches handles r :=
  reaches_iff_of_get?_eq (fun _ hr => get?_collect_of_reaches hsound hr) r

/-! ## §4. How many objects there are. -/

/-- The objects whose slots and protos a collection clears. -/
def condemned (h : Heap) (handles : List Ref) : List Ref :=
  (h.release handles).garbage handles

theorem collect_fst (h : Heap) (handles : List Ref) :
    (h.collect handles).1 = (h.condemned handles).length := rfl

theorem mem_condemned (hsound : h.Sound handles) :
    r ∈ h.condemned handles
      ↔ ((h.release handles).get? r).isSome ∧ ¬ h.Reaches handles r := by
  rw [condemned, mem_garbage (released_release hsound).sound, reaches_release hsound]

theorem size_eq_length_refs (h : Heap) : h.size = h.refs.length := by
  have hlen : h.refs.length
      = ((List.range h.cells.size).filter fun i => (h.get? ⟨i⟩).isSome).length := by
    rw [refs, List.length_filterMap_eq_countP, ← List.countP_eq_length_filter]
    refine List.countP_congr fun i _ => ?_
    split <;> simp_all
  rw [size, ← Array.countP_toList, toList_cells, List.countP_map, hlen,
    List.countP_eq_length_filter]
  rfl

theorem length_eq_ncard {refs : List Ref} {P : Ref → Prop} (hnodup : refs.Nodup)
    (hmem : ∀ r, r ∈ refs ↔ P r) : refs.length = {r | P r}.ncard := by
  classical
  have hset : {r | P r} = ((refs.toFinset : Finset Ref) : Set Ref) := by
    ext r
    simp [hmem]
  rw [hset, Set.ncard_coe_finset, List.toFinset_card_of_nodup hnodup]

/-- **The objects left are those that the handles lead to.** -/
theorem live_collect (hsound : h.Sound handles) :
    (h.collect handles).2.live handles = {r | h.Reaches handles r}.ncard := by
  have hrel := released_release (sound_collect hsound)
  rw [live, size_eq_length_refs]
  refine length_eq_ncard (nodup_refs _) fun r => ?_
  rw [mem_refs]
  constructor
  · intro hr
    classical
    obtain ⟨o, ho⟩ := Option.isSome_iff_exists.mp hr
    have ho' := hrel.unchanged r o ho
    rw [get?_collect hsound] at ho'
    by_contra hnot
    rw [if_neg hnot] at ho'
    cases ho'
  · intro hr
    rw [hrel.get?_of_reaches ((reaches_collect hsound r).mpr hr), get?_collect_of_reaches hsound hr]
    exact hsound.isSome_of_reaches hr

/-- **The number a collection gives is the difference it makes.** -/
theorem live_eq_collect_add (hsound : h.Sound handles) :
    h.live handles = (h.collect handles).1 + (h.collect handles).2.live handles := by
  classical
  have hrel := released_release hsound
  -- the objects that releasing leaves are those in use and those condemned
  have hinUse : ((h.release handles).refs.filter fun r => h.Reaches handles r).length
      = {r | h.Reaches handles r}.ncard := by
    refine length_eq_ncard ((nodup_refs _).filter _) fun r => ?_
    rw [List.mem_filter, mem_refs, decide_eq_true_eq]
    refine and_iff_right_of_imp fun hr => ?_
    rw [hrel.get?_of_reaches hr]
    exact hsound.isSome_of_reaches hr
  have hgarbage : (h.condemned handles).length
      = ((h.release handles).refs.filter fun r => ¬ h.Reaches handles r).length := by
    have : h.condemned handles = (h.release handles).refs.filter fun r =>
        ¬ h.Reaches handles r := by
      refine List.filter_congr fun r _ => ?_
      have hmark := (isMarked_mark hrel.sound r).trans (reaches_release hsound r)
      by_cases hr : h.Reaches handles r
      · have : ((h.release handles).mark handles).getD r.index false = true := hmark.mpr hr
        simp [this, hr]
      · have : ((h.release handles).mark handles).getD r.index false ≠ true :=
          fun hm => hr (hmark.mp hm)
        simp [this, hr]
    rw [this]
  rw [live_collect hsound, collect_fst, hgarbage, ← hinUse, live, size_eq_length_refs,
    List.length_eq_length_filter_add fun r => decide (h.Reaches handles r)]
  simp only [decide_not]
  omega

/-- A second collection finds nothing. -/
theorem collect_collect_fst (hsound : h.Sound handles) :
    ((h.collect handles).2.collect handles).1 = 0 := by
  have hagain := live_eq_collect_add (sound_collect hsound)
  have hsame : {r | (h.collect handles).2.Reaches handles r} = {r | h.Reaches handles r} :=
    Set.ext (reaches_collect hsound)
  rw [live_collect (sound_collect hsound), live_collect hsound, hsame] at hagain
  omega

end Prototalk.Heap
