/-
  Prototalk.Proofs.Object.Marking
  ────────────────────────────────
  **THE MARKED OBJECTS ARE THOSE THAT HANDLES LEAD TO.**

  Roots are not given to the marker; it finds them by comparing two counts,
  and they turn out to be the handles (`mem_roots`).  From them it marks
  with a list of pending objects:

    • everything marked is led to,
    • everything pending is marked,
    • what a marked object refers to is marked, unless it is still pending.

  Marking an object moves it from the unmarked to the pending ones and every
  round settles one pending object, so their number together bounds the
  rounds.
-/
import Prototalk.Proofs.Object.Release

namespace Prototalk.Heap

variable {h : Heap} {handles refs pending : List Ref} {marked : Array Bool} {r s : Ref} {o : Object}

/-! ## §1. Finding the roots. -/

/-- An object is referred to more often than by other objects exactly if it is a handle. -/
theorem mem_roots (hsound : h.Sound handles) : r ∈ h.roots handles ↔ r ∈ handles := by
  have hcount : (h.get? r).isSome → ((h.tally []).getD r.index 0 < (h.tally handles).getD r.index 0
      ↔ r ∈ handles) := by
    intro hr
    obtain ⟨o, ho⟩ := Option.isSome_iff_exists.mp hr
    have hlt := index_lt_of_get? ho
    rw [tally_getD h _ hlt, tally_getD h _ hlt, List.count_append, List.count_append,
      List.count_nil, ← List.count_pos_iff]
    omega
  simp only [roots, List.mem_filter, mem_refs, decide_eq_true_eq]
  constructor
  · rintro ⟨hr, hlt⟩
    exact (hcount hr).mp hlt
  · intro hr
    exact ⟨hsound.held r hr, (hcount (hsound.held r hr)).mpr hr⟩

/-! ## §2. Marking a list of objects. -/

/-- Whether an object is marked. -/
def IsMarked (marked : Array Bool) (r : Ref) : Prop := marked.getD r.index false = true

instance (marked : Array Bool) (r : Ref) : Decidable (IsMarked marked r) :=
  inferInstanceAs (Decidable (_ = true))

/-- The number of objects that are not marked. -/
def unmarked (marked : Array Bool) : Nat := marked.toList.count false

theorem markRef_of_isMarked (hr : IsMarked marked r) :
    markRef (marked, pending) r = (marked, pending) := by
  have hlt : r.index < marked.size := by
    by_contra hge
    simp [IsMarked, Array.getD_eq_getD_getElem?, Array.getElem?_eq_none (Nat.le_of_not_lt hge)]
      at hr
  have htrue : marked.getD r.index true = true := by
    simpa [IsMarked, Array.getD_eq_getD_getElem?, Array.getElem?_eq_getElem hlt] using hr
  simp [markRef, htrue]

theorem markRef_of_not_isMarked (hlt : r.index < marked.size) (hr : ¬ IsMarked marked r) :
    markRef (marked, pending) r = (marked.setIfInBounds r.index true, r :: pending) := by
  have hfalse : ¬ marked.getD r.index true = true := by
    simpa [IsMarked, Array.getD_eq_getD_getElem?, Array.getElem?_eq_getElem hlt] using hr
  simp [markRef, hfalse]

theorem isMarked_setIfInBounds (hlt : r.index < marked.size) :
    IsMarked (marked.setIfInBounds r.index true) s ↔ s = r ∨ IsMarked marked s := by
  obtain ⟨i⟩ := r
  obtain ⟨j⟩ := s
  simp only [IsMarked, Array.getD_eq_getD_getElem?, Array.getElem?_setIfInBounds, Ref.mk.injEq]
  by_cases hij : i = j
  · subst hij
    simp [show i < marked.size from hlt]
  · simp [hij, Ne.symm hij]

theorem unmarked_setIfInBounds (hlt : r.index < marked.size) (hr : ¬ IsMarked marked r) :
    unmarked (marked.setIfInBounds r.index true) + 1 = unmarked marked := by
  have hlen : r.index < marked.toList.length := by simpa using hlt
  have hfalse : marked.toList[r.index] = false := by
    simpa [IsMarked, Array.getD_eq_getD_getElem?, Array.getElem?_eq_getElem hlt] using hr
  have hpos : 0 < marked.toList.count false :=
    List.count_pos_iff.mpr (hfalse ▸ List.getElem_mem hlen)
  unfold unmarked
  rw [Array.toList_setIfInBounds, List.count_set hlen, hfalse, if_pos (by decide),
    if_neg (by decide)]
  omega

/-- What marking a list of objects does: those of them that were not marked are now pending. -/
theorem foldl_markRef (refs : List Ref) (marked : Array Bool) (pending : List Ref)
    (hlt : ∀ s ∈ refs, s.index < marked.size) :
    (refs.foldl markRef (marked, pending)).1.size = marked.size
    ∧ (∀ s, IsMarked (refs.foldl markRef (marked, pending)).1 s ↔ IsMarked marked s ∨ s ∈ refs)
    ∧ (∀ s, s ∈ (refs.foldl markRef (marked, pending)).2
        ↔ s ∈ pending ∨ (s ∈ refs ∧ ¬ IsMarked marked s))
    ∧ unmarked (refs.foldl markRef (marked, pending)).1
        + (refs.foldl markRef (marked, pending)).2.length = unmarked marked + pending.length := by
  induction refs generalizing marked pending with
  | nil => simp
  | cons r refs ih =>
    have hr := hlt r List.mem_cons_self
    rw [List.foldl_cons]
    by_cases hm : IsMarked marked r
    -- a marked object changes nothing
    · rw [markRef_of_isMarked hm]
      obtain ⟨hsize, hmarked, hpending, hnum⟩ :=
        ih marked pending fun s hs => hlt s (List.mem_cons_of_mem _ hs)
      refine ⟨hsize, fun s => ?_, fun s => ?_, hnum⟩
      · rw [hmarked, List.mem_cons]
        constructor
        · rintro (hs | hs)
          · exact Or.inl hs
          · exact Or.inr (Or.inr hs)
        · rintro (hs | rfl | hs)
          · exact Or.inl hs
          · exact Or.inl hm
          · exact Or.inr hs
      · rw [hpending, List.mem_cons]
        constructor
        · rintro (hs | ⟨hs, hs'⟩)
          · exact Or.inl hs
          · exact Or.inr ⟨Or.inr hs, hs'⟩
        · rintro (hs | ⟨rfl | hs, hs'⟩)
          · exact Or.inl hs
          · exact absurd hm hs'
          · exact Or.inr ⟨hs, hs'⟩
    -- an unmarked one becomes pending, which keeps the sum of the two numbers
    · rw [markRef_of_not_isMarked hr hm]
      obtain ⟨hsize, hmarked, hpending, hnum⟩ :=
        ih (marked.setIfInBounds r.index true) (r :: pending) fun s hs => by
          simpa using hlt s (List.mem_cons_of_mem _ hs)
      have hless := unmarked_setIfInBounds hr hm
      refine ⟨by simpa using hsize, fun s => ?_, fun s => ?_, ?_⟩
      · rw [hmarked, isMarked_setIfInBounds hr, List.mem_cons]
        constructor
        · rintro ((hs | hs) | hs)
          · exact Or.inr (Or.inl hs)
          · exact Or.inl hs
          · exact Or.inr (Or.inr hs)
        · rintro (hs | hs | hs)
          · exact Or.inl (Or.inr hs)
          · exact Or.inl (Or.inl hs)
          · exact Or.inr hs
      · rw [hpending, isMarked_setIfInBounds hr, List.mem_cons, List.mem_cons, not_or]
        constructor
        · rintro ((rfl | hs) | ⟨hs, _, hs'⟩)
          · exact Or.inr ⟨Or.inl rfl, hm⟩
          · exact Or.inl hs
          · exact Or.inr ⟨Or.inr hs, hs'⟩
        · rintro (hs | ⟨rfl | hs, hs'⟩)
          · exact Or.inl (Or.inr hs)
          · exact Or.inl (Or.inl rfl)
          · by_cases hsr : s = r
            · exact Or.inl (Or.inl hsr)
            · exact Or.inr ⟨hs, hsr, hs'⟩
      · rw [hnum, List.length_cons]
        omega

/-! ## §3. Marking everything that is led to. -/

/-- What holds between two rounds of marking. -/
structure Marking (h : Heap) (handles : List Ref) (marked : Array Bool) (pending : List Ref) :
    Prop where
  /-- There is a mark for every cell. -/
  size : marked.size = h.cells.size
  /-- Whatever is marked is led to. -/
  reached : ∀ r, IsMarked marked r → h.Reaches handles r
  /-- Whatever is pending is marked. -/
  queued : ∀ r ∈ pending, IsMarked marked r
  /-- What a marked object refers to is marked, unless the object is pending. -/
  settled : ∀ r, IsMarked marked r → r ∉ pending → ∀ o, h.get? r = some o →
    ∀ s ∈ o.refs, IsMarked marked s

theorem Marking.index_lt (hsound : h.Sound handles) (hinv : Marking h handles marked pending)
    (ho : h.get? r = some o) : ∀ s ∈ o.refs, s.index < marked.size := by
  intro s hs
  rw [hinv.size]
  exact hsound.index_lt_of_mem_refs ho hs

/-- **A round settles a pending object.** -/
theorem Marking.step (hsound : h.Sound handles) (hinv : Marking h handles marked (r :: pending))
    (ho : h.get? r = some o) :
    Marking h handles (o.refs.foldl markRef (marked, pending)).1
      (o.refs.foldl markRef (marked, pending)).2 := by
  obtain ⟨hsize, hmarked, hpending, _⟩ :=
    foldl_markRef o.refs marked pending (hinv.index_lt hsound ho)
  refine ⟨hsize.trans hinv.size, fun s hs => ?_, fun s hs => ?_, fun s hs hnot o' ho' t ht => ?_⟩
  · rcases (hmarked s).mp hs with hs | hs
    · exact hinv.reached s hs
    · exact .refer (hinv.reached r (hinv.queued r List.mem_cons_self)) ho hs
  · rcases (hpending s).mp hs with hs | ⟨hs, _⟩
    · exact (hmarked s).mpr (Or.inl (hinv.queued s (List.mem_cons_of_mem _ hs)))
    · exact (hmarked s).mpr (Or.inr hs)
  · rw [hpending, not_or] at hnot
    -- `r` is settled by this round, any other settled object was settled before it
    by_cases hsr : s = r
    · subst hsr
      rw [ho] at ho'
      cases ho'
      exact (hmarked t).mpr (Or.inr ht)
    · have hold : s ∉ r :: pending := by simp [hsr, hnot.1]
      have hm : IsMarked marked s := by
        by_contra hm
        exact hnot.2 ⟨((hmarked s).mp hs).resolve_left hm, hm⟩
      exact (hmarked t).mpr (Or.inl (hinv.settled s hm hold o' ho' t ht))

/-- When nothing is pending any more, all that is referred to by marked objects is marked. -/
theorem marking_markFrom (hsound : h.Sound handles) (rounds : Nat)
    (hinv : Marking h handles marked pending)
    (hrounds : unmarked marked + pending.length ≤ rounds) :
    Marking h handles (h.markFrom rounds marked pending) []
    ∧ ∀ r, IsMarked marked r → IsMarked (h.markFrom rounds marked pending) r := by
  induction rounds generalizing marked pending with
  | zero =>
    have hnil : pending = [] := List.length_eq_zero_iff.mp (by omega)
    subst hnil
    exact ⟨hinv, fun _ hr => hr⟩
  | succ rounds ih =>
    cases pending with
    | nil => exact ⟨hinv, fun _ hr => hr⟩
    | cons r pending =>
      have hr := hsound.isSome_of_reaches (hinv.reached r (hinv.queued r List.mem_cons_self))
      obtain ⟨o, ho⟩ := Option.isSome_iff_exists.mp hr
      obtain ⟨_, hmarked, _, hnum⟩ :=
        foldl_markRef o.refs marked pending (hinv.index_lt hsound ho)
      rw [List.length_cons] at hrounds
      obtain ⟨hmarking, hkept⟩ := ih (hinv.step hsound ho) (by omega)
      simp only [markFrom, ho]
      exact ⟨hmarking, fun s hs => hkept s ((hmarked s).mpr (Or.inl hs))⟩

/-- **Marked is what the handles lead to.** -/
theorem isMarked_mark (hsound : h.Sound handles) (r : Ref) :
    IsMarked (h.mark handles) r ↔ h.Reaches handles r := by
  have hfresh : ∀ s, ¬ IsMarked (Array.replicate h.cells.size false) s := by
    intro s
    simp only [IsMarked, Array.getD_eq_getD_getElem?, Array.getElem?_replicate]
    split <;> simp
  have hlt : ∀ s ∈ h.roots handles, s.index < (Array.replicate h.cells.size false).size := by
    intro s hs
    obtain ⟨o, ho⟩ := Option.isSome_iff_exists.mp (hsound.held s ((mem_roots hsound).mp hs))
    simpa using index_lt_of_get? ho
  obtain ⟨hsize, hmarked, hpending, hnum⟩ :=
    foldl_markRef (h.roots handles) (Array.replicate h.cells.size false) [] hlt
  -- before the first round the roots are marked, all of them pending
  have hstart : Marking h handles
      ((h.roots handles).foldl markRef (Array.replicate h.cells.size false, [])).1
      ((h.roots handles).foldl markRef (Array.replicate h.cells.size false, [])).2 := by
    refine ⟨by simpa using hsize, fun s hs => ?_, fun s hs => ?_, fun s hs hnot => ?_⟩
    · rcases (hmarked s).mp hs with hs | hs
      · exact absurd hs (hfresh s)
      · exact .handle ((mem_roots hsound).mp hs)
    · rcases (hpending s).mp hs with hs | ⟨hs, _⟩
      · cases hs
      · exact (hmarked s).mpr (Or.inr hs)
    · rcases (hmarked s).mp hs with hs | hs
      · exact absurd hs (hfresh s)
      · exact absurd ((hpending s).mpr (Or.inr ⟨hs, hfresh s⟩)) hnot
  obtain ⟨hend, hkept⟩ := marking_markFrom hsound h.cells.size hstart (by
    rw [hnum]
    simp [unmarked])
  refine ⟨hend.reached r, fun hr => ?_⟩
  -- in the end the marked objects are closed under references
  refine hr.of_closed (P := IsMarked (h.mark handles)) (fun s hs => ?_) fun s o hs ho => ?_
  · exact hkept s ((hmarked s).mpr (Or.inr ((mem_roots hsound).mpr hs)))
  · exact hend.settled s hs List.not_mem_nil o ho

end Prototalk.Heap
