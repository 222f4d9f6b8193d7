/-
  Prototalk.Proofs.Object.Inheritance
  ────────────────────────────────
  **WHAT A CHANGE OF ONE OBJECT DOES TO ALL SEARCHES.**

  Objects delegate to each other in circles, so a changed object may be met
  anywhere in a search.  Everything here is shown of `guarded`, which
  remembers its own path only and therefore can be compared between two
  heaps, and between two paths of one heap:

    • `guarded_congr` — a search is the same in two heaps that differ at no
      object which it can enter,
    • `guarded_cons_of_fruitless` — an object that leads to nothing may as
      well be on the path.

  From these follow the laws of delegation: a proto that is appended is
  asked last (`lookup?_appendProto`), a clone answers as its proto does
  (`lookup?_withClone`), and a slot that is set is met under its name only,
  from the objects that delegate to its owner (`lookup?_setSlot_of`,
  `guarded_setSlot`).  If its name was found there before, then setting it
  introduces no name anywhere (`lookup?_setSlot_eq_none`).
-/
import Prototalk.Image.Genesis
import Prototalk.Proofs.Object.Delegation

namespace Prototalk

/-! ## §1. The first one found. -/

section First

variable {α β : Type} {f g : α → Option β} {l : List α}

theorem findSome?_congr (hfg : ∀ a ∈ l, f a = g a) : l.findSome? f = l.findSome? g := by
  induction l with
  | nil => rfl
  | cons a l ih =>
    rw [List.findSome?_cons, List.findSome?_cons, hfg a List.mem_cons_self,
      ih fun b hb => hfg b (List.mem_cons_of_mem a hb)]

theorem findSome?_eq_or {b : β} (hfg : ∀ a ∈ l, f a = some b ∨ f a = g a) :
    l.findSome? f = some b ∨ l.findSome? f = l.findSome? g := by
  induction l with
  | nil => right; rfl
  | cons a l ih =>
    have hrest := ih fun c hc => hfg c (List.mem_cons_of_mem a hc)
    rw [List.findSome?_cons, List.findSome?_cons]
    rcases hfg a List.mem_cons_self with ha | ha
    · rw [ha]
      left; rfl
    · rw [ha]
      cases g a with
      | none => exact hrest
      | some c => right; rfl

end First

namespace Heap

variable {h h' : Heap} {n m : Name} {r o p v x : Ref} {path path' : List Ref}

/-! ## §2. Two heaps, and two paths. -/

/-- **A search sees nothing but the objects it can enter.** -/
theorem guarded_congr (h h' : Heap) (n : Name) (path : List Ref) (r : Ref)
    (hsame : ∀ s, h.Delegates r s → s ∉ path →
      h'.ownSlot? s n = h.ownSlot? s n ∧ h'.protos s = h.protos s) :
    h'.guarded n path r = h.guarded n path r := by
  -- along the calls in `h`; behind `r` there are fewer objects, and a longer path to them
  induction path, r using guarded.induct h n with
  | case1 path r hin => rw [guarded_of_mem h' n hin, guarded_of_mem h n hin]
  | case2 path r hin w hw =>
    obtain ⟨hslot, -⟩ := hsame r .refl hin
    rw [guarded_of_not_mem h' n hin, guarded_of_not_mem h n hin, hslot, hw]
    rfl
  | case3 path r hin hnone ih =>
    obtain ⟨hslot, hprotos⟩ := hsame r .refl hin
    have hprotos' : ∀ p ∈ h.protos r,
        h'.guarded n (r :: path) p = h.guarded n (r :: path) p := by
      intro p hp
      apply ih p hp
      intro s hs hout
      exact hsame s (hs.head hp) fun hin => hout (List.mem_cons_of_mem r hin)
    rw [guarded_of_not_mem h' n hin, guarded_of_not_mem h n hin, hslot, hprotos,
      findSome?_congr hprotos']

/-- An object that leads to nothing may stand anywhere on the path. -/
theorem guarded_of_fruitless (h : Heap) (n : Name) (o : Ref) (path : List Ref) (r : Ref)
    (hnone : ∀ longer, path ⊆ longer → h.guarded n longer o = none)
    (hpath : ∀ s, s ∈ path' ↔ s = o ∨ s ∈ path) :
    h.guarded n path' r = h.guarded n path r := by
  -- along the calls with the shorter path; the other path stays one object ahead
  induction path, r using guarded.induct h n generalizing path' with
  | case1 path r hin =>
    rw [guarded_of_mem h n hin, guarded_of_mem h n ((hpath r).mpr (Or.inr hin))]
  | case2 path r hin w hw =>
    -- `r` has the slot, so it is not the object that leads to nothing
    have hro : r ≠ o := by
      rintro rfl
      have hfruitless := hnone path (List.Subset.refl path)
      rw [guarded_of_not_mem h n hin, hw] at hfruitless
      cases hfruitless
    have hin' : r ∉ path' := by
      rw [hpath r]
      exact not_or.mpr ⟨hro, hin⟩
    rw [guarded_of_not_mem h n hin, guarded_of_not_mem h n hin', hw]
    rfl
  | case3 path r hin hslot ih =>
    by_cases hro : r = o
    · subst hro
      rw [hnone path (List.Subset.refl path), guarded_of_mem h n ((hpath r).mpr (Or.inl rfl))]
    · have hin' : r ∉ path' := by
        rw [hpath r]
        exact not_or.mpr ⟨hro, hin⟩
      have hprotos : ∀ p ∈ h.protos r,
          h.guarded n (r :: path') p = h.guarded n (r :: path) p := by
        intro p hp
        apply ih p hp
        · intro longer hlonger
          exact hnone longer fun s hs => hlonger (List.mem_cons_of_mem r hs)
        · intro s
          rw [List.mem_cons, List.mem_cons, hpath s]
          tauto
      rw [guarded_of_not_mem h n hin, guarded_of_not_mem h n hin', findSome?_congr hprotos]

/-- **An object that leads to nothing may as well be on the path.** -/
theorem guarded_cons_of_fruitless (r : Ref)
    (hnone : ∀ longer, path ⊆ longer → h.guarded n longer o = none) :
    h.guarded n (o :: path) r = h.guarded n path r :=
  guarded_of_fruitless h n o path r hnone fun _ => List.mem_cons

/-- What is not found from an object is not found behind any path to it. -/
theorem guarded_eq_none_of_lookup? (hnone : h.lookup? r n = none) (path : List Ref) :
    h.guarded n path r = none :=
  h.guarded_eq_none_of_forall n path r (h.lookup?_eq_none_iff.mp hnone)

/-! ## §3. One more proto. -/

theorem ownSlot?_appendProto (h : Heap) (o p s : Ref) (n : Name) :
    (h.appendProto o p).ownSlot? s n = h.ownSlot? s n := by
  rw [ownSlot?, ownSlot?, appendProto, get?_modify]
  by_cases hs : s = o
  · rw [if_pos hs]
    cases h.get? s <;> rfl
  · rw [if_neg hs]

theorem protos_appendProto_of_ne (h : Heap) (p : Ref) {s : Ref} (hs : s ≠ o) :
    (h.appendProto o p).protos s = h.protos s := by
  rw [protos, protos, appendProto, get?_modify, if_neg hs]

theorem protos_appendProto_self (ho : (h.get? o).isSome) (p : Ref) :
    (h.appendProto o p).protos o = h.protos o ++ [p] := by
  obtain ⟨object, hobject⟩ := Option.isSome_iff_exists.mp ho
  have hnew : (h.appendProto o p).get? o = some (object.appendProto p) := by
    rw [appendProto, get?_modify, if_pos rfl, hobject]
    rfl
  rw [protos_of_get? hnew, protos_of_get? hobject]
  rfl

/-- **An appended proto is asked when everything else has failed**, and then it answers as it did
before, wherever it leads. -/
theorem lookup?_appendProto (ho : (h.get? o).isSome) (p : Ref) (n : Name) :
    (h.appendProto o p).lookup? o n = (h.lookup? o n).or (h.lookup? p n) := by
  -- behind `o` the two heaps are the same, because nothing enters `o` again
  have hbehind : ∀ r, (h.appendProto o p).guarded n [o] r = h.guarded n [o] r := by
    intro r
    apply guarded_congr
    intro s _ hs
    have hso : s ≠ o := by simpa using hs
    exact ⟨h.ownSlot?_appendProto o p s n, h.protos_appendProto_of_ne p hso⟩
  have hafter : (h.appendProto o p).lookup? o n = (h.lookup? o n).or (h.guarded n [o] p) := by
    rw [lookup?_eq_or, lookup?_eq_or, ownSlot?_appendProto, protos_appendProto_self ho,
      List.findSome?_append, findSome?_congr fun r _ => hbehind r, ← Option.or_assoc,
      List.findSome?_singleton, hbehind p]
  rw [hafter]
  cases hold : h.lookup? o n with
  | some w => rfl
  | none =>
    -- `p` is searched with `o` on the path; from `o` there was nothing to be found
    show h.guarded n [o] p = h.lookup? p n
    rw [lookup?_guarded]
    apply guarded_cons_of_fruitless
    intro longer _
    exact guarded_eq_none_of_lookup? hold longer

/-! ## §4. A clone. -/

/-- The heap with a clone of `o`, which is the newest object. -/
abbrev withClone (h : Heap) (o : Ref) : Heap := (h.alloc (.new .plain [o])).2

theorem get?_fresh (h : Heap) : h.get? ⟨h.cells.size⟩ = none :=
  get?_eq_none_of_size_le (Nat.le_refl _)

theorem get?_withClone_of_ne (h : Heap) (o : Ref) {s : Ref} (hs : s ≠ ⟨h.cells.size⟩) :
    (h.withClone o).get? s = h.get? s := by
  rw [get?_alloc, if_neg hs]

theorem get?_withClone_self (h : Heap) (o : Ref) :
    (h.withClone o).get? ⟨h.cells.size⟩ = some (.new .plain [o]) := by
  rw [get?_alloc, if_pos rfl]

/-- The clone itself has no slots: all it does is to ask its proto. -/
theorem guarded_withClone_self (h : Heap) (o : Ref) (n : Name) (path : List Ref)
    (hpath : ⟨h.cells.size⟩ ∉ path) :
    (h.withClone o).guarded n path ⟨h.cells.size⟩
      = (h.withClone o).guarded n (⟨h.cells.size⟩ :: path) o := by
  have hslot : (h.withClone o).ownSlot? ⟨h.cells.size⟩ n = none := by
    rw [ownSlot?, get?_withClone_self]
    rfl
  have hprotos : (h.withClone o).protos ⟨h.cells.size⟩ = [o] :=
    protos_of_get? (h.get?_withClone_self o)
  rw [guarded_of_not_mem _ n hpath, hslot, hprotos, List.findSome?_singleton]
  rfl

/-- The clone leads to nothing new, once its proto is on the path. -/
theorem guarded_withClone_of_mem (h : Heap) (o : Ref) (n : Name) (ho : o ∈ path) :
    (h.withClone o).guarded n path ⟨h.cells.size⟩ = none := by
  by_cases hin : ⟨h.cells.size⟩ ∈ path
  · exact guarded_of_mem _ n hin
  · rw [guarded_withClone_self h o n path hin]
    exact guarded_of_mem _ n (List.mem_cons_of_mem _ ho)

/-- Behind the clone the search is what it was before. -/
theorem guarded_withClone_cons (h : Heap) (o : Ref) (n : Name) (path : List Ref) (r : Ref) :
    (h.withClone o).guarded n (⟨h.cells.size⟩ :: path) r = h.guarded n path r := by
  have hbehind : (h.withClone o).guarded n (⟨h.cells.size⟩ :: path) r
      = h.guarded n (⟨h.cells.size⟩ :: path) r := by
    apply guarded_congr
    intro s _ hs
    have hne : s ≠ ⟨h.cells.size⟩ := List.ne_of_not_mem_cons hs
    rw [ownSlot?, ownSlot?, protos, protos, h.get?_withClone_of_ne o hne]
    exact ⟨rfl, rfl⟩
  rw [hbehind]
  -- before there was no such object, so it leads to nothing
  apply guarded_cons_of_fruitless
  intro longer _
  simp [guarded_eq, ownSlot?, protos, get?_fresh]

/-- **A clone answers as its proto did.** -/
theorem lookup?_withClone (h : Heap) (o : Ref) (n : Name) :
    (h.withClone o).lookup? ⟨h.cells.size⟩ n = h.lookup? o n := by
  rw [lookup?_guarded, lookup?_guarded, guarded_withClone_self h o n [] List.not_mem_nil,
    guarded_withClone_cons]

/-- The proto itself answers as it did. -/
theorem lookup?_withClone_proto (ho : (h.get? o).isSome) (n : Name) :
    (h.withClone o).lookup? o n = h.lookup? o n := by
  have hne : o ≠ ⟨h.cells.size⟩ := by
    intro hfresh
    rw [hfresh, get?_fresh] at ho
    cases ho
  have hbehind : ∀ r, (h.withClone o).guarded n [o] r = h.guarded n [o] r := by
    intro r
    rw [← guarded_withClone_cons h o n [o] r]
    symm
    apply guarded_cons_of_fruitless
    intro longer hlonger
    exact guarded_withClone_of_mem h o n (hlonger List.mem_cons_self)
  rw [lookup?_eq_or, lookup?_eq_or, ownSlot?, ownSlot?, protos, protos,
    h.get?_withClone_of_ne o hne, findSome?_congr fun r _ => hbehind r]

/-! ## §5. One slot. -/

theorem protos_setSlot (h : Heap) (o : Ref) (n : Name) (v s : Ref) :
    (h.setSlot o n v).protos s = h.protos s := by
  rw [protos, protos, setSlot, get?_modify]
  by_cases hs : s = o
  · rw [if_pos hs]
    cases h.get? s <;> rfl
  · rw [if_neg hs]

/-- Objects delegate to each other as before. -/
theorem delegates_setSlot (h : Heap) (o : Ref) (n : Name) (v x s : Ref) :
    (h.setSlot o n v).Delegates x s ↔ h.Delegates x s := by
  rw [Delegates, Delegates, funext (h.protos_setSlot o n v)]

theorem ownSlot?_setSlot (ho : (h.get? o).isSome) (n m : Name) (v s : Ref) :
    (h.setSlot o n v).ownSlot? s m = if s = o ∧ m = n then some v else h.ownSlot? s m := by
  rw [ownSlot?, ownSlot?, setSlot, get?_modify]
  by_cases hs : s = o
  · subst hs
    obtain ⟨object, hobject⟩ := Option.isSome_iff_exists.mp ho
    rw [if_pos rfl, hobject]
    show (object.setSlot n v).slot? m = _
    rw [Object.slot?, Object.setSlot, Object.lookup_putSlot]
    simp [Object.slot?]
  · rw [if_neg hs, if_neg fun hsm => hs hsm.1]

theorem lookup?_setSlot_self (ho : (h.get? o).isSome) (n : Name) (v : Ref) :
    (h.setSlot o n v).lookup? o n = some v := by
  rw [lookup?_eq_or, ownSlot?_setSlot ho, if_pos ⟨rfl, rfl⟩, Option.some_or]

/-- **Other names, and objects that do not delegate to `o`, are not affected**: no search for them
meets the slot. -/
theorem lookup?_setSlot_of (ho : (h.get? o).isSome) (v : Ref)
    (hx : m ≠ n ∨ ¬ h.Delegates x o) : (h.setSlot o n v).lookup? x m = h.lookup? x m := by
  rw [lookup?_guarded, lookup?_guarded]
  apply guarded_congr
  intro s hs _
  refine ⟨?_, h.protos_setSlot o n v s⟩
  rw [ownSlot?_setSlot ho, if_neg]
  rintro ⟨rfl, rfl⟩
  rcases hx with hm | hd
  · exact hm rfl
  · exact hd hs

/-- A search that meets the slot stops there, and one that does not is as it was. -/
theorem guarded_setSlot (ho : (h.get? o).isSome) (n : Name) (v : Ref) (path : List Ref) (r : Ref) :
    (h.setSlot o n v).guarded n path r = some v
      ∨ (h.setSlot o n v).guarded n path r = h.guarded n path r := by
  induction path, r using guarded.induct h n with
  | case1 path r hin =>
    right
    rw [guarded_of_mem _ n hin, guarded_of_mem h n hin]
  | case2 path r hin w hw =>
    rw [guarded_of_not_mem _ n hin, guarded_of_not_mem h n hin, ownSlot?_setSlot ho, hw]
    by_cases hr : r = o <;> simp [hr]
  | case3 path r hin hslot ih =>
    rw [guarded_of_not_mem _ n hin, guarded_of_not_mem h n hin, ownSlot?_setSlot ho, hslot,
      protos_setSlot]
    by_cases hr : r = o
    · left
      simp [hr]
    -- each proto finds the slot or what it found, and so does the first one that finds anything
    · have hfirst := findSome?_eq_or ih
      simpa [hr] using hfirst

theorem lookup?_setSlot_cases (ho : (h.get? o).isSome) (n : Name) (v x : Ref) :
    (h.setSlot o n v).lookup? x n = some v
      ∨ (h.setSlot o n v).lookup? x n = h.lookup? x n := by
  rw [lookup?_guarded, lookup?_guarded]
  exact guarded_setSlot ho n v [] x

/-- What delegates to `o` and found nothing finds the new slot. -/
theorem lookup?_setSlot_of_eq_none (ho : (h.get? o).isSome) (v : Ref) (hx : h.Delegates x o)
    (hnone : h.lookup? x n = none) : (h.setSlot o n v).lookup? x n = some v := by
  have hfound : (h.setSlot o n v).lookup? x n ≠ none := by
    intro hnone'
    have hbare := lookup?_eq_none_iff.mp hnone' o ((h.delegates_setSlot o n v x o).mpr hx)
    rw [ownSlot?_setSlot ho, if_pos ⟨rfl, rfl⟩] at hbare
    cases hbare
  rcases lookup?_setSlot_cases ho n v x with hnew | hold
  · exact hnew
  · exact absurd (hold.trans hnone) hfound

/-- **A slot of a name that was found already introduces no name**, on no object. -/
theorem lookup?_setSlot_eq_none (ho : (h.get? o).isSome) (v : Ref)
    (hfound : (h.lookup? o n).isSome) (hnone : h.lookup? x m = none) :
    (h.setSlot o n v).lookup? x m = none := by
  rw [lookup?_setSlot_of ho v, hnone]
  -- if `x` led to `o` it would have found what `o` finds
  by_contra hmet
  obtain ⟨hm, hd⟩ := not_or.mp hmet
  rw [not_not] at hm hd
  subst hm
  have hbare : h.lookup? o m = none := by
    apply lookup?_eq_none_iff.mpr
    intro s hs
    exact lookup?_eq_none_iff.mp hnone s (hd.trans hs)
  rw [hbare] at hfound
  cases hfound

end Heap

/-! ## §6. The laws of delegation. -/

namespace Image

/-- **A proto that is appended is asked last, and a clone answers as its proto does.** -/
theorem lookup?_appendProto_and_cloneOf (image : Image) (o p : Ref) (n : Name)
    (ho : (image.objects.get? o).isSome) :
    (image.appendProto o p).lookup? o n = (image.lookup? o n).or (image.lookup? p n)
    ∧ (∀ v, image.lookup? o n = some v → (image.appendProto o p).lookup? o n = some v)
    ∧ image.objects.get? (image.cloneOf o).1 = none
    ∧ (image.cloneOf o).2.lookup? (image.cloneOf o).1 n = image.lookup? o n
    ∧ (image.cloneOf o).2.lookup? o n = image.lookup? o n := by
  have happend : (image.appendProto o p).lookup? o n = (image.lookup? o n).or (image.lookup? p n) :=
    Heap.lookup?_appendProto ho p n
  refine ⟨happend, ?_, ?_, ?_, ?_⟩
  · intro v hv
    rw [happend, hv]
    rfl
  · exact Heap.get?_fresh image.objects
  · exact Heap.lookup?_withClone image.objects o n
  · exact Heap.lookup?_withClone_proto ho n

/-- Three objects: the first two delegate to each other, and the third one to the first.  The
second one and the third one have a slot each. -/
def circle : Image :=
  { Image.new {} with objects := ⟨#[some (.new .plain [⟨1⟩]), some ⟨.plain, [(⟨1⟩, ⟨0⟩)], [⟨0⟩]⟩,
      some ⟨.plain, [(⟨2⟩, ⟨1⟩)], [⟨0⟩]⟩], 0, 0⟩ }

/-- The third object is appended to the first one, to which it leads back. -/
theorem lookup?_circle :
    (circle.appendProto ⟨0⟩ ⟨2⟩).lookup? ⟨0⟩ ⟨2⟩ = some ⟨1⟩
    ∧ (circle.appendProto ⟨0⟩ ⟨2⟩).lookup? ⟨0⟩ ⟨1⟩ = some ⟨0⟩
    ∧ (circle.cloneOf ⟨0⟩).2.lookup? (circle.cloneOf ⟨0⟩).1 ⟨1⟩ = some ⟨0⟩ := by
  have ho : (circle.objects.get? ⟨0⟩).isSome := rfl
  have hmiss : circle.lookup? ⟨0⟩ ⟨2⟩ = none := by decide
  have hfound : circle.lookup? ⟨2⟩ ⟨2⟩ = some ⟨1⟩ := by decide
  have hown : circle.lookup? ⟨0⟩ ⟨1⟩ = some ⟨0⟩ := by decide
  obtain ⟨hlast, -⟩ := lookup?_appendProto_and_cloneOf circle ⟨0⟩ ⟨2⟩ ⟨2⟩ ho
  obtain ⟨-, hkept, -, hclone, -⟩ := lookup?_appendProto_and_cloneOf circle ⟨0⟩ ⟨2⟩ ⟨1⟩ ho
  refine ⟨?_, hkept _ hown, hclone.trans hown⟩
  rw [hlast, hmiss, hfound]
  rfl

/-- **Setting a slot is local.**  Its owner finds the new value.  Other names, and the objects that
do not delegate to the owner, are not affected.  An object that does delegate to it finds under
this name the new value or what it found before, and the new value if it found nothing. -/
theorem lookup?_setSlot_local (image : Image) (o : Ref) (n : Name) (v : Ref)
    (ho : (image.objects.get? o).isSome) :
    (image.setSlot o n v).lookup? o n = some v
    ∧ (∀ x m, m ≠ n ∨ ¬ image.objects.Delegates x o →
        (image.setSlot o n v).lookup? x m = image.lookup? x m)
    ∧ ∀ x, image.objects.Delegates x o →
        ((image.setSlot o n v).lookup? x n = some v
          ∨ (image.setSlot o n v).lookup? x n = image.lookup? x n)
        ∧ (image.lookup? x n = none → (image.setSlot o n v).lookup? x n = some v) := by
  refine ⟨Heap.lookup?_setSlot_self ho n v, ?_, ?_⟩
  · intro x m hx
    exact Heap.lookup?_setSlot_of ho v hx
  · intro x hx
    refine ⟨Heap.lookup?_setSlot_cases ho n v x, ?_⟩
    intro hnone
    exact Heap.lookup?_setSlot_of_eq_none ho v hx hnone

/-- The second object of the circle gets a slot, which the third one finds. -/
theorem lookup?_setSlot_circle :
    (circle.setSlot ⟨1⟩ ⟨3⟩ ⟨2⟩).lookup? ⟨1⟩ ⟨3⟩ = some ⟨2⟩
    ∧ (circle.setSlot ⟨1⟩ ⟨3⟩ ⟨2⟩).lookup? ⟨2⟩ ⟨3⟩ = some ⟨2⟩
    ∧ (circle.setSlot ⟨2⟩ ⟨3⟩ ⟨1⟩).lookup? ⟨0⟩ ⟨3⟩ = none := by
  have hone : (circle.objects.get? ⟨1⟩).isSome := rfl
  have htwo : (circle.objects.get? ⟨2⟩).isSome := rfl
  have hmiss : circle.lookup? ⟨2⟩ ⟨3⟩ = none := by decide
  have hmiss' : circle.lookup? ⟨0⟩ ⟨3⟩ = none := by decide
  -- the third object leads to the second one by way of the first
  have hleads : circle.objects.Delegates ⟨2⟩ ⟨1⟩ := .head (b := ⟨0⟩) (by decide) (.single (by decide))
  obtain ⟨hself, -, hbehind⟩ := lookup?_setSlot_local circle ⟨1⟩ ⟨3⟩ ⟨2⟩ hone
  obtain ⟨-, helsewhere, -⟩ := lookup?_setSlot_local circle ⟨2⟩ ⟨3⟩ ⟨1⟩ htwo
  refine ⟨hself, (hbehind ⟨2⟩ hleads).2 hmiss, ?_⟩
  -- the first object does not lead to the third one, or it would find its slot
  have haway : ¬ circle.objects.Delegates ⟨0⟩ ⟨2⟩ := by
    intro hd
    have hbare := (Heap.lookup?_eq_none_iff (n := ⟨2⟩)).mp (by decide) ⟨2⟩ hd
    revert hbare
    decide
  exact (helsewhere ⟨0⟩ ⟨3⟩ (Or.inr haway)).trans hmiss'

end Image

end Prototalk
