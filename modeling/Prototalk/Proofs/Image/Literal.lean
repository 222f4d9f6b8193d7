/-
  Prototalk.Proofs.Image.Literal
  ────────────────────────────────
  **A LITERAL HAS ONE OBJECT.**

  The table of an image says which object stands for a literal.  Of two
  images, the second one's table `Gathers` on the first one's if every entry
  is still there and every entry that was not there has an object that is
  newer than the first image; it also keeps what the entries say
  (`Image.Keyed`), so that two literals never share an object.

    • the objects in the table are in use, so whatever endures keeps what
      they are (`Notes.gathers`), slots and protos aside;
    • the table itself is written to in one place only, `Image.literal`
      (`notes_literal`).
-/
import Prototalk.Proofs.Image.Persistence

namespace Prototalk

/-- What the object of a literal is. -/
def Constant.payload : Constant → Payload
  | .number bits => .number ⟨bits⟩
  | .text s => .text s

theorem Constant.payload_inj {c d : Constant} : c.payload = d.payload ↔ c = d := by
  cases c <;> cases d <;> simp [Constant.payload]

/-- Whether finding a block runs it does not matter to a number or a string. -/
theorem Constant.setActivatable_payload (c : Constant) (flag : Bool) :
    c.payload.setActivatable flag = c.payload := by
  cases c <;> rfl

namespace Image

variable {i j k : Image} {c d : Constant} {r s : Ref} {inUse inUse' : List Ref}

/-! ## §1. Tables. -/

/-- Every object in the table is what its literal says. -/
def Keyed (i : Image) : Prop := ∀ c r, i.literals.lookup c = some r → i.payload r = c.payload

/-- **Literals with one object are equal**, bit by bit or letter by letter. -/
theorem Keyed.eq_iff (h : i.Keyed) (hc : i.literals.lookup c = some r)
    (hd : i.literals.lookup d = some s) : r = s ↔ c = d := by
  constructor
  · rintro rfl
    rw [← Constant.payload_inj, ← h c r hc, ← h d r hd]
  · rintro rfl
    exact Option.some.inj (hc.symm.trans hd)

theorem mem_handles_of_lookup (h : i.literals.lookup c = some r) : r ∈ i.handles := by
  refine List.mem_append_left _ (List.mem_append_right _ ?_)
  obtain ⟨before, after, hsplit, -⟩ := List.lookup_eq_some_iff.mp h
  simp [hsplit]

/-- The second image may come after the first: its table has more entries, for newer objects. -/
structure Gathers (i j : Image) : Prop where
  /-- Numbers are not used again. -/
  size_le : i.objects.cells.size ≤ j.objects.cells.size
  /-- No entry is lost. -/
  kept : ∀ c r, i.literals.lookup c = some r → j.literals.lookup c = some r
  /-- An entry that was not there has a new object. -/
  newer : ∀ c r, j.literals.lookup c = some r →
    i.literals.lookup c = some r ∨ i.objects.cells.size ≤ r.index
  /-- The entries are what they say. -/
  keyed : i.Keyed → j.Keyed

theorem Gathers.refl (i : Image) : i.Gathers i :=
  ⟨Nat.le_refl _, fun _ _ h => h, fun _ _ h => .inl h, id⟩

theorem Gathers.trans (hij : i.Gathers j) (hjk : j.Gathers k) : i.Gathers k where
  size_le := Nat.le_trans hij.size_le hjk.size_le
  kept := fun c r h => hjk.kept c r (hij.kept c r h)
  newer := by
    intro c r h
    rcases hjk.newer c r h with h | h
    · exact hij.newer c r h
    · exact .inr (Nat.le_trans hij.size_le h)
  keyed := fun h => hjk.keyed (hij.keyed h)

/-! ## §2. What happens to a table. -/

/-- The table is what it was, or has one more entry, for a new object that is what it should be. -/
inductive Notes (i j : Image) : Prop where
  | same (hsame : j.literals = i.literals)
  | noted {c : Constant} {r : Ref} (hnew : i.literals.lookup c = none)
      (hnoted : j.literals = (c, r) :: i.literals) (hr : i.objects.cells.size ≤ r.index)
      (hpayload : j.payload r = c.payload)

/-- What persists is what it was, if it was no block. -/
theorem payload_of_endures (h : (i.moment inUse).Endures (j.moment inUse'))
    (hi : r ∈ i.handles) (hj : r ∈ j.handles) (hr : i.payload r = c.payload) :
    j.payload r = c.payload := by
  have hri : r ∈ (i.moment inUse).reach := .handle (List.mem_append_right _ hi)
  have hrj : r ∈ (j.moment inUse').reach := .handle (List.mem_append_right _ hj)
  obtain ⟨o, ho⟩ := Option.isSome_iff_exists.mp (h.there r hri)
  obtain ⟨o', ho', hpersists⟩ := h.persists r hri hrj o ho
  obtain ⟨flag, hflag⟩ := hpersists.payload
  rw [payload_eq_of_get? ho] at hr
  rw [payload_eq_of_get? ho', hflag, hr, c.setActivatable_payload]

/-- What is found in a table with one more entry. -/
theorem lookup_noted_iff (hnew : i.literals.lookup d = none)
    (hnoted : j.literals = (d, s) :: i.literals) :
    j.literals.lookup c = some r ↔ (c = d ∧ r = s) ∨ i.literals.lookup c = some r := by
  rw [hnoted, List.lookup_cons]
  by_cases hcd : c = d
  · subst hcd
    rw [beq_self_eq_true, hnew]
    simp [eq_comm]
  · rw [beq_eq_false_iff_ne.mpr hcd]
    simp [hcd]

/-- **What endures gathers**, if that is all that has happened to the table. -/
theorem Notes.gathers (hn : i.Notes j) (h : (i.moment inUse).Endures (j.moment inUse')) :
    i.Gathers j := by
  -- an object that was in the table is still what it was
  have hcarried {c : Constant} {r : Ref} (hkeyed : i.Keyed) (hi : i.literals.lookup c = some r)
      (hj : j.literals.lookup c = some r) : j.payload r = c.payload :=
    payload_of_endures h (mem_handles_of_lookup hi) (mem_handles_of_lookup hj) (hkeyed c r hi)
  cases hn with
  | same hsame =>
    refine ⟨h.size_le, fun c r hc => by rwa [hsame], fun c r hc => .inl (by rwa [← hsame]), ?_⟩
    intro hkeyed c r hc
    exact hcarried hkeyed (by rwa [← hsame]) hc
  | noted hnew hnoted hs hpayload =>
    refine ⟨h.size_le, fun c r hc => (lookup_noted_iff hnew hnoted).mpr (.inr hc), ?_, ?_⟩
    · intro c r hc
      rcases (lookup_noted_iff hnew hnoted).mp hc with ⟨-, rfl⟩ | hold
      · exact .inr hs
      · exact .inl hold
    · intro hkeyed c r hc
      rcases (lookup_noted_iff hnew hnoted).mp hc with ⟨rfl, rfl⟩ | hold
      · exact hpayload
      · exact hcarried hkeyed hold hc

/-! ## §3. The object of a literal. -/

/-- Making an object makes the newest one, and it is what it was made as. -/
theorem payload_alloc (i : Image) (payload : Payload) (protos : List Ref) :
    (i.alloc payload protos).2.payload (i.alloc payload protos).1 = payload := by
  have hmade : (i.alloc payload protos).2.objects.get? (i.alloc payload protos).1
      = some (.new payload protos) := by
    show (i.objects.alloc (.new payload protos)).2.get? ⟨i.objects.cells.size⟩ = _
    rw [Heap.get?_alloc]
    exact if_pos rfl
  rw [payload_eq_of_get? hmade]
  rfl

/-- A literal that has no object yet gets a new one. -/
theorem literal_of_none (hnone : i.literals.lookup c = none) :
    ∃ protos, i.literal c = ((i.alloc c.payload protos).1,
      { (i.alloc c.payload protos).2 with
        literals := (c, (i.alloc c.payload protos).1) :: i.literals }) := by
  unfold literal
  rw [hnone]
  cases c with
  | number bits => exact ⟨_, rfl⟩
  | text s => exact ⟨_, rfl⟩

/-- A literal that has an object is that object. -/
theorem literal_of_lookup (h : i.literals.lookup c = some r) : i.literal c = (r, i) := by
  unfold literal
  rw [h]

theorem notes_literal (i : Image) (c : Constant) : i.Notes (i.literal c).2 := by
  cases h : i.literals.lookup c with
  | some r =>
    rw [literal_of_lookup h]
    exact .same rfl
  | none =>
    obtain ⟨protos, heq⟩ := literal_of_none h
    rw [heq]
    exact .noted h rfl (Nat.le_refl _) (payload_alloc i c.payload protos)

/-- Once it was met, a literal is in the table. -/
theorem lookup_literal (i : Image) (c : Constant) :
    (i.literal c).2.literals.lookup c = some (i.literal c).1 := by
  cases h : i.literals.lookup c with
  | some r =>
    rw [literal_of_lookup h]
    exact h
  | none =>
    obtain ⟨protos, heq⟩ := literal_of_none h
    rw [heq, List.lookup_cons, beq_self_eq_true]

end Image

end Prototalk
