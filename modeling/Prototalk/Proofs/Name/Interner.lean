/-
  Prototalk.Proofs.Name.Interner
  ────────────────────────────────
  **A TABLE OF NAMES GROWS, AND NEVER CHANGES.**

  A table is `Valid` if its map and its list are inverse and the empty text
  comes first; `new` is, and adding a text that has no name keeps it so.  In
  a valid table a text and its name determine each other, so naming a text
  again gives the same name and the same table.  `Extends` says that no name
  has lost its text.
-/
import Mathlib.Data.Set.Card
import Prototalk.Name.Interner

namespace Prototalk

/-! ## §1. Valid tables. -/

namespace InternTable

variable {t t' t'' : InternTable} {s : String} {n : Name}

/-- A table whose map and list are inverse, with the empty text at the first index. -/
structure Valid (t : InternTable) : Prop where
  get?_eq_some_iff : ∀ {s : String} {n : Name}, t.get? s = some n ↔ t.lookup? n = some s
  empty : t.lookup? .empty = some ""

theorem index_lt_of_lookup? (h : t.lookup? n = some s) : n.index < t.size :=
  (Array.getElem?_eq_some_iff.mp h).1

theorem text_of_lookup? (h : t.lookup? n = some s) : t.text n = s := by
  rw [text, h]
  rfl

theorem Valid.name_inj (hv : t.Valid) {m : Name} (hn : t.lookup? n = some s)
    (hm : t.lookup? m = some s) : m = n :=
  Option.some.inj ((hv.get?_eq_some_iff.mpr hm).symm.trans (hv.get?_eq_some_iff.mpr hn))

/-- A text that has no name is not in the list, and gets a name that no text has. -/
theorem Valid.push (hv : t.Valid) (hnone : t.get? s = none) : (t.push s).Valid where
  get?_eq_some_iff := by
    intro s' n
    rw [get?_push, lookup?_push, ← hv.get?_eq_some_iff]
    by_cases hs : s' = s
    · subst hs
      simp [hnone, eq_comm]
    · simp [hs]
  empty := (lookup?_push ..).mpr (.inl hv.empty)

theorem valid_new : new.Valid where
  get?_eq_some_iff := by
    -- the first text is added to a table of none
    intro s n
    show (push ⟨[], #[]⟩ "").get? s = _ ↔ (push ⟨[], #[]⟩ "").lookup? n = _
    rw [get?_push, lookup?_push]
    by_cases hs : s = "" <;> simp [hs, get?, lookup?, eq_comm]
  empty := rfl

/-- Every text of a table has its own name, so there are as many texts as names. -/
theorem Valid.size_eq_ncard (hv : t.Valid) : t.size = {s | ∃ n, t.lookup? n = some s}.ncard := by
  have hset : {s | ∃ n, t.lookup? n = some s} = Set.range fun i : Fin t.size => t.texts[i] := by
    ext s
    constructor
    · rintro ⟨n, hn⟩
      obtain ⟨hlt, hs⟩ := Array.getElem?_eq_some_iff.mp hn
      exact ⟨⟨n.index, hlt⟩, hs⟩
    · rintro ⟨i, rfl⟩
      exact ⟨⟨i⟩, Array.getElem?_eq_some_iff.mpr ⟨i.isLt, rfl⟩⟩
  have hinj : Function.Injective fun i : Fin t.size => t.texts[i] := by
    intro i j hij
    have hi : t.lookup? ⟨i⟩ = some t.texts[i] := Array.getElem?_eq_some_iff.mpr ⟨i.isLt, rfl⟩
    have hj : t.lookup? ⟨j⟩ = some t.texts[i] := Array.getElem?_eq_some_iff.mpr ⟨j.isLt, hij.symm⟩
    exact Fin.ext (Name.mk.inj (hv.name_inj hj hi))
  rw [hset, ← Set.image_univ, Set.ncard_image_of_injective _ hinj, Set.ncard_univ, Nat.card_fin]

/-- No name has lost its text. -/
def Extends (t t' : InternTable) : Prop := ∀ n s, t.lookup? n = some s → t'.lookup? n = some s

theorem Extends.refl (t : InternTable) : t.Extends t := fun _ _ h => h

theorem Extends.trans (h : t.Extends t') (h' : t'.Extends t'') : t.Extends t'' :=
  fun n s hn => h' n s (h n s hn)

theorem extends_push (t : InternTable) (s : String) : t.Extends (t.push s) :=
  fun _ _ hn => (lookup?_push ..).mpr (.inl hn)

end InternTable

/-! ## §2. Tables in step. -/

namespace Interner

variable {t t' t'' : Interner} {s : String} {n : Name}

theorem toInternTable_inj (h : t.toInternTable = t'.toInternTable) : t = t' := by
  cases t
  cases t'
  cases h
  rfl

theorem lookup?_of_get? (h : t.get? s = some n) : t.lookup? n = some s := t.inStep.lookup? h

theorem text_of_lookup? (h : t.lookup? n = some s) : t.text n = s := InternTable.text_of_lookup? h

/-- **All that naming a text does**: nothing, or the text is added. -/
theorem intern_cases (t : Interner) (s : String) :
    (∃ n, t.get? s = some n ∧ t.intern s = (n, t))
      ∨ t.get? s = none ∧ (t.intern s).1 = ⟨t.size⟩
        ∧ (t.intern s).2.toInternTable = t.toInternTable.push s := by
  cases hs : t.get? s with
  | some n =>
    have hsame : t.toInternTable.intern s = (n, t.toInternTable) := by
      rw [InternTable.intern, hs]
    have hname : (t.intern s).1 = n := congrArg Prod.fst hsame
    have htable : (t.intern s).2 = t := toInternTable_inj (congrArg Prod.snd hsame)
    exact .inl ⟨n, rfl, Prod.ext hname htable⟩
  | none =>
    have hpush : t.toInternTable.intern s = (⟨t.size⟩, t.toInternTable.push s) := by
      rw [InternTable.intern, hs]
    exact .inr ⟨rfl, congrArg Prod.fst hpush, congrArg Prod.snd hpush⟩

theorem lookup?_intern (t : Interner) (s : String) :
    (t.intern s).2.lookup? (t.intern s).1 = some s := by
  obtain ⟨n, hn, hsame⟩ | ⟨-, hname, hpush⟩ := t.intern_cases s
  · rw [hsame]
    exact lookup?_of_get? hn
  · rw [hname, hpush]
    exact (InternTable.lookup?_push ..).mpr (.inr ⟨rfl, rfl⟩)

theorem text_intern (t : Interner) (s : String) : (t.intern s).2.text (t.intern s).1 = s :=
  text_of_lookup? (t.lookup?_intern s)

/-! ## §3. Larger tables. -/

/-- No name has lost its text. -/
def Extends (t t' : Interner) : Prop := t.toInternTable.Extends t'.toInternTable

theorem Extends.refl (t : Interner) : t.Extends t := InternTable.Extends.refl _

theorem Extends.trans (h : t.Extends t') (h' : t'.Extends t'') : t.Extends t'' :=
  InternTable.Extends.trans h h'

theorem extends_intern (t : Interner) (s : String) : t.Extends (t.intern s).2 := by
  obtain ⟨n, -, hsame⟩ | ⟨-, -, hpush⟩ := t.intern_cases s
  · rw [hsame]
    exact .refl t
  · rw [Extends, hpush]
    exact InternTable.extends_push _ s

theorem extends_internAll (t : Interner) (texts : List String) : t.Extends (t.internAll texts) := by
  induction texts generalizing t with
  | nil => exact .refl t
  | cons s texts ih => exact (extends_intern t s).trans (ih _)

theorem internAll_append (t : Interner) (texts more : List String) :
    t.internAll (texts ++ more) = (t.internAll texts).internAll more :=
  List.foldl_append

/-- The text has a name. -/
def Knows (t : Interner) (s : String) : Prop := ∃ n, t.lookup? n = some s

theorem Knows.mono (h : t.Knows s) (hext : t.Extends t') : t'.Knows s :=
  h.imp fun n hn => hext n s hn

theorem knows_of_mem {texts : List String} (t : Interner) (hs : s ∈ texts) :
    (t.internAll texts).Knows s := by
  induction texts generalizing t with
  | nil => cases hs
  | cons u texts ih =>
    rcases List.mem_cons.mp hs with rfl | hs
    · exact Knows.mono ⟨_, t.lookup?_intern s⟩ (extends_internAll _ texts)
    · exact ih (t.intern u).2 hs

end Interner

namespace InternTable.Valid

variable {t : Interner} (hv : t.Valid)

include hv

theorem intern_of_lookup? {s : String} {n : Name} (h : t.lookup? n = some s) :
    t.intern s = (n, t) := by
  have hn := hv.get?_eq_some_iff.mpr h
  obtain ⟨m, hm, hsame⟩ | ⟨hnone, -, -⟩ := t.intern_cases s
  · obtain rfl : m = n := Option.some.inj (hm.symm.trans hn)
    exact hsame
  · cases hnone.symm.trans hn

theorem intern_of_knows {s : String} (h : t.Knows s) : (t.intern s).2 = t := by
  obtain ⟨n, hn⟩ := h
  rw [hv.intern_of_lookup? hn]

theorem intern (s : String) : (t.intern s).2.Valid := by
  obtain ⟨n, -, hsame⟩ | ⟨hnone, -, hpush⟩ := t.intern_cases s
  · rw [hsame]
    exact hv
  · rw [hpush]
    exact hv.push hnone

theorem internAll (texts : List String) : (t.internAll texts).Valid := by
  induction texts generalizing t with
  | nil => exact hv
  | cons s texts ih => exact ih (hv.intern s)

end InternTable.Valid

namespace Interner

theorem valid_new : new.Valid := InternTable.valid_new

theorem valid_internAll (texts : List String) : (new.internAll texts).Valid :=
  valid_new.internAll texts

end Interner

end Prototalk
