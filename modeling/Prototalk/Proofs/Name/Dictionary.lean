/-
  Prototalk.Proofs.Name.Dictionary
  ────────────────────────────────
  **TWO TABLES OF NAMES, SIDE BY SIDE.**

  Two tables that grew in different orders give a text different names.  A
  name of the left table and one of the right table are a pair if they have
  the same text (`Dictionary.Pairs`).  Each determines the other, the empty
  name is paired with itself, and no pair is lost when the tables grow.
  Giving a text a name on both sides makes a pair
  (`Dictionary.pairs_intern`).
-/
import Prototalk.Proofs.Name.Interner

namespace Prototalk

/-- Two tables of names. -/
structure Dictionary where
  /-- One table. -/
  left : Interner
  /-- The other. -/
  right : Interner
  /-- The first table is valid. -/
  leftValid : left.Valid
  /-- So is the second. -/
  rightValid : right.Valid

namespace Dictionary

variable {d d' d'' : Dictionary} {n n' k k' : Name}

/-! ## §1. Pairs of names. -/

/-- The names have the same text. -/
def Pairs (d : Dictionary) (n k : Name) : Prop :=
  ∃ s, d.left.lookup? n = some s ∧ d.right.lookup? k = some s

theorem pairs_empty (d : Dictionary) : d.Pairs .empty .empty :=
  ⟨"", d.leftValid.empty, d.rightValid.empty⟩

theorem Pairs.text_eq (h : d.Pairs n k) : d.right.text k = d.left.text n := by
  obtain ⟨s, hn, hk⟩ := h
  rw [Interner.text_of_lookup? hn, Interner.text_of_lookup? hk]

/-- Each of two paired names determines the other. -/
theorem Pairs.eq_iff (h : d.Pairs n k) (h' : d.Pairs n' k') : n = n' ↔ k = k' := by
  obtain ⟨s, hn, hk⟩ := h
  obtain ⟨s', hn', hk'⟩ := h'
  constructor
  · rintro rfl
    obtain rfl : s = s' := Option.some.inj (hn.symm.trans hn')
    exact d.rightValid.name_inj hk' hk
  · rintro rfl
    obtain rfl : s = s' := Option.some.inj (hk.symm.trans hk')
    exact d.leftValid.name_inj hn' hn

/-! ## §2. Larger tables. -/

/-- No name of either table has lost its text. -/
structure Extends (d d' : Dictionary) : Prop where
  left : d.left.Extends d'.left
  right : d.right.Extends d'.right

theorem Extends.refl (d : Dictionary) : d.Extends d := ⟨.refl _, .refl _⟩

theorem Extends.trans (h : d.Extends d') (h' : d'.Extends d'') : d.Extends d'' :=
  ⟨h.left.trans h'.left, h.right.trans h'.right⟩

theorem Pairs.mono (hext : d.Extends d') (h : d.Pairs n k) : d'.Pairs n k := by
  obtain ⟨s, hn, hk⟩ := h
  exact ⟨s, hext.left n s hn, hext.right k s hk⟩

/-- Give a text a name in both tables. -/
def intern (d : Dictionary) (s : String) : Dictionary :=
  ⟨(d.left.intern s).2, (d.right.intern s).2, d.leftValid.intern s, d.rightValid.intern s⟩

theorem extends_intern (d : Dictionary) (s : String) : d.Extends (d.intern s) :=
  ⟨Interner.extends_intern _ s, Interner.extends_intern _ s⟩

theorem pairs_intern (d : Dictionary) (s : String) :
    (d.intern s).Pairs (d.left.intern s).1 (d.right.intern s).1 :=
  ⟨s, d.left.lookup?_intern s, d.right.lookup?_intern s⟩

/-- Give names to different texts in the two tables. -/
def internAll (d : Dictionary) (xs ys : List String) : Dictionary :=
  ⟨d.left.internAll xs, d.right.internAll ys, d.leftValid.internAll xs, d.rightValid.internAll ys⟩

theorem extends_internAll (d : Dictionary) (xs ys : List String) :
    d.Extends (d.internAll xs ys) :=
  ⟨Interner.extends_internAll _ xs, Interner.extends_internAll _ ys⟩

/-- The texts that both tables are given have a name in both. -/
theorem knows_internAll (d : Dictionary) (xs : List String) :
    ∀ s ∈ xs, (d.internAll xs xs).left.Knows s ∧ (d.internAll xs xs).right.Knows s :=
  fun _ hs => ⟨Interner.knows_of_mem _ hs, Interner.knows_of_mem _ hs⟩

/-! ## §3. Different names. -/

/-- Two tables that were given different texts. -/
def ofTexts (xs ys : List String) : Dictionary :=
  ⟨Interner.new.internAll xs, Interner.new.internAll ys, Interner.valid_internAll xs,
    Interner.valid_internAll ys⟩

/-- The first text that a new table is given has the first index behind the empty text. -/
theorem lookup?_first {s : String} (hs : s ≠ "") (rest : List String) :
    (Interner.new.internAll (s :: rest)).lookup? ⟨1⟩ = some s := by
  have hfirst : (Interner.new.intern s).2.lookup? ⟨1⟩ = some s := by
    -- the only text that a new table has is the empty one
    have hnone : InternTable.new.get? s = none :=
      (InternTable.get?_push ⟨[], #[]⟩ "" s).trans (if_neg hs)
    obtain ⟨n, hn, -⟩ | ⟨-, -, hpush⟩ := Interner.new.intern_cases s
    · cases hnone.symm.trans hn
    · rw [hpush]
      exact (InternTable.lookup?_push ..).mpr (.inr ⟨rfl, rfl⟩)
  exact Interner.extends_internAll _ rest _ _ hfirst

/-- A text that is not empty can have different names in two tables. -/
theorem exists_names_ne {s : String} (hs : s ≠ "") :
    ∃ (xs ys : List String) (n k : Name), n ≠ k ∧ (ofTexts xs ys).left.lookup? n = some s
      ∧ (ofTexts xs ys).right.lookup? k = some s := by
  obtain ⟨t, ht, hts⟩ : ∃ t : String, t ≠ "" ∧ t ≠ s := by
    by_cases ha : s = "a"
    · exact ⟨"b", by decide, by simp [ha]⟩
    · exact ⟨"a", by decide, fun h => ha h.symm⟩
  -- in the second table the first index is taken by another text
  have hk := (Interner.new.internAll [t]).lookup?_intern s
  refine ⟨[s], [t, s], ⟨1⟩, _, ?_, lookup?_first hs [], hk⟩
  intro heq
  rw [← heq] at hk
  exact hts (Option.some.inj ((lookup?_first ht [s]).symm.trans hk))

end Dictionary

end Prototalk
