/-
  Prototalk.Proofs.Source.Utf8
  ────────────────────────────────
  **THE BYTES OF A CHARACTER.**

  The first byte says how many bytes there are, and the bytes together say
  which character it is.  Both agree on exactly the encoding of the
  character (`width?_scalar?_iff`): no other bytes pass, and there is no
  longer way to write it.
-/
import Mathlib.Data.String.Basic
import Prototalk.Source.Stream

namespace Prototalk.Utf8

variable {a b c d lead : UInt8} {more : List UInt8} {x n : Nat} {ch : Char}

/-! ## §1. Bytes as numbers. -/

theorem width?_eq_some_iff : width? lead = some n ↔
    (lead.toNat ≤ 0x7f ∧ n = 1) ∨ (0xc2 ≤ lead.toNat ∧ lead.toNat ≤ 0xdf ∧ n = 2)
      ∨ (0xe0 ≤ lead.toNat ∧ lead.toNat ≤ 0xef ∧ n = 3)
      ∨ (0xf0 ≤ lead.toNat ∧ lead.toNat ≤ 0xf4 ∧ n = 4) := by
  unfold width?
  simp only [UInt8.le_iff_toNat_le, Bool.and_eq_true, decide_eq_true_eq, UInt8.reduceToNat]
  repeat' split
  all_goals simp only [Option.some.injEq, reduceCtorEq, false_iff]
  all_goals omega

theorem tail?_eq_some_iff : tail? b = some x ↔
    0x80 ≤ b.toNat ∧ b.toNat ≤ 0xbf ∧ x = b.toNat - 0x80 := by
  unfold tail?
  simp only [UInt8.le_iff_toNat_le, Bool.and_eq_true, decide_eq_true_eq, UInt8.reduceToNat]
  split <;> simp only [Option.some.injEq, reduceCtorEq, false_iff] <;> omega

theorem scalarFrom?_eq_some_iff {least : Nat} : scalarFrom? least n = some ch ↔
    least ≤ n ∧ ch.toNat = n := by
  unfold scalarFrom?
  constructor
  · intro h
    by_cases hn : least ≤ n ∧ n.isValidChar
    · rw [dif_pos hn] at h
      cases h
      exact ⟨hn.1, rfl⟩
    · rw [dif_neg hn] at h
      cases h
  · rintro ⟨hleast, rfl⟩
    rw [dif_pos ⟨hleast, ch.valid⟩]
    exact congrArg some (Char.ext rfl)

theorem tail?_eq (hlow : 0x80 ≤ b.toNat) (hhigh : b.toNat ≤ 0xbf) :
    tail? b = some (b.toNat - 0x80) :=
  tail?_eq_some_iff.mpr ⟨hlow, hhigh, rfl⟩

theorem scalar?_one (ha : a.toNat ≤ 0x7f) : scalar? [a] = some ch ↔ ch.toNat = a.toNat := by
  have hle : a ≤ 0x7f := UInt8.le_iff_toNat_le.mpr ha
  simp [scalar?, hle, scalarFrom?_eq_some_iff]

theorem scalar?_two : scalar? [a, b] = some ch ↔ 0x80 ≤ b.toNat ∧ b.toNat ≤ 0xbf
    ∧ 0x80 ≤ ch.toNat ∧ ch.toNat = (a.toNat - 0xc0) * 64 + (b.toNat - 0x80) := by
  constructor
  · intro h
    simp only [scalar?, Option.bind_eq_bind, Option.bind_eq_some_iff, tail?_eq_some_iff,
      scalarFrom?_eq_some_iff] at h
    obtain ⟨x, ⟨hlow, hhigh, hx⟩, hleast, hch⟩ := h
    omega
  · rintro ⟨hlow, hhigh, hleast, hch⟩
    rw [scalar?, tail?_eq hlow hhigh]
    simp only [Option.bind_eq_bind, Option.bind_some, scalarFrom?_eq_some_iff]
    omega

theorem scalar?_three : scalar? [a, b, c] = some ch ↔ 0x80 ≤ b.toNat ∧ b.toNat ≤ 0xbf
    ∧ 0x80 ≤ c.toNat ∧ c.toNat ≤ 0xbf ∧ 0x800 ≤ ch.toNat
    ∧ ch.toNat = ((a.toNat - 0xe0) * 64 + (b.toNat - 0x80)) * 64 + (c.toNat - 0x80) := by
  constructor
  · intro h
    simp only [scalar?, Option.bind_eq_bind, Option.bind_eq_some_iff, tail?_eq_some_iff,
      scalarFrom?_eq_some_iff] at h
    obtain ⟨x, ⟨hblow, hbhigh, hx⟩, y, ⟨hclow, hchigh, hy⟩, hleast, hch⟩ := h
    omega
  · rintro ⟨hblow, hbhigh, hclow, hchigh, hleast, hch⟩
    rw [scalar?, tail?_eq hblow hbhigh, tail?_eq hclow hchigh]
    simp only [Option.bind_eq_bind, Option.bind_some, scalarFrom?_eq_some_iff]
    omega

theorem scalar?_four : scalar? [a, b, c, d] = some ch ↔ 0x80 ≤ b.toNat ∧ b.toNat ≤ 0xbf
    ∧ 0x80 ≤ c.toNat ∧ c.toNat ≤ 0xbf ∧ 0x80 ≤ d.toNat ∧ d.toNat ≤ 0xbf ∧ 0x10000 ≤ ch.toNat
    ∧ ch.toNat = (((a.toNat - 0xf0) * 64 + (b.toNat - 0x80)) * 64 + (c.toNat - 0x80)) * 64
      + (d.toNat - 0x80) := by
  constructor
  · intro h
    simp only [scalar?, Option.bind_eq_bind, Option.bind_eq_some_iff, tail?_eq_some_iff,
      scalarFrom?_eq_some_iff] at h
    obtain ⟨x, ⟨hblow, hbhigh, hx⟩, y, ⟨hclow, hchigh, hy⟩, z, ⟨hdlow, hdhigh, hz⟩, hleast,
      hch⟩ := h
    omega
  · rintro ⟨hblow, hbhigh, hclow, hchigh, hdlow, hdhigh, hleast, hch⟩
    rw [scalar?, tail?_eq hblow hbhigh, tail?_eq hclow hchigh, tail?_eq hdlow hdhigh]
    simp only [Option.bind_eq_bind, Option.bind_some, scalarFrom?_eq_some_iff]
    omega

/-- A byte is told by its number. -/
theorem eq_ofNat {m : Nat} (h : a.toNat = m) : a = UInt8.ofNat m := by
  rw [← h, UInt8.ofNat_toNat]

theorem toNat_ofNat {m : Nat} (h : m < 256) : (UInt8.ofNat m).toNat = m :=
  UInt8.toNat_ofNat_of_lt' h

/-! ## §2. The encoding of a character. -/

theorem utf8EncodeChar_eq (ch : Char) : String.utf8EncodeChar ch =
    if ch.toNat ≤ 0x7f then [.ofNat ch.toNat]
    else if ch.toNat ≤ 0x7ff then [.ofNat (ch.toNat / 64 % 32 + 192), .ofNat (ch.toNat % 64 + 128)]
    else if ch.toNat ≤ 0xffff then
      [.ofNat (ch.toNat / 4096 % 16 + 224), .ofNat (ch.toNat / 64 % 64 + 128),
        .ofNat (ch.toNat % 64 + 128)]
    else
      [.ofNat (ch.toNat / 262144 % 8 + 240), .ofNat (ch.toNat / 4096 % 64 + 128),
        .ofNat (ch.toNat / 64 % 64 + 128), .ofNat (ch.toNat % 64 + 128)] :=
  rfl

theorem eq_utf8EncodeChar (hwidth : width? lead = some (lead :: more).length)
    (hscalar : scalar? (lead :: more) = some ch) : lead :: more = String.utf8EncodeChar ch := by
  rw [width?_eq_some_iff, List.length_cons] at hwidth
  rw [utf8EncodeChar_eq]
  match more, hwidth, hscalar with
  | [], hwidth, hscalar =>
    simp only [List.length_nil] at hwidth
    have hch := (scalar?_one (by omega)).mp hscalar
    rw [if_pos (by omega), hch, UInt8.ofNat_toNat]
  | [b], hwidth, hscalar =>
    simp only [List.length_cons, List.length_nil] at hwidth
    obtain ⟨hlow, hhigh, hleast, hch⟩ := scalar?_two.mp hscalar
    have hlead : lead = .ofNat (ch.toNat / 64 % 32 + 192) := eq_ofNat (by omega)
    have hb : b = .ofNat (ch.toNat % 64 + 128) := eq_ofNat (by omega)
    rw [if_neg (by omega), if_pos (by omega), hlead, hb]
  | [b, c], hwidth, hscalar =>
    simp only [List.length_cons, List.length_nil] at hwidth
    obtain ⟨hblow, hbhigh, hclow, hchigh, hleast, hch⟩ := scalar?_three.mp hscalar
    have hlead : lead = .ofNat (ch.toNat / 4096 % 16 + 224) := eq_ofNat (by omega)
    have hb : b = .ofNat (ch.toNat / 64 % 64 + 128) := eq_ofNat (by omega)
    have hc : c = .ofNat (ch.toNat % 64 + 128) := eq_ofNat (by omega)
    rw [if_neg (by omega), if_neg (by omega), if_pos (by omega), hlead, hb, hc]
  | [b, c, d], hwidth, hscalar =>
    simp only [List.length_cons, List.length_nil] at hwidth
    obtain ⟨hblow, hbhigh, hclow, hchigh, hdlow, hdhigh, hleast, hch⟩ := scalar?_four.mp hscalar
    have hlead : lead = .ofNat (ch.toNat / 262144 % 8 + 240) := eq_ofNat (by omega)
    have hb : b = .ofNat (ch.toNat / 4096 % 64 + 128) := eq_ofNat (by omega)
    have hc : c = .ofNat (ch.toNat / 64 % 64 + 128) := eq_ofNat (by omega)
    have hd : d = .ofNat (ch.toNat % 64 + 128) := eq_ofNat (by omega)
    rw [if_neg (by omega), if_neg (by omega), if_neg (by omega), hlead, hb, hc, hd]
  | b :: c :: d :: e :: more, hwidth, hscalar =>
    simp only [List.length_cons] at hwidth
    omega

theorem width?_scalar?_encode (h : lead :: more = String.utf8EncodeChar ch) :
    width? lead = some (lead :: more).length ∧ scalar? (lead :: more) = some ch := by
  have hvalid : ch.toNat < 0xd800 ∨ 0xdfff < ch.toNat ∧ ch.toNat < 0x110000 := ch.valid
  rw [utf8EncodeChar_eq] at h
  rw [width?_eq_some_iff]
  split at h
  · obtain ⟨rfl, rfl⟩ := List.cons.inj h
    have hlead := toNat_ofNat (m := ch.toNat) (by omega)
    rw [scalar?_one (by omega)]
    exact ⟨.inl ⟨by omega, rfl⟩, hlead.symm⟩
  · split at h
    · obtain ⟨rfl, rfl⟩ := List.cons.inj h
      have hlead := toNat_ofNat (m := ch.toNat / 64 % 32 + 192) (by omega)
      have hb := toNat_ofNat (m := ch.toNat % 64 + 128) (by omega)
      rw [scalar?_two, List.length_cons, List.length_singleton]
      omega
    · split at h
      · obtain ⟨rfl, rfl⟩ := List.cons.inj h
        have hlead := toNat_ofNat (m := ch.toNat / 4096 % 16 + 224) (by omega)
        have hb := toNat_ofNat (m := ch.toNat / 64 % 64 + 128) (by omega)
        have hc := toNat_ofNat (m := ch.toNat % 64 + 128) (by omega)
        rw [scalar?_three, List.length_cons, List.length_cons, List.length_singleton]
        omega
      · obtain ⟨rfl, rfl⟩ := List.cons.inj h
        have hlead := toNat_ofNat (m := ch.toNat / 262144 % 8 + 240) (by omega)
        have hb := toNat_ofNat (m := ch.toNat / 4096 % 64 + 128) (by omega)
        have hc := toNat_ofNat (m := ch.toNat / 64 % 64 + 128) (by omega)
        have hd := toNat_ofNat (m := ch.toNat % 64 + 128) (by omega)
        rw [scalar?_four, List.length_cons, List.length_cons, List.length_cons,
          List.length_singleton]
        omega

/-- **The first byte and the bytes agree on the encoding of the character, and on nothing else.** -/
theorem width?_scalar?_iff :
    width? lead = some (lead :: more).length ∧ scalar? (lead :: more) = some ch
      ↔ lead :: more = String.utf8EncodeChar ch :=
  ⟨fun h => eq_utf8EncodeChar h.1 h.2, width?_scalar?_encode⟩

end Prototalk.Utf8
