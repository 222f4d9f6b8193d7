/-
  Prototalk.Span
  ────────────────────────────────
  **BYTE RANGES OF THE SOURCE TEXT.**

  A span is a pair of byte offsets `start..stop`.  Tokens, messages and
  errors carry one; a span never owns text, it only points at it.
-/

namespace Prototalk

/-- The byte range `start..stop` of a source text. -/
structure Span where
  /-- Offset of the first byte. -/
  start : Nat
  /-- Offset just past the last byte. -/
  stop : Nat
  deriving DecidableEq

namespace Span

/-- The largest offset a span can hold; offsets past it stick to it. -/
def maxOffset : Nat := 0xffffffff

/-- The span of a message that was not read from any source. -/
def nowhere : Span := ⟨0, 0⟩

/-- The empty range at `offset`. -/
def point (offset : Nat) : Span := ⟨offset, offset⟩

/-- Number of bytes in the range. -/
def length (s : Span) : Nat := s.stop - s.start

/-- Whether the range holds no byte. -/
def isEmpty (s : Span) : Bool := s.start == s.stop

/-- The smallest range that covers both. -/
def merge (s t : Span) : Span := ⟨min s.start t.start, max s.stop t.stop⟩

/-- The range as it stands in error messages: `3..9`. -/
def text (s : Span) : String := toString s.start ++ ".." ++ toString s.stop

theorem merge_comm (s t : Span) : s.merge t = t.merge s := by
  simp [merge, Nat.min_comm, Nat.max_comm]

theorem merge_assoc (s t u : Span) : (s.merge t).merge u = s.merge (t.merge u) := by
  simp [merge, Nat.min_assoc, Nat.max_assoc]

@[simp] theorem merge_self (s : Span) : s.merge s = s := by
  simp [merge]

end Span

end Prototalk
