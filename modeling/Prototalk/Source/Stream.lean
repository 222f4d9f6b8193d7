/-
  Prototalk.Source.Stream
  ────────────────────────────────
  **BYTE STREAMS AS SOURCES.**

  A buffered reader hands out the bytes in its buffer and fills the buffer
  when it is empty; if nothing comes into it then, the input has ended.  A
  `ReaderSource` takes bytes from a reader, one at a time, and answers with
  the characters that they encode in UTF-8.  A read that was merely
  interrupted is repeated.  Bytes that encode no character are an error at
  the offset of the first of them.
-/
import Prototalk.Source

namespace Prototalk

/-! ## §1. Buffered readers. -/

/-- What filling an empty buffer does next. -/
inductive StreamEvent where
  /-- These bytes come into the buffer; without any, the input has ended for this read. -/
  | bytes (chunk : List UInt8)
  /-- The read is interrupted and has to be repeated. -/
  | interrupted
  /-- The read fails, once. -/
  | failed (reason : String)

/-- Number of bytes that an event brings, and the event itself. -/
def StreamEvent.size : StreamEvent → Nat
  | .bytes chunk => chunk.length + 1
  | .interrupted => 1
  | .failed _ => 1

/-- Why a buffer could not be filled. -/
inductive FillError where
  /-- The read was interrupted. -/
  | interrupted
  /-- The read failed, and said why. -/
  | failed (reason : String)

/-- A buffered reader. -/
structure Reader where
  /-- Bytes that have come in and are not consumed. -/
  buffer : List UInt8
  /-- What filling the buffer will do; after that, the input has ended. -/
  coming : List StreamEvent

namespace Reader

/-- The bytes in the buffer, which is filled first if it is empty. -/
def fillBuf (r : Reader) : Except FillError (List UInt8) × Reader :=
  match r.buffer, r.coming with
  | b :: buffer, _ => (.ok (b :: buffer), r)
  | [], [] => (.ok [], r)
  | [], .bytes chunk :: coming => (.ok chunk, ⟨chunk, coming⟩)
  | [], .interrupted :: coming => (.error .interrupted, ⟨[], coming⟩)
  | [], .failed reason :: coming => (.error (.failed reason), ⟨[], coming⟩)

/-- Take bytes out of the buffer. -/
def consume (r : Reader) (count : Nat) : Reader := { r with buffer := r.buffer.drop count }

/-- Nothing is left, and nothing will come. -/
def isSpent (r : Reader) : Bool := r.buffer.isEmpty && r.coming.isEmpty

/-- Number of bytes and events that are left. -/
def remaining (r : Reader) : Nat :=
  r.buffer.length + r.coming.foldr (fun e left => e.size + left) 0

end Reader

/-! ## §2. UTF-8. -/

namespace Utf8

/-- Number of bytes in the encoding that starts with this byte. -/
def width? (lead : UInt8) : Option Nat :=
  if lead ≤ 0x7f then some 1
  else if 0xc2 ≤ lead && lead ≤ 0xdf then some 2
  else if 0xe0 ≤ lead && lead ≤ 0xef then some 3
  else if 0xf0 ≤ lead && lead ≤ 0xf4 then some 4
  else none

/-- The six payload bits of a continuation byte. -/
def tail? (b : UInt8) : Option Nat :=
  if 0x80 ≤ b && b ≤ 0xbf then some (b.toNat - 0x80) else none

/-- The character with code point `n`, if `n` is at least `least` and a code point of one. -/
def scalarFrom? (least n : Nat) : Option Char :=
  if h : least ≤ n ∧ n.isValidChar then some (Char.ofNatAux n h.2) else none

/-- The character that a sequence of bytes encodes, in the shortest way there is. -/
def scalar? : List UInt8 → Option Char
  | [a] => if a ≤ 0x7f then scalarFrom? 0 a.toNat else none
  | [a, b] => do
      let x ← tail? b
      scalarFrom? 0x80 ((a.toNat - 0xc0) * 64 + x)
  | [a, b, c] => do
      let x ← tail? b
      let y ← tail? c
      scalarFrom? 0x800 (((a.toNat - 0xe0) * 64 + x) * 64 + y)
  | [a, b, c, d] => do
      let x ← tail? b
      let y ← tail? c
      let z ← tail? d
      scalarFrom? 0x10000 ((((a.toNat - 0xf0) * 64 + x) * 64 + y) * 64 + z)
  | _ => none

end Utf8

/-! ## §3. Bytes and characters of a reader. -/

/-- A source over a buffered reader. -/
structure ReaderSource where
  /-- The reader. -/
  inner : Reader
  /-- Number of bytes taken so far. -/
  offset : Nat

namespace ReaderSource

/-- The next byte, if there is one.  An interrupted read is repeated. -/
def readByte (s : ReaderSource) : Except SourceError (Option UInt8) × ReaderSource :=
  match _h : s.inner.fillBuf with
  | (.ok [], inner) => (.ok none, ⟨inner, s.offset⟩)
  | (.ok (b :: _), inner) => (.ok (some b), ⟨inner.consume 1, s.offset + 1⟩)
  | (.error .interrupted, inner) => readByte ⟨inner, s.offset⟩
  | (.error (.failed reason), inner) => (.error (.io reason), ⟨inner, s.offset⟩)
termination_by s.inner.coming.length
decreasing_by
  obtain ⟨⟨buffer, coming⟩, offset⟩ := s
  unfold Reader.fillBuf at _h
  split at _h <;> cases _h
  simp_all

/-- Take so many more bytes of a character that starts at byte `start`, behind the bytes already
`taken`, last one first.  The end of the input leaves the character unfinished. -/
def continuation (start : Nat) :
    Nat → List UInt8 → ReaderSource → Except SourceError (List UInt8) × ReaderSource
  | 0, taken, s => (.ok taken.reverse, s)
  | n + 1, taken, s =>
      match s.readByte with
      | (.error e, s) => (.error e, s)
      | (.ok none, s) => (.error (.invalidUtf8 start), s)
      | (.ok (some b), s) => continuation start n (b :: taken) s

/-- The answer to one read of a character. -/
def nextChar (s : ReaderSource) : Read × ReaderSource :=
  let start := s.offset
  match s.readByte with
  | (.error e, s) => (.failed e, s)
  | (.ok none, s) => (.endOfInput, s)
  | (.ok (some lead), s) =>
      match Utf8.width? lead with
      | none => (.failed (.invalidUtf8 start), s)
      | some width =>
          match continuation start (width - 1) [lead] s with
          | (.error e, s) => (.failed e, s)
          | (.ok bytes, s) =>
              match Utf8.scalar? bytes with
              | some c => (.char c, s)
              | none => (.failed (.invalidUtf8 start), s)

/-- The answers to `n` reads. -/
def nextChars : Nat → ReaderSource → List Read
  | 0, _ => []
  | n + 1, s =>
      let (answer, s) := s.nextChar
      answer :: nextChars n s

/-! ## §4. Reading leaves less to be read. -/

theorem remaining_of_isSpent {r : Reader} (h : r.isSpent = true) : r.remaining = 0 := by
  simp only [Reader.isSpent, Bool.and_eq_true, List.isEmpty_iff] at h
  simp [Reader.remaining, h]

/-- A look into the buffer brings a byte or uses up an event, unless everything is used up. -/
theorem remaining_fillBuf {r r' : Reader} {found : Except FillError (List UInt8)}
    (h : r.fillBuf = (found, r')) :
    (∃ b buffer, found = .ok (b :: buffer) ∧ (r'.consume 1).remaining < r.remaining)
      ∨ (∀ b buffer, found ≠ .ok (b :: buffer)) ∧ r'.remaining < r.remaining
      ∨ found = .ok [] ∧ r'.isSpent = true := by
  obtain ⟨buffer, coming⟩ := r
  unfold Reader.fillBuf at h
  split at h <;> cases h
  · exact .inl ⟨_, _, rfl, by simp_all [Reader.consume, Reader.remaining]⟩
  · exact .inr (.inr ⟨rfl, by simp_all [Reader.isSpent]⟩)
  · rename_i chunk coming hbuffer hcoming
    dsimp only at hbuffer hcoming
    subst hbuffer hcoming
    cases chunk with
    | nil => exact .inr (.inl ⟨nofun, by simp [Reader.remaining, StreamEvent.size]⟩)
    | cons b chunk =>
      refine .inl ⟨b, chunk, rfl, ?_⟩
      simp only [Reader.consume, Reader.remaining, List.drop_one, List.tail_cons, List.length_nil,
        List.foldr_cons, StreamEvent.size, List.length_cons]
      omega
  · exact .inr (.inl ⟨nofun, by simp_all [Reader.remaining, StreamEvent.size]⟩)
  · exact .inr (.inl ⟨nofun, by simp_all [Reader.remaining, StreamEvent.size]⟩)

theorem remaining_readByte {s s' : ReaderSource} {found : Except SourceError (Option UInt8)}
    (h : s.readByte = (found, s')) :
    s'.inner.remaining < s.inner.remaining ∨ found = .ok none ∧ s'.inner.isSpent = true := by
  fun_induction readByte s with
  | case1 s inner hfill =>
    cases h
    obtain ⟨_, _, hfound, -⟩ | ⟨-, hlt⟩ | ⟨-, hspent⟩ := remaining_fillBuf hfill
    · cases hfound
    · exact .inl hlt
    · exact .inr ⟨rfl, hspent⟩
  | case2 s b buffer inner hfill =>
    cases h
    obtain ⟨_, _, -, hlt⟩ | ⟨hnot, -⟩ | ⟨hfound, -⟩ := remaining_fillBuf hfill
    · exact .inl hlt
    · exact absurd rfl (hnot b buffer)
    · cases hfound
  | case3 s inner hfill ih =>
    obtain ⟨_, _, hfound, -⟩ | ⟨-, hlt⟩ | ⟨hfound, -⟩ := remaining_fillBuf hfill
    · cases hfound
    · exact (ih h).imp_left fun hle => Nat.lt_trans hle hlt
    · cases hfound
  | case4 s reason inner hfill =>
    cases h
    obtain ⟨_, _, hfound, -⟩ | ⟨-, hlt⟩ | ⟨hfound, -⟩ := remaining_fillBuf hfill
    · cases hfound
    · exact .inl hlt
    · cases hfound

theorem remaining_readByte_le (s : ReaderSource) :
    s.readByte.2.inner.remaining ≤ s.inner.remaining := by
  obtain hlt | ⟨-, hspent⟩ := remaining_readByte (s := s) rfl
  · exact Nat.le_of_lt hlt
  · rw [remaining_of_isSpent hspent]
    exact Nat.zero_le _

theorem remaining_continuation_le (start n : Nat) (taken : List UInt8) (s : ReaderSource) :
    (continuation start n taken s).2.inner.remaining ≤ s.inner.remaining := by
  induction n generalizing taken s with
  | zero => exact Nat.le_refl _
  | succ n ih =>
    have hbyte := remaining_readByte_le s
    unfold continuation
    split <;> rename_i hread <;> rw [hread] at hbyte
    · exact hbyte
    · exact hbyte
    · exact Nat.le_trans (ih ..) hbyte

/-- Every answer uses something up, except the end of the input where nothing is left. -/
theorem remaining_nextChar {s s' : ReaderSource} {answer : Read} (h : s.nextChar = (answer, s')) :
    s'.inner.remaining < s.inner.remaining ∨ answer = .endOfInput ∧ s'.inner.isSpent = true := by
  unfold nextChar at h
  dsimp only at h
  split at h
  · rename_i hread
    cases h
    simpa using remaining_readByte hread
  · rename_i hread
    cases h
    simpa using remaining_readByte hread
  · rename_i lead s₁ hread
    have hlt : s₁.inner.remaining < s.inner.remaining := by simpa using remaining_readByte hread
    left
    split at h
    · cases h
      exact hlt
    · rename_i width _
      have hle := remaining_continuation_le s.offset (width - 1) [lead] s₁
      split at h <;> rename_i hmore <;> rw [hmore] at hle
      · cases h
        exact Nat.lt_of_le_of_lt hle hlt
      · split at h <;> cases h <;> exact Nat.lt_of_le_of_lt hle hlt

/-! ## §5. Readers as sources. -/

/-- The answers to come, behind those already given, last one first.  Once everything is used up
only the end of the input is left to answer. -/
def answers (s : ReaderSource) (given : List Read) : List Read :=
  match _h : s.nextChar with
  | (answer, s') =>
      if _hlast : answer = .endOfInput ∧ s'.inner.isSpent then given.reverse
      else answers s' (answer :: given)
termination_by s.inner.remaining
decreasing_by exact (remaining_nextChar _h).resolve_right _hlast

end ReaderSource

namespace Source

/-- The source over a buffered reader. -/
def ofReader (r : Reader) : Source := ReaderSource.answers ⟨r, 0⟩ []

/-- The source that reads what a stream delivers; a chunk without bytes is not delivered. -/
def ofStream (events : List StreamEvent) : Source :=
  ofReader ⟨[], events.filter fun
    | .bytes chunk => !chunk.isEmpty
    | _ => true⟩

/-- The source that reads the bytes of a file. -/
def ofBytes (bytes : List UInt8) : Source := ofReader ⟨bytes, []⟩

end Source

end Prototalk
