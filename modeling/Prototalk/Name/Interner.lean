/-
  Prototalk.Name.Interner
  ────────────────────────────────
  **THE TABLE OF NAME TEXTS.**

  A table holds its texts twice: a list of all texts in the order in which
  their names were handed out, and a map from the texts to their names.  The
  empty text stands at index 0.

      get?       the name of a text, by the map
      lookup?    the text of a name, by the list
      intern     the name of a text, which gets the next index if it has none
      tryIntern  the same for a table of bounded capacity

  `tryIntern` is a check (`get?`) followed by an insertion that checks again
  (`insert`): the two halves may be run apart from each other, with other
  callers in between.

  Nothing in an `InternTable` keeps the map and the list in step.  An
  `Interner` is a table that is `InStep`, as every table is that grows from
  `new`.
-/
import Prototalk.Name

namespace Prototalk

/-- A table of texts and their names. -/
structure InternTable where
  /-- The names of the texts; the first entry of a text counts. -/
  map : List (String × Name)
  /-- The texts in the order of their names. -/
  texts : Array String
  deriving DecidableEq

/-- Why a text got no name. -/
inductive InternError where
  /-- The table, of `count` texts, is full. -/
  | overflow (count : Nat)
  deriving DecidableEq

namespace InternError

/-- The text of the error. -/
def message : InternError → String
  | .overflow count =>
      "interner exceeded capacity: " ++ toString count ++ " strings, max is 4294967295"

end InternError

namespace InternTable

variable {t : InternTable} {s s' : String} {n : Name}

/-- The table that knows the empty text only. -/
def new : InternTable := ⟨[("", .empty)], #[""]⟩

/-- How many texts a table may hold: an index has 32 bits. -/
def capacity : Nat := 0x100000000

/-- Number of texts, the empty one included. -/
def size (t : InternTable) : Nat := t.texts.size

/-- Whether the table holds no text at all, which no table grown from `new` does. -/
def isEmpty (t : InternTable) : Bool := t.size == 0

/-- The name of a text that has one. -/
def get? (t : InternTable) (s : String) : Option Name := t.map.lookup s

/-- The text of a name. -/
def lookup? (t : InternTable) (n : Name) : Option String := t.texts[n.index]?

/-- The text of a name, empty for a name of another table. -/
def text (t : InternTable) (n : Name) : String := (t.lookup? n).getD ""

/-- The table in which `s` stands at the end of the list, and has the name of that place. -/
def push (t : InternTable) (s : String) : InternTable where
  texts := t.texts.push s
  map := (s, ⟨t.size⟩) :: t.map

/-- The name of `s`, and the table in which it has that name. -/
def intern (t : InternTable) (s : String) : Name × InternTable :=
  match t.get? s with
  | some n => (n, t)
  | none => (⟨t.size⟩, t.push s)

/-- The second half of interning: look again, then add the text if there is room. -/
def insert (t : InternTable) (s : String) : Except InternError Name × InternTable :=
  match t.get? s with
  | some n => (.ok n, t)
  | none =>
      if t.size < capacity then (.ok ⟨t.size⟩, t.push s)
      else (.error (.overflow t.size), t)

/-- The name of `s`, unless the table is full. -/
def tryIntern (t : InternTable) (s : String) : Except InternError Name × InternTable :=
  match t.get? s with
  | some n => (.ok n, t)
  | none => t.insert s

/-- Below capacity the bounded and the unbounded table agree. -/
theorem tryIntern_eq_intern (t : InternTable) (s : String) (h : t.size < capacity) :
    t.tryIntern s = (.ok (t.intern s).1, (t.intern s).2) := by
  unfold tryIntern insert intern
  cases hs : t.get? s <;> simp [h]

theorem get?_push (t : InternTable) (s s' : String) :
    (t.push s).get? s' = if s' = s then some ⟨t.size⟩ else t.get? s' := by
  by_cases hs : s' = s
  · simp [get?, push, hs]
  · simp [get?, push, List.lookup_cons, beq_eq_false_iff_ne.mpr hs, hs]

/-- The next name is that of the new text; the names before it keep their texts. -/
theorem lookup?_push (t : InternTable) (s : String) (n : Name) (s' : String) :
    (t.push s).lookup? n = some s' ↔ t.lookup? n = some s' ∨ n = ⟨t.size⟩ ∧ s' = s := by
  obtain ⟨i⟩ := n
  show (t.texts.push s)[i]? = _ ↔ t.texts[i]? = _ ∨ _
  rw [Array.getElem?_push]
  by_cases hi : i = t.texts.size
  · subst hi
    simp [size, eq_comm]
  · simp [hi, size]

/-- The map has just the texts of the list, and leads to a place where the text stands. -/
structure InStep (t : InternTable) : Prop where
  lookup? : ∀ {s : String} {n : Name}, t.get? s = some n → t.lookup? n = some s
  get? : ∀ {s : String}, t.get? s = none → s ∉ t.texts

theorem InStep.push (h : t.InStep) (s : String) : (t.push s).InStep where
  lookup? := by
    intro s' n hn
    rw [get?_push] at hn
    rw [lookup?_push]
    split at hn
    · rename_i hs
      exact .inr ⟨(Option.some.inj hn).symm, hs⟩
    · exact .inl (h.lookup? hn)
  get? := by
    intro s' hnone
    rw [get?_push] at hnone
    split at hnone
    · cases hnone
    · rename_i hs
      simpa [InternTable.push, hs] using h.get? hnone

theorem inStep_new : new.InStep :=
  -- the first text is added to a table of none
  InStep.push (t := ⟨[], #[]⟩) ⟨nofun, by simp⟩ ""

theorem InStep.intern (h : t.InStep) (s : String) : (t.intern s).2.InStep := by
  unfold InternTable.intern
  cases t.get? s with
  | some n => exact h
  | none => exact h.push s

theorem InStep.insert (h : t.InStep) (s : String) : (t.insert s).2.InStep := by
  unfold InternTable.insert
  cases t.get? s with
  | some n => exact h
  | none =>
    dsimp only
    split
    · exact h.push s
    · exact h

theorem InStep.tryIntern (h : t.InStep) (s : String) : (t.tryIntern s).2.InStep := by
  unfold InternTable.tryIntern
  cases t.get? s with
  | some n => exact h
  | none => exact h.insert s

end InternTable

/-- The texts that have a name, listed and mapped in step; a name is a position in the list. -/
structure Interner extends InternTable where
  inStep : toInternTable.InStep

namespace Interner

/-- The table that knows the empty text only. -/
def new : Interner := ⟨.new, InternTable.inStep_new⟩

/-- The name of `s`, and the table in which it has that name. -/
def intern (t : Interner) (s : String) : Name × Interner :=
  let found := t.toInternTable.intern s
  (found.1, ⟨found.2, t.inStep.intern s⟩)

/-- The name of `s`, unless the table is full. -/
def tryIntern (t : Interner) (s : String) : Except InternError Name × Interner :=
  let found := t.toInternTable.tryIntern s
  (found.1, ⟨found.2, t.inStep.tryIntern s⟩)

/-- Give names to several texts, first to last. -/
def internAll (t : Interner) (texts : List String) : Interner :=
  texts.foldl (fun t s => (t.intern s).2) t

end Interner

end Prototalk
