/-
  Prototalk.Proofs.Name.Sharing
  ────────────────────────────────
  **NO ORDER OF TURNS SPOILS A SHARED TABLE.**

  Whatever turns the callers take, the map and the list of the table stay
  inverse, and have just the texts that the callers were told to be named,
  each under the one name that they were told (`Faithful`).  Two callers may
  look the same text up in vain and both come back to add it; the second
  finds it there.

  Main results:
    * `take?_cases`       all that a turn can do,
    * `Faithful.take`     the invariant of all runs, turn by turn,
    * `run?_seek_insert`  a caller that is not interrupted gets what
                          `InternTable.tryIntern` gives,
    * `bijective_run?`    what holds after every run.
-/
import Prototalk.Name.Sharing
import Prototalk.Proofs.Name.Interner

namespace Prototalk.InternTable

/-! ## §1. What a turn does. -/

/-- The answers that a table gives when it stays as it is. -/
def Tells (t : InternTable) : Answer → Prop
  | .named text n => t.get? text = some n
  | .refused text e => t.get? text = none ∧ ¬ t.size < capacity ∧ e = .overflow t.size
  | .got text name => t.get? text = name
  | .told n text => t.lookup? n = text
  | .counted size => t.size = size

namespace Shared

variable {s s' : Shared} {turn : Turn} {turns : List Turn} {answer : Answer}

/-- **All that a turn can do**: take a note, read an answer off the table, or add a text. -/
theorem take?_cases (htake : s.take? turn = some s') :
    (∃ missed, s' = { s with missed := missed })
      ∨ (∃ missed answer, s.table.Tells answer ∧ s' = ⟨s.table, missed, answer :: s.answers⟩)
      ∨ ∃ missed text, s.table.get? text = none ∧ s.table.size < capacity
        ∧ s' = ⟨s.table.push text, missed, .named text ⟨s.table.size⟩ :: s.answers⟩ := by
  have hread {caller : Nat} {answer : Answer} (h : s.answer? caller answer = some s')
      (htells : s.table.Tells answer) :
      ∃ missed answer, s.table.Tells answer ∧ s' = ⟨s.table, missed, answer :: s.answers⟩ := by
    unfold answer? at h
    split at h
    · cases h
      exact ⟨_, answer, htells, rfl⟩
    · cases h
  cases turn with
  | seek caller text =>
    simp only [take?] at htake
    split at htake
    · rename_i n _ hn
      cases htake
      exact .inr (.inl ⟨_, .named text n, hn, rfl⟩)
    · cases htake
      exact .inl ⟨_, rfl⟩
    · cases htake
  | insert caller =>
    simp only [take?] at htake
    split at htake
    · cases htake
    · rename_i text _
      cases htake
      unfold InternTable.insert
      cases hn : s.table.get? text with
      | some n =>
        -- another caller was faster
        exact .inr (.inl ⟨_, .named text n, hn, rfl⟩)
      | none =>
        dsimp only
        split
        · rename_i hroom
          exact .inr (.inr ⟨_, text, hn, hroom, rfl⟩)
        · rename_i hfull
          exact .inr (.inl ⟨_, .refused text _, ⟨hn, hfull, rfl⟩, rfl⟩)
  | get caller text => exact .inr (.inl (hread htake rfl))
  | tell caller n => exact .inr (.inl (hread htake rfl))
  | count caller => exact .inr (.inl (hread htake rfl))

theorem extends_take (htake : s.take? turn = some s') :
    s.table.Extends s'.table ∧ s.answers <:+ s'.answers := by
  obtain ⟨missed, rfl⟩ | ⟨missed, answer, -, rfl⟩ | ⟨missed, text, -, -, rfl⟩ := take?_cases htake
  · exact ⟨.refl _, List.suffix_refl _⟩
  · exact ⟨.refl _, List.suffix_cons _ _⟩
  · exact ⟨extends_push _ text, List.suffix_cons _ _⟩

/-- No name loses its text, and no answer is forgotten. -/
theorem extends_run (hrun : s.run? turns = some s') :
    s.table.Extends s'.table ∧ s.answers <:+ s'.answers := by
  induction turns generalizing s with
  | nil =>
    cases hrun
    exact ⟨.refl _, List.suffix_refl _⟩
  | cons turn turns ih =>
    obtain ⟨s₁, htake, hrest⟩ := Option.bind_eq_some_iff.mp hrun
    obtain ⟨htable, hanswers⟩ := ih hrest
    exact ⟨(extends_take htake).1.trans htable, (extends_take htake).2.trans hanswers⟩

/-- A table that refuses a text stays as it is. -/
theorem table_eq_of_refused {text : String} {e : InternError} (htake : s.take? turn = some s')
    (htold : s'.answers = .refused text e :: s.answers) : s'.table = s.table := by
  obtain ⟨missed, rfl⟩ | ⟨missed, answer, -, rfl⟩ | ⟨missed, text', -, -, rfl⟩ := take?_cases htake
  · rfl
  · rfl
  · cases (List.cons.inj htold).1

end Shared

/-! ## §2. What callers were told. -/

/-- The text got this name, by these answers; the empty text has the empty name from the start. -/
def Named (answers : List Answer) (text : String) (n : Name) : Prop :=
  text = "" ∧ n = .empty ∨ .named text n ∈ answers

/-- How many texts got a name, by these answers. -/
noncomputable def namedCount (answers : List Answer) : Nat :=
  {text | ∃ n, Named answers text n}.ncard

/-- What an answer has to say, after the answers `earlier`. -/
def Answer.Right (earlier : List Answer) : Answer → Prop
  | .named text n => ∀ text' n', Named earlier text' n' → (n' = n ↔ text' = text)
  | .refused text e =>
      e = .overflow capacity ∧ namedCount earlier = capacity ∧ ∀ n, ¬ Named earlier text n
  | .got text name => ∀ n, name = some n ↔ Named earlier text n
  | .told n text => ∀ text', text = some text' ↔ Named earlier text' n
  | .counted size => size = namedCount earlier

/-- Each answer is right, after those before it. -/
def AllRight : List Answer → Prop
  | [] => True
  | answer :: earlier => answer.Right earlier ∧ AllRight earlier

namespace Shared

variable {s s' : Shared} {turn : Turn} {turns : List Turn} {answer : Answer}

/-- The table lists what callers were told, and they were told right. -/
structure Faithful (s : Shared) : Prop where
  /-- The map and the list are inverse, and the empty text comes first. -/
  valid : s.table.Valid
  /-- The names of the table are those that were given. -/
  texts : ∀ text n, s.table.lookup? n = some text ↔ Named s.answers text n
  /-- Every name has an index of 32 bits. -/
  size_le : s.table.size ≤ capacity
  /-- The answers are right. -/
  right : AllRight s.answers

theorem faithful_new : Faithful new where
  valid := valid_new
  texts := by
    intro text n
    have hone : new.table.lookup? n = some text ↔ n = .empty ∧ text = "" := by
      refine (lookup?_push ⟨[], #[]⟩ "" n text).trans ⟨?_, Or.inr⟩
      rintro (hnone | hn)
      · simp [lookup?] at hnone
      · exact hn
    rw [hone]
    simp [Named, new, and_comm]
  size_le := by decide
  right := trivial

namespace Faithful

variable (hf : s.Faithful)

include hf

theorem names (text : String) (n : Name) : s.table.get? text = some n ↔ Named s.answers text n :=
  hf.valid.get?_eq_some_iff.trans (hf.texts text n)

theorem size_eq : s.table.size = namedCount s.answers := by
  rw [hf.valid.size_eq_ncard, namedCount]
  simp only [hf.texts]

/-- What the table tells is right. -/
theorem right_of_tells (htells : s.table.Tells answer) : answer.Right s.answers := by
  cases answer with
  | named text n =>
    -- a text that has a name is told the name it had before
    intro text' n' hnamed
    have hn := hf.valid.get?_eq_some_iff.mp htells
    have hn' := (hf.texts text' n').mpr hnamed
    constructor
    · rintro rfl
      exact Option.some.inj (hn'.symm.trans hn)
    · rintro rfl
      exact hf.valid.name_inj hn hn'
  | refused text e =>
    obtain ⟨hnone, hfull, rfl⟩ := htells
    have hsize : s.table.size = capacity := Nat.le_antisymm hf.size_le (Nat.not_lt.mp hfull)
    refine ⟨by rw [hsize], by rw [← hf.size_eq, hsize], fun n hnamed => ?_⟩
    rw [(hf.names text n).mpr hnamed] at hnone
    cases hnone
  | got text name =>
    obtain rfl := htells
    exact hf.names text
  | told n text =>
    obtain rfl := htells
    exact fun text' => hf.texts text' n
  | counted size =>
    obtain rfl := htells
    exact hf.size_eq

/-- The next name is a name that no text has had. -/
theorem right_added {text : String} (hnone : s.table.get? text = none) :
    (Answer.named text ⟨s.table.size⟩).Right s.answers := by
  intro text' n' hnamed
  have hn' := (hf.texts text' n').mpr hnamed
  refine iff_of_false ?_ ?_
  · rintro rfl
    exact Nat.lt_irrefl _ (index_lt_of_lookup? hn')
  · rintro rfl
    rw [(hf.names text' n').mpr hnamed] at hnone
    cases hnone

/-- An answer after which the same texts have names. -/
theorem tell (missed : Nat → Option String) (htells : s.table.Tells answer) :
    Faithful ⟨s.table, missed, answer :: s.answers⟩ where
  valid := hf.valid
  texts := by
    intro text n
    refine (hf.texts text n).trans ⟨Or.imp_right (List.mem_cons_of_mem _), ?_⟩
    rintro (hempty | hmem)
    · exact Or.inl hempty
    · rcases List.mem_cons.mp hmem with rfl | hmem
      · exact (hf.names text n).mp htells
      · exact Or.inr hmem
  size_le := hf.size_le
  right := ⟨hf.right_of_tells htells, hf.right⟩

/-- A text is added, and its name is told. -/
theorem add (missed : Nat → Option String) {text : String} (hnone : s.table.get? text = none)
    (hroom : s.table.size < capacity) :
    Faithful ⟨s.table.push text, missed, .named text ⟨s.table.size⟩ :: s.answers⟩ where
  valid := hf.valid.push hnone
  texts := by
    intro text' n
    rw [lookup?_push, hf.texts]
    simp only [Named, List.mem_cons, Answer.named.injEq]
    tauto
  size_le := by
    show (s.table.texts.push text).size ≤ capacity
    rw [Array.size_push]
    exact hroom
  right := ⟨hf.right_added hnone, hf.right⟩

/-- **Every turn keeps the table faithful.** -/
theorem take (htake : s.take? turn = some s') : s'.Faithful := by
  obtain ⟨missed, rfl⟩ | ⟨missed, answer, htells, rfl⟩ | ⟨missed, text, hnone, hroom, rfl⟩ :=
    take?_cases htake
  · exact ⟨hf.valid, hf.texts, hf.size_le, hf.right⟩
  · exact hf.tell missed htells
  · exact hf.add missed hnone hroom

theorem run (hrun : s.run? turns = some s') : s'.Faithful := by
  induction turns generalizing s with
  | nil =>
    cases hrun
    exact hf
  | cons turn turns ih =>
    obtain ⟨s₁, htake, hrest⟩ := Option.bind_eq_some_iff.mp hrun
    exact ih (hf.take htake) hrest

end Faithful

/-! ## §3. Callers. -/

/-- A caller can always go on: with what it likes, or with the text it is about to add. -/
theorem exists_take (s : Shared) (caller : Nat) :
    (s.missed caller = none → ∀ text, ∃ s', s.take? (.seek caller text) = some s')
      ∧ (∀ text, s.missed caller = some text → ∃ s', s.take? (.insert caller) = some s'
        ∧ ∃ result, s'.answers = .ofResult text result :: s.answers) := by
  constructor
  · intro hfree text
    simp only [take?, hfree]
    cases s.table.get? text <;> exact ⟨_, rfl⟩
  · intro text hmissed
    simp only [take?, hmissed]
    exact ⟨_, rfl, _, rfl⟩

/-- **Naming without interruption.**  The turns of a caller, one right behind the other, come to
what naming a text at once does. -/
theorem run?_seek_insert (s : Shared) (caller : Nat) (text : String)
    (hfree : s.missed caller = none) :
    ∃ turns, turns <+: [.seek caller text, .insert caller]
      ∧ s.run? turns = some ⟨(s.table.tryIntern text).2, s.missed,
          .ofResult text (s.table.tryIntern text).1 :: s.answers⟩ := by
  unfold tryIntern
  cases hn : s.table.get? text with
  | some n =>
    refine ⟨[.seek caller text], ⟨[.insert caller], rfl⟩, ?_⟩
    simp [run?, take?, hfree, hn, Answer.ofResult]
  | none =>
    refine ⟨[.seek caller text, .insert caller], List.prefix_refl _, ?_⟩
    -- the note that the first turn makes is gone after the second
    have hnotes : note ⟨s.table, s.note caller (some text), s.answers⟩ caller none = s.missed := by
      funext c
      by_cases hc : c = caller
      · simp [note, hc, hfree]
      · simp [note, hc]
    have hnoted : s.note caller (some text) caller = some text := if_pos rfl
    simp [run?, take?, hfree, hn, hnotes, hnoted]

/-! ## §4. After every run. -/

/-- Names and texts determine each other, in the table and in what callers were told. -/
structure Bijective (s : Shared) : Prop where
  /-- The map and the list are inverse. -/
  inverse : ∀ text n, s.table.map.lookup text = some n ↔ s.table.texts[n.index]? = some text
  /-- The first name is that of the empty text. -/
  empty : s.table.lookup? .empty = some ""
  /-- A name that was told has its text. -/
  kept : ∀ text n, .named text n ∈ s.answers → s.table.lookup? n = some text
  /-- Two texts were told the same name if and only if they are the same text. -/
  injective : ∀ text n text' n', .named text n ∈ s.answers →
    .named text' n' ∈ s.answers → (n = n' ↔ text = text')
  /-- Just the texts that were named have a name: the one they were told. -/
  named : ∀ text n, s.table.get? text = some n ↔ Named s.answers text n
  /-- There are as many names as there are texts that were named, with the empty text. -/
  size : s.table.size = namedCount s.answers
  /-- Every answer was right when it was given. -/
  answers : AllRight s.answers
  /-- Whatever turns follow, no name loses its text and no answer is forgotten. -/
  lasting : ∀ turns s', s.run? turns = some s' →
    s.table.Extends s'.table ∧ s.answers <:+ s'.answers
  /-- A caller that is told an error has changed nothing, in neither of its turns. -/
  unchanged : ∀ turn s', s.take? turn = some s' →
    (∃ caller text, turn = .seek caller text)
      ∨ (∃ text e, s'.answers = .refused text e :: s.answers) → s'.table = s.table
  /-- No caller is ever stuck. -/
  free : ∀ caller, (s.missed caller = none → ∀ text, ∃ s', s.take? (.seek caller text) = some s')
    ∧ (∀ text, s.missed caller = some text → ∃ s', s.take? (.insert caller) = some s'
      ∧ ∃ result, s'.answers = .ofResult text result :: s.answers)
  /-- A caller that is not interrupted gets what naming a text at once gives. -/
  alone : ∀ caller text, s.missed caller = none → ∃ turns,
    turns <+: [.seek caller text, .insert caller]
      ∧ s.run? turns = some ⟨(s.table.tryIntern text).2, s.missed,
          .ofResult text (s.table.tryIntern text).1 :: s.answers⟩

/-- **Names stay a bijection in every order of turns.** -/
theorem bijective_run? (hrun : new.run? turns = some s) : s.Bijective := by
  have hf := faithful_new.run hrun
  have hkept (text : String) (n : Name) (htold : .named text n ∈ s.answers) :
      s.table.lookup? n = some text := (hf.texts text n).mpr (.inr htold)
  refine ⟨fun text n => hf.valid.get?_eq_some_iff, hf.valid.empty, hkept, ?_, hf.names, hf.size_eq,
    hf.right, fun turns s' => extends_run, ?_, s.exists_take, s.run?_seek_insert⟩
  · intro text n text' n' htold htold'
    have htells : s.table.Tells (.named text' n') := (hf.names text' n').mpr (.inr htold')
    exact hf.right_of_tells htells text n (.inr htold)
  · rintro turn s' htake (⟨caller, text, rfl⟩ | ⟨text, e, htold⟩)
    · simp only [take?] at htake
      split at htake <;> cases htake <;> rfl
    · exact table_eq_of_refused htake htold

/-- Two callers look the same text up in vain, and are told the same name. -/
theorem bijective_run?_race :
    ∃ s, new.run? [.seek 0 "x", .seek 1 "x", .insert 1, .seek 1 "y", .insert 0, .insert 1, .count 0]
        = some s
      ∧ s.answers = [.counted 3, .named "y" ⟨2⟩, .named "x" ⟨1⟩, .named "x" ⟨1⟩]
      ∧ s.Bijective := by
  have htold : (new.run?
      [.seek 0 "x", .seek 1 "x", .insert 1, .seek 1 "y", .insert 0, .insert 1, .count 0]).map
        (·.answers)
      = some [.counted 3, .named "y" ⟨2⟩, .named "x" ⟨1⟩, .named "x" ⟨1⟩] := by
    decide +kernel
  obtain ⟨s, hrun, hanswers⟩ := Option.map_eq_some_iff.mp htold
  exact ⟨s, hrun, hanswers, bijective_run? hrun⟩

end Shared

end Prototalk.InternTable
