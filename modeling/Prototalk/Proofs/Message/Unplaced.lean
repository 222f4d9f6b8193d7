/-
  Prototalk.Proofs.Message.Unplaced
  ────────────────────────────────
  **MESSAGES UP TO WHERE THEY STAND.**

  `unplaced` moves every message of a chain to nowhere and leaves all else as
  it is.  Two chains with the same result say the same, number by number and
  bit by bit:

    • `Chain.unplaced_eq_of_same` — chains that are the same, as far as
      values are compared, and whose numbers have the same bits, are equal up
      to spans,
    • `Chain.unplaced_eq_of_wellFormed` — for chains that have a source text,
      the values of the numbers are enough,
    • `Chain.toSource_unplaced` — the source text does not show spans.
-/
import Prototalk.Message.Site
import Prototalk.Proofs.Message.WellFormed

namespace Prototalk

/-! ## §1. Moving messages to nowhere. -/

mutual

/-- The message, its arguments included, without the places in the source. -/
def Message.unplaced : Message → Message
  | ⟨symbol, args, _⟩ => ⟨symbol, Message.unplacedArgs args, .nowhere⟩

/-- The chain without the places in the source. -/
def Chain.unplaced : List Message → List Message
  | [] => []
  | m :: rest => m.unplaced :: Chain.unplaced rest

/-- Argument chains without the places in the source. -/
def Message.unplacedArgs : List (List Message) → List (List Message)
  | [] => []
  | a :: rest => Chain.unplaced a :: Message.unplacedArgs rest

end

theorem Message.unplacedArgs_eq_map (args : List Chain) :
    Message.unplacedArgs args = args.map Chain.unplaced := by
  induction args with
  | nil => rfl
  | cons a args ih => rw [Message.unplacedArgs, ih, List.map_cons]

namespace Message

variable (m : Message)

@[simp] theorem symbol_unplaced : m.unplaced.symbol = m.symbol := by
  cases m
  rw [unplaced]

@[simp] theorem args_unplaced : m.unplaced.args = m.args.map Chain.unplaced := by
  cases m
  rw [unplaced, unplacedArgs_eq_map]

@[simp] theorem span_unplaced : m.unplaced.span = .nowhere := by
  cases m
  rw [unplaced]

@[simp] theorem name?_unplaced : m.unplaced.name? = m.name? := by
  simp [name?]

end Message

@[simp] theorem Chain.firstName?_unplaced (c : Chain) :
    Chain.firstName? (Chain.unplaced c) = Chain.firstName? c := by
  cases c with
  | nil => rfl
  | cons m c => simp [Chain.firstName?, Chain.unplaced]

/-- A parameter of a block is one wherever it stands. -/
@[simp] theorem Chain.bareName?_unplaced (c : Chain) :
    Chain.bareName? (Chain.unplaced c) = Chain.bareName? c := by
  rcases c with _ | ⟨⟨symbol, args, span⟩, _ | ⟨n, c⟩⟩
  · rfl
  · cases symbol <;> cases args <;> rfl
  · cases symbol <;> cases args <;> rfl

/-! ## §2. Source text. -/

section

variable (names : Interner)

theorem Chain.charsFrom_unplaced_of {c : Chain}
    (hc : ∀ m ∈ c, m.unplaced.chars names = m.chars names) (fresh : Bool) :
    Chain.charsFrom names fresh (Chain.unplaced c) = Chain.charsFrom names fresh c := by
  induction c generalizing fresh with
  | nil => rfl
  | cons m c ih =>
    obtain ⟨hm, hc⟩ := List.forall_mem_cons.mp hc
    have hbare : Symbol.isBare names m.symbol (m.args.map Chain.unplaced)
        = Symbol.isBare names m.symbol m.args := by
      cases hsymbol : m.symbol <;> simp [Symbol.isBare]
    rw [Chain.unplaced, Chain.charsFrom, Chain.charsFrom, hm, ih hc]
    simp only [Message.symbol_unplaced, Message.args_unplaced, Chain.firstName?_unplaced, hbare]

theorem Message.argChars_unplaced_of {args : List Chain}
    (hargs : ∀ a ∈ args, ∀ m ∈ a, m.unplaced.chars names = m.chars names) :
    Message.argChars names (args.map Chain.unplaced) = Message.argChars names args := by
  induction args with
  | nil => rfl
  | cons a args ih =>
    obtain ⟨ha, hrest⟩ := List.forall_mem_cons.mp hargs
    have hchain := Chain.charsFrom_unplaced_of names ha true
    cases args with
    | nil => exact hchain
    | cons b rest =>
      rw [List.map_cons, List.map_cons, Message.argChars, Message.argChars, hchain]
      rw [List.map_cons] at ih
      rw [ih hrest]

theorem Message.chars_unplaced (m : Message) : m.unplaced.chars names = m.chars names := by
  induction m using Message.induction with
  | step symbol args span ih =>
    have hargs := Message.argChars_unplaced_of names ih
    rw [Message.unplaced, Message.unplacedArgs_eq_map]
    cases symbol with
    | ident name =>
      rw [Message.chars, Message.chars, hargs]
      simp
    | _ => rfl

@[simp] theorem Message.toSource_unplaced (m : Message) :
    m.unplaced.toSource names = m.toSource names := by
  rw [Message.toSource, Message.chars_unplaced, Message.toSource]

/-- **The source text of a chain does not show where it stood.** -/
@[simp] theorem Chain.toSource_unplaced (c : Chain) :
    Chain.toSource names (Chain.unplaced c) = Chain.toSource names c := by
  rw [Chain.toSource, Chain.chars,
    Chain.charsFrom_unplaced_of names (fun m _ => m.chars_unplaced names) true]
  rfl

end

/-! ## §3. Sites. -/

namespace Site

/-- The site without the places in the source. -/
def unplaced (s : Site) : Site :=
  ⟨Chain.unplaced s.before, s.message.unplaced, Chain.unplaced s.after⟩

theorem next?_unplaced (s : Site) : s.unplaced.next? = s.next?.map unplaced := by
  obtain ⟨before, message, after⟩ := s
  cases after <;> rfl

theorem previous?_unplaced (s : Site) : s.unplaced.previous? = s.previous?.map unplaced := by
  obtain ⟨before, message, after⟩ := s
  cases before <;> rfl

end Site

/-! ## §4. Sameness. -/

/-- The number that a symbol is. -/
def Symbol.number? : Symbol → Option Binary64
  | .number x => some x
  | _ => none

mutual

/-- The numbers in a message and its arguments, in the order of the source. -/
def Message.numbers : Message → List Binary64
  | ⟨symbol, args, _⟩ => symbol.number?.toList ++ Message.argNumbers args

/-- The numbers in a chain. -/
def Chain.numbers : List Message → List Binary64
  | [] => []
  | m :: rest => m.numbers ++ Chain.numbers rest

/-- The numbers in several chains. -/
def Message.argNumbers : List (List Message) → List Binary64
  | [] => []
  | a :: rest => Chain.numbers a ++ Message.argNumbers rest

end

/-- Lists of numbers with the same values; if their bits are the same too, `equal` holds. -/
structure Matches (xs ys : List Binary64) (equal : Prop) : Prop where
  values : List.Forall₂ (fun x y => x.sameValue y = true) xs ys
  bits : xs = ys → equal

namespace Matches

variable {xs ys xs' ys' : List Binary64} {equal equal' : Prop}

theorem append (h : Matches xs ys equal) (h' : Matches xs' ys' equal') :
    Matches (xs ++ xs') (ys ++ ys') (equal ∧ equal') where
  values := List.rel_append h.values h'.values
  bits := by
    intro heq
    obtain ⟨hfirst, hrest⟩ := List.append_inj heq h.values.length_eq
    exact ⟨h.bits hfirst, h'.bits hrest⟩

theorem imp (h : Matches xs ys equal) (himp : equal → equal') : Matches xs ys equal' :=
  ⟨h.values, fun heq => himp (h.bits heq)⟩

theorem nil (h : equal) : Matches [] [] equal := ⟨.nil, fun _ => h⟩

end Matches

theorem Symbol.matches_of_same {s t : Symbol} (h : s.same t = true) :
    Matches s.number?.toList t.number?.toList (s = t) := by
  cases s with
  | ident n =>
    cases t with
    | ident n' => exact .nil (congrArg Symbol.ident (eq_of_beq h))
    | _ => cases h
  | number x =>
    cases t with
    | number y =>
      exact ⟨.cons h .nil, fun heq => congrArg Symbol.number (List.head_eq_of_cons_eq heq)⟩
    | _ => cases h
  | text s =>
    cases t with
    | text s' => exact .nil (congrArg Symbol.text (eq_of_beq h))
    | _ => cases h
  | separator mark =>
    cases t with
    | separator mark' => exact .nil (congrArg Symbol.separator (eq_of_beq h))
    | _ => cases h

/-- A message that is the same as another one has numbers of the same values, and is equal to it up
to spans if their bits are the same. -/
def Message.Matching (m : Message) : Prop :=
  ∀ n : Message, m.same n = true → Matches m.numbers n.numbers (m.unplaced = n.unplaced)

namespace Chain

theorem matches_of {c : Chain} (hc : ∀ m ∈ c, m.Matching) {d : Chain}
    (h : Chain.same c d = true) :
    Matches (numbers c) (numbers d) (Chain.unplaced c = Chain.unplaced d) := by
  induction c generalizing d with
  | nil =>
    cases d with
    | nil => exact .nil rfl
    | cons n d => cases h
  | cons m c ih =>
    cases d with
    | nil => cases h
    | cons n d =>
      obtain ⟨hm, hc⟩ := List.forall_mem_cons.mp hc
      rw [Chain.same, Bool.and_eq_true] at h
      refine ((hm n h.1).append (ih hc h.2)).imp fun ⟨hfirst, hrest⟩ => ?_
      rw [Chain.unplaced, Chain.unplaced, hfirst, hrest]

end Chain

namespace Message

theorem argMatches_of {args : List Chain} (hargs : ∀ a ∈ args, ∀ m ∈ a, m.Matching)
    {others : List Chain} (h : sameArgs args others = true) :
    Matches (argNumbers args) (argNumbers others) (unplacedArgs args = unplacedArgs others) := by
  induction args generalizing others with
  | nil =>
    cases others with
    | nil => exact .nil rfl
    | cons b others => cases h
  | cons a args ih =>
    cases others with
    | nil => cases h
    | cons b others =>
      obtain ⟨ha, hargs⟩ := List.forall_mem_cons.mp hargs
      rw [sameArgs, Bool.and_eq_true] at h
      refine ((Chain.matches_of ha h.1).append (ih hargs h.2)).imp fun ⟨hfirst, hrest⟩ => ?_
      rw [unplacedArgs, unplacedArgs, hfirst, hrest]

theorem matching (m : Message) : m.Matching := by
  induction m using Message.induction with
  | step symbol args span ih =>
    intro n h
    obtain ⟨symbol', args', span'⟩ := n
    rw [Message.same, Bool.and_eq_true] at h
    refine ((Symbol.matches_of_same h.1).append (argMatches_of ih h.2)).imp
      fun ⟨hsymbol, hargs⟩ => ?_
    rw [unplaced, unplaced, hsymbol, hargs]

end Message

/-! ### Chains with the same numbers -/

/-- **Chains that are the same, bit by bit, are equal up to spans.** -/
theorem Chain.unplaced_eq_of_same {c d : Chain} (h : Chain.same c d = true)
    (hnumbers : Chain.numbers c = Chain.numbers d) : Chain.unplaced c = Chain.unplaced d :=
  (Chain.matches_of (fun m _ => m.matching) h).bits hnumbers

/-- Numbers without a sign are equal if their values are. -/
theorem Binary64.Plain.eq_of_sameValue {x y : Binary64} (hx : x.Plain) (hy : y.Plain)
    (h : x.sameValue y = true) : x = y := by
  simp only [sameValue, isZero, Bool.and_eq_true, Bool.or_eq_true, beq_iff_eq, decide_eq_true_eq,
    hx.magnitude_eq, hy.magnitude_eq] at h
  have hword : x.word = y.word := by omega
  rw [← ofWord_word x, ← ofWord_word y, hword]

theorem eq_of_forall₂_sameValue {xs ys : List Binary64} (hxs : ∀ x ∈ xs, x.Plain)
    (hys : ∀ y ∈ ys, y.Plain) (h : List.Forall₂ (fun x y => x.sameValue y = true) xs ys) :
    xs = ys := by
  induction h with
  | nil => rfl
  | cons hxy _ ih =>
    rw [List.forall_mem_cons] at hxs hys
    rw [hxs.1.eq_of_sameValue hys.1 hxy, ih hxs.2 hys.2]

section

variable {names names' : Interner}

theorem Chain.plain_of_mem_numbers_of {c : Chain}
    (hc : ∀ m ∈ c, ∀ x ∈ m.numbers, x.Plain) : ∀ x ∈ Chain.numbers c, x.Plain := by
  induction c with
  | nil => simp [Chain.numbers]
  | cons m c ih =>
    obtain ⟨hm, hc⟩ := List.forall_mem_cons.mp hc
    intro x hx
    rcases List.mem_append.mp hx with hx | hx
    · exact hm x hx
    · exact ih hc x hx

theorem Message.plain_of_mem_argNumbers_of {args : List Chain}
    (hargs : ∀ a ∈ args, ∀ m ∈ a, ∀ x ∈ m.numbers, x.Plain) :
    ∀ x ∈ Message.argNumbers args, x.Plain := by
  induction args with
  | nil => simp [Message.argNumbers]
  | cons a args ih =>
    obtain ⟨ha, hargs⟩ := List.forall_mem_cons.mp hargs
    intro x hx
    rcases List.mem_append.mp hx with hx | hx
    · exact Chain.plain_of_mem_numbers_of ha x hx
    · exact ih hargs x hx

theorem Message.WellFormed.plain_of_mem_numbers {m : Message} (hm : m.WellFormed names) :
    ∀ x ∈ m.numbers, x.Plain := by
  induction m using Message.induction with
  | step symbol args span ih =>
    cases hm with
    | ident hname htext hargs =>
      refine Message.plain_of_mem_argNumbers_of fun a ha m hm => ih a ha m hm ?_
      exact (hargs a ha).all m hm
    | number hx => simpa [Message.numbers, Message.argNumbers, Symbol.number?] using hx
    | text => simp [Message.numbers, Message.argNumbers, Symbol.number?]
    | separator => simp [Message.numbers, Message.argNumbers, Symbol.number?]

/-- **Chains that have a source text and are the same are equal up to spans.** -/
theorem Chain.unplaced_eq_of_wellFormed {c d : Chain} (hc : Chain.WellFormed names c)
    (hd : Chain.WellFormed names' d) (h : Chain.same c d = true) :
    Chain.unplaced c = Chain.unplaced d := by
  have hplain : ∀ {names : Interner} {c : Chain}, Chain.WellFormed names c →
      ∀ x ∈ Chain.numbers c, x.Plain := fun hc =>
    Chain.plain_of_mem_numbers_of fun m hm => (hc.all m hm).plain_of_mem_numbers
  have hvalues := (Chain.matches_of (fun m _ => m.matching) h).values
  exact Chain.unplaced_eq_of_same h (eq_of_forall₂_sameValue (hplain hc) (hplain hd) hvalues)

end

end Prototalk
