/-
  Prototalk.Proofs.Message.Translation
  ────────────────────────────────
  **THE SAME MESSAGES IN OTHER NAMES.**

  A message is translated by a dictionary if each of its names is replaced
  by the other one of its pair; places and literals stay.  A translation
  is written with the same text (`Message.Translates.toSource_eq`), and what
  chains are asked for is translated too.
-/
import Mathlib.Data.List.Forall2
import Prototalk.Message.Site
import Prototalk.Proofs.Message.WellFormed
import Prototalk.Proofs.Name.Dictionary

namespace Prototalk

/-! ## §1. Translations. -/

/-- The symbols say the same. -/
inductive Symbol.Translates (d : Dictionary) : Symbol → Symbol → Prop where
  | ident {n k : Name} (h : d.Pairs n k) : Symbol.Translates d (.ident n) (.ident k)
  | number (x : Binary64) : Symbol.Translates d (.number x) (.number x)
  | text (s : String) : Symbol.Translates d (.text s) (.text s)
  | separator (mark : Separator) : Symbol.Translates d (.separator mark) (.separator mark)

/-- The messages say the same, and so do their arguments. -/
inductive Message.Translates (d : Dictionary) : Message → Message → Prop where
  | mk {s t : Symbol} {as bs : List (List Message)} {span : Span} (hsymbol : s.Translates d t)
      (hargs : List.Forall₂ (List.Forall₂ (Message.Translates d)) as bs) :
      Message.Translates d ⟨s, as, span⟩ ⟨t, bs, span⟩

/-- The chains say the same, message by message. -/
abbrev Chain.Translates (d : Dictionary) : Chain → Chain → Prop :=
  List.Forall₂ (Message.Translates d)

/-- The messages say the same, and so do the chains around them. -/
structure Site.Translates (d : Dictionary) (s t : Site) : Prop where
  before : Chain.Translates d s.before t.before
  message : s.message.Translates d t.message
  after : Chain.Translates d s.after t.after

section

variable {d d' : Dictionary} {m m' : Message} {c c' : Chain} {s t : Symbol}

theorem Symbol.Translates.mono (hext : d.Extends d') (h : s.Translates d t) :
    s.Translates d' t := by
  cases h with
  | ident h => exact .ident (h.mono hext)
  | number x => exact .number x
  | text s => exact .text s
  | separator mark => exact .separator mark

theorem Message.Translates.mono (hext : d.Extends d') (h : m.Translates d m') :
    m.Translates d' m' := by
  induction m using Message.induction generalizing m' with
  | step symbol args span ih =>
    obtain ⟨hsymbol, hargs⟩ := h
    refine ⟨hsymbol.mono hext, ?_⟩
    -- what the induction gives for the left arguments is joined to the relation on both
    refine ((List.forall₂_and_left _ _).mpr ⟨ih, hargs⟩).imp fun a b hab => ?_
    exact ((List.forall₂_and_left _ _).mpr hab).imp fun m m' hm => hm.1 hm.2

theorem Chain.Translates.mono (hext : d.Extends d') (h : Chain.Translates d c c') :
    Chain.Translates d' c c' :=
  h.imp fun _ _ hm => hm.mono hext

theorem Site.Translates.mono {s t : Site} (hext : d.Extends d') (h : s.Translates d t) :
    s.Translates d' t :=
  ⟨Chain.Translates.mono hext h.before, h.message.mono hext, Chain.Translates.mono hext h.after⟩

/-! ## §2. What messages are asked for. -/

theorem Message.Translates.symbol (h : m.Translates d m') : m.symbol.Translates d m'.symbol := by
  cases h with
  | mk hsymbol _ => exact hsymbol

theorem Message.Translates.args (h : m.Translates d m') :
    List.Forall₂ (Chain.Translates d) m.args m'.args := by
  cases h with
  | mk _ hargs => exact hargs

theorem Message.Translates.span_eq (h : m.Translates d m') : m'.span = m.span := by
  cases h
  rfl

theorem Message.Translates.name? (h : m.Translates d m') : Option.Rel d.Pairs m.name? m'.name? := by
  obtain ⟨hsymbol, -⟩ := h
  cases hsymbol with
  | ident h => exact .some h
  | _ => exact .none

theorem Message.Translates.isSeparator_eq (h : m.Translates d m') :
    m'.isSeparator = m.isSeparator := by
  obtain ⟨hsymbol, -⟩ := h
  cases hsymbol <;> rfl

theorem Chain.Translates.firstName? (h : Chain.Translates d c c') :
    Option.Rel d.Pairs c.firstName? c'.firstName? := by
  cases h with
  | nil => exact .none
  | cons hm _ => exact hm.name?

theorem Chain.Translates.bareName? (h : Chain.Translates d c c') :
    Option.Rel d.Pairs c.bareName? c'.bareName? := by
  cases h with
  | nil => exact .none
  | cons hm hrest =>
    obtain ⟨hsymbol, hargs⟩ := hm
    cases hrest with
    | cons _ _ => cases hsymbol <;> cases hargs <;> exact .none
    | nil =>
      cases hargs with
      | cons _ _ => cases hsymbol <;> exact .none
      | nil =>
        cases hsymbol with
        | ident h => exact .some h
        | _ => exact .none

/-! ### Positions -/

theorem isEmpty_eq {α β : Type} {R : α → β → Prop} {xs : List α} {ys : List β}
    (h : List.Forall₂ R xs ys) : ys.isEmpty = xs.isEmpty := by
  cases h <;> rfl

/-- Elements at the same position of related lists. -/
theorem rel_getElem? {α β : Type} {R : α → β → Prop} {xs : List α} {ys : List β}
    (h : List.Forall₂ R xs ys) (i : Nat) : Option.Rel R xs[i]? ys[i]? := by
  induction h generalizing i with
  | nil => exact .none
  | cons hx _ ih =>
    cases i with
    | zero => exact .some hx
    | succ i => exact ih i

theorem rel_getLast? {α β : Type} {R : α → β → Prop} {xs : List α} {ys : List β}
    (h : List.Forall₂ R xs ys) : Option.Rel R xs.getLast? ys.getLast? := by
  rw [List.getLast?_eq_getElem?, List.getLast?_eq_getElem?, h.length_eq]
  exact rel_getElem? h _

theorem forall₂_dropLast {α β : Type} {R : α → β → Prop} {xs : List α} {ys : List β}
    (h : List.Forall₂ R xs ys) : List.Forall₂ R xs.dropLast ys.dropLast := by
  rw [List.dropLast_eq_take, List.dropLast_eq_take, h.length_eq]
  exact List.forall₂_take _ h

namespace Site.Translates

variable {s t : Site}

theorem next? (h : s.Translates d t) : Option.Rel (Site.Translates d) s.next? t.next? := by
  obtain ⟨before, message, after⟩ := s
  obtain ⟨before', message', after'⟩ := t
  obtain ⟨hbefore, hmessage, hafter⟩ := h
  dsimp only at hbefore hmessage hafter
  cases hafter with
  | nil => exact .none
  | cons hm hrest => exact .some ⟨.cons hmessage hbefore, hm, hrest⟩

theorem previous? (h : s.Translates d t) :
    Option.Rel (Site.Translates d) s.previous? t.previous? := by
  obtain ⟨before, message, after⟩ := s
  obtain ⟨before', message', after'⟩ := t
  obtain ⟨hbefore, hmessage, hafter⟩ := h
  dsimp only at hbefore hmessage hafter
  cases hbefore with
  | nil => exact .none
  | cons hm hrest => exact .some ⟨hrest, hm, .cons hmessage hafter⟩

theorem index_eq (h : s.Translates d t) : t.index = s.index := h.before.length_eq.symm

theorem siblings_eq (h : s.Translates d t) : t.siblings = s.siblings := by
  unfold siblings
  rw [h.before.length_eq, h.after.length_eq]

end Site.Translates

/-! ## §3. Texts. -/

/-- Paired names are the empty name together. -/
theorem beq_empty_eq {x y : Option Name} (h : Option.Rel d.Pairs x y) :
    (y == some .empty) = (x == some .empty) := by
  cases h with
  | none => rfl
  | some h =>
    have hempty := h.eq_iff d.pairs_empty
    rw [Bool.eq_iff_iff]
    simpa using hempty.symm

theorem Message.Translates.isBare_eq (h : m.Translates d m') :
    Symbol.isBare d.right m'.symbol m'.args = Symbol.isBare d.left m.symbol m.args := by
  obtain ⟨hsymbol, hargs⟩ := h
  cases hsymbol with
  | ident h =>
    unfold Symbol.isBare
    dsimp only
    rw [h.text_eq]
    cases hargs <;> rfl
  | _ => rfl

theorem Message.Translates.isNewline_eq (h : m.Translates d m') :
    (m'.symbol == .separator .newline) = (m.symbol == .separator .newline) := by
  obtain ⟨hsymbol, -⟩ := h
  cases hsymbol <;> rfl

/-- The messages say the same and are written the same. -/
def Message.WrittenAlike (d : Dictionary) (m m' : Message) : Prop :=
  m.Translates d m' ∧ m'.chars d.right = m.chars d.left

theorem charsFrom_eq (h : List.Forall₂ (Message.WrittenAlike d) c c') (fresh : Bool) :
    Chain.charsFrom d.right fresh c' = Chain.charsFrom d.left fresh c := by
  induction h generalizing fresh with
  | nil => rfl
  | cons hm hrest ih =>
    have hfirst := Chain.Translates.firstName? (hrest.imp fun _ _ h => h.1)
    rw [Chain.charsFrom, Chain.charsFrom, hm.2, hm.1.isBare_eq, hm.1.isNewline_eq, ih,
      beq_empty_eq hfirst]

theorem argChars_eq {as bs : List Chain}
    (h : List.Forall₂ (List.Forall₂ (Message.WrittenAlike d)) as bs) :
    Message.argChars d.right bs = Message.argChars d.left as := by
  induction h with
  | nil => rfl
  | cons ha hrest ih =>
    cases hrest with
    | nil => exact charsFrom_eq ha true
    | cons _ _ =>
      rw [Message.argChars, Message.argChars, charsFrom_eq ha true, ih]

/-- **A translation is written with the same text.** -/
theorem Message.Translates.chars_eq (h : m.Translates d m') :
    m'.chars d.right = m.chars d.left := by
  induction m using Message.induction generalizing m' with
  | step symbol args span ih =>
    obtain ⟨hsymbol, hargs⟩ := h
    have halike : List.Forall₂ (List.Forall₂ (Message.WrittenAlike d)) args _ :=
      ((List.forall₂_and_left _ _).mpr ⟨ih, hargs⟩).imp fun a b hab =>
        ((List.forall₂_and_left _ _).mpr hab).imp fun m m' hm => ⟨hm.2, hm.1 hm.2⟩
    -- brackets and names are told apart by their texts, which are the same
    cases hsymbol with
    | ident h =>
      rw [Message.chars, Message.chars, h.text_eq, argChars_eq halike]
      cases hargs <;> rfl
    | _ => rfl

theorem Message.Translates.toSource_eq (h : m.Translates d m') :
    m'.toSource d.right = m.toSource d.left := by
  rw [Message.toSource, Message.toSource, h.chars_eq]

theorem Chain.Translates.toSource_eq (h : Chain.Translates d c c') :
    Chain.toSource d.right c' = Chain.toSource d.left c := by
  unfold Chain.toSource Chain.chars
  rw [charsFrom_eq (h.imp fun _ _ hm => ⟨hm, hm.chars_eq⟩)]

end

end Prototalk
