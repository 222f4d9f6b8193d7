/-
  Prototalk.Proofs.Message.WellFormed
  ────────────────────────────────
  **CHAINS THAT HAVE A SOURCE TEXT.**

  A chain is well-formed if it says something, no separator stands at the
  start of a statement, only identifiers have arguments, numbers are plain,
  every name is one that the lexer can read, and all this holds of the
  arguments too.

  A larger table of names keeps chains well-formed (`Message.WellFormed.mono`).
  What is true of every message whose arguments it is true of is true of all
  messages (`Message.induction`); each proof over the tree of messages goes
  through it.
-/
import Mathlib.Data.List.Chain
import Prototalk.Message.Printer
import Prototalk.Proofs.Name.Interner
import Prototalk.Proofs.Number.Binary64
import Prototalk.Proofs.Token.Lexing

namespace Prototalk

/-! ## §1. Names that can be read. -/

/-- The text of a name that can be written: the empty text, or a single identifier token. -/
def IsNameText (s : String) : Prop :=
  s = "" ∨ ∃ t, tokenize s = [t] ∧ t.kind = .identifier ∧ t.value = s

theorem isNameText_of_isName {s : String} (h : Lexer.IsName s.toList) : IsNameText s := by
  have hlexes : Lexer.Lexes s.toList [(.identifier, s.toList)] := by
    simpa using Lexer.Lexes.name h Lexer.bounded_nil Lexer.lexes_nil
  obtain ⟨t, ht, hkey⟩ := List.map_eq_singleton_iff.mp (Lexer.tokens_of_lexes hlexes)
  obtain ⟨hkind, hvalue⟩ := Prod.mk.inj hkey
  exact .inr ⟨t, ht, hkind, String.toList_inj.mp hvalue⟩

theorem IsNameText.isName {s : String} (h : IsNameText s) (hs : s ≠ "") :
    Lexer.IsName s.toList := by
  obtain rfl | ⟨t, ht, hkind, hvalue⟩ := h
  · exact absurd rfl hs
  · have hmem : t ∈ (Source.ofString s).tokens := by
      show t ∈ tokenize s
      rw [ht]
      exact List.mem_singleton_self t
    -- the single token of the text is an identifier, and identifiers are names
    have hshaped := Lexer.shaped_of_mem_tokens hmem
    unfold Lexer.Shaped Token.key at hshaped
    rwa [hkind, hvalue] at hshaped

theorem isNameText_empty : IsNameText "" := .inl rfl

theorem isNameText_squareBrackets : IsNameText squareBrackets :=
  isNameText_of_isName (.word (by decide) (List.all_eq_true.mp (by decide)))

theorem isNameText_curlyBrackets : IsNameText curlyBrackets :=
  isNameText_of_isName (.word (by decide) (List.all_eq_true.mp (by decide)))

/-! ## §2. Well-formed messages and chains. -/

/-- No separator stands where a statement starts. -/
structure Chain.Tidy (c : Chain) : Prop where
  head : ∀ m ∈ c.head?, m.isSeparator = false
  adjacent : c.IsChain fun a b => ¬(a.isSeparator = true ∧ b.isSeparator = true)

mutual

/-- A message that can be written, its arguments included. -/
inductive Message.WellFormed (names : Interner) : Message → Prop where
  | ident {name : Name} {text : String} {args : List (List Message)} {span : Span}
      (hname : names.lookup? name = some text) (htext : IsNameText text)
      (hargs : ∀ a ∈ args, Chain.WellFormed names a) :
      Message.WellFormed names ⟨.ident name, args, span⟩
  | number {x : Binary64} {span : Span} (hx : x.Plain) :
      Message.WellFormed names ⟨.number x, [], span⟩
  | text {s : String} {span : Span} : Message.WellFormed names ⟨.text s, [], span⟩
  | separator {mark : Separator} {span : Span} :
      Message.WellFormed names ⟨.separator mark, [], span⟩

/-- A chain that can be written. -/
inductive Chain.WellFormed (names : Interner) : List Message → Prop where
  | mk {c : List Message} (hne : c ≠ []) (htidy : Chain.Tidy c)
      (hall : ∀ m ∈ c, Message.WellFormed names m) : Chain.WellFormed names c

end

section

variable {names names' : Interner} {c : Chain} {m : Message}

theorem Chain.WellFormed.ne_nil (h : Chain.WellFormed names c) : c ≠ [] := by
  cases h with
  | mk hne _ _ => exact hne

theorem Chain.WellFormed.tidy (h : Chain.WellFormed names c) : Chain.Tidy c := by
  cases h with
  | mk _ htidy _ => exact htidy

theorem Chain.WellFormed.all (h : Chain.WellFormed names c) :
    ∀ m ∈ c, m.WellFormed names := by
  cases h with
  | mk _ _ hall => exact hall

/-! ## §3. Induction over the tree of messages. -/

/-- A property of messages that passes from the arguments to the message holds of all messages. -/
theorem Message.induction {P : Message → Prop}
    (step : ∀ symbol args span, (∀ a ∈ args, ∀ m ∈ a, P m) → P ⟨symbol, args, span⟩)
    (m : Message) : P m :=
  @Message.rec P (fun args => ∀ a ∈ args, ∀ m ∈ a, P m) (fun c => ∀ m ∈ c, P m) step
    (by simp) (by simp +contextual) (by simp) (by simp +contextual) m

theorem Message.WellFormed.mono (hext : names.Extends names') (h : m.WellFormed names) :
    m.WellFormed names' := by
  induction m using Message.induction with
  | step symbol args span ih =>
    cases h with
    | ident hname htext hargs =>
      refine .ident (hext _ _ hname) htext fun a ha => ?_
      have hwf := hargs a ha
      exact ⟨hwf.ne_nil, hwf.tidy, fun m hm => ih a ha m hm (hwf.all m hm)⟩
    | number hx => exact .number hx
    | text => exact .text
    | separator => exact .separator

theorem Chain.WellFormed.mono (hext : names.Extends names') (h : Chain.WellFormed names c) :
    Chain.WellFormed names' c :=
  ⟨h.ne_nil, h.tidy, fun m hm => (h.all m hm).mono hext⟩

end

end Prototalk
