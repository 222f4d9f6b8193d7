/-
  Prototalk.Proofs.Message.Printer
  ────────────────────────────────
  **THE TOKENS OF A WRITTEN CHAIN.**

  `Message.keys` lists the tokens that a message is written with, without the
  blanks between them.  The lexer cuts the text of a well-formed chain into
  exactly these tokens (`Chain.WellFormed.lexes`): whatever the printer puts
  behind a word or a number ends it, and behind a separator nothing has to.
-/
import Prototalk.Proofs.Message.WellFormed
import Prototalk.Proofs.Number.Decimal

namespace Prototalk

open Lexer

/-! ## §1. Tokens of messages. -/

mutual

/-- The tokens of a message and its arguments. -/
def Message.keys (names : Interner) : Message → List (TokenKind × List Char)
  | ⟨.ident name, args, _⟩ =>
      match Symbol.groupOf? (names.text name) with
      | some (opening, closing) =>
          (.opening, [opening]) :: (Message.argKeys names args ++ [(.closing, [closing])])
      | none =>
          (.identifier, (names.text name).toList) ::
            (if args.isEmpty then []
             else (.opening, ['(']) :: (Message.argKeys names args ++ [(.closing, [')'])]))
  | ⟨.number x, _, _⟩ => [(.number, Symbol.numberChars x)]
  | ⟨.text s, _, _⟩ => [(.string, Quoted.encode s.toList)]
  | ⟨.separator mark, _, _⟩ => [(.separator, [mark.char])]

/-- The tokens of a chain, with the pairs of parentheses that keep groups apart from names. -/
def Chain.keys (names : Interner) : List Message → List (TokenKind × List Char)
  | [] => []
  | m :: rest =>
      m.keys names
        ++ (if Symbol.isBare names m.symbol m.args && Chain.firstName? rest == some .empty
            then [(.opening, ['(']), (.closing, [')'])] else [])
        ++ Chain.keys names rest

/-- The tokens of argument chains between commas. -/
def Message.argKeys (names : Interner) : List (List Message) → List (TokenKind × List Char)
  | [] => []
  | [a] => Chain.keys names a
  | a :: b :: rest => Chain.keys names a ++ (.comma, [',']) :: Message.argKeys names (b :: rest)

end

/-- The brackets of groups. -/
def bracketPairs : List (Char × Char) := [('[', ']'), ('{', '}'), ('(', ')')]

theorem groupOf?_cases {text : String} {pair : Char × Char}
    (h : Symbol.groupOf? text = some pair) :
    text = squareBrackets ∧ pair = ('[', ']') ∨ text = curlyBrackets ∧ pair = ('{', '}')
      ∨ text = "" ∧ pair = ('(', ')') := by
  unfold Symbol.groupOf? at h
  split at h
  · rename_i htext
    cases h
    exact .inl ⟨by simpa using htext, rfl⟩
  split at h
  · rename_i htext
    cases h
    exact .inr (.inl ⟨by simpa using htext, rfl⟩)
  split at h
  · rename_i htext
    cases h
    exact .inr (.inr ⟨by simpa using htext, rfl⟩)
  · cases h

theorem mem_bracketPairs {text : String} {pair : Char × Char}
    (h : Symbol.groupOf? text = some pair) : pair ∈ bracketPairs := by
  rcases groupOf?_cases h with ⟨-, rfl⟩ | ⟨-, rfl⟩ | ⟨-, rfl⟩ <;> decide

/-! ## §2. The text of a message is cut into its tokens. -/

/-- The text of `m` is cut into the tokens of `m`, before any text that ends them. -/
def Message.Lexed (names : Interner) (m : Message) : Prop :=
  ∀ (rest : List Char) (keys : List (TokenKind × List Char)),
    m.isSeparator = true ∨ Bounded rest → Lexes rest keys →
      Lexes (m.chars names ++ rest) (m.keys names ++ keys)

section

variable {names : Interner} {c : Chain} {args : List Chain} {rest : List Char}
  {keys : List (TokenKind × List Char)}

theorem lexes_open {pair : Char × Char} (hpair : pair ∈ bracketPairs) (h : Lexes rest keys) :
    Lexes (pair.1 :: rest) ((.opening, [pair.1]) :: keys) := by
  have hclass : ∀ pair ∈ bracketPairs, isSpace pair.1 = false ∧ single? pair.1 = some .opening := by
    decide
  exact Lexes.single (hclass pair hpair).1 (hclass pair hpair).2 (by decide) h

theorem lexes_close {pair : Char × Char} (hpair : pair ∈ bracketPairs) (h : Lexes rest keys) :
    Lexes (pair.2 :: rest) ((.closing, [pair.2]) :: keys) := by
  have hclass : ∀ pair ∈ bracketPairs, isSpace pair.2 = false ∧ single? pair.2 = some .closing := by
    decide
  exact Lexes.single (hclass pair hpair).1 (hclass pair hpair).2 (by decide) h

/-- A message that is no line end is followed by a blank, or by what follows the chain. -/
theorem bounded_charsFrom (hrest : Bounded rest) (c : Chain) :
    Bounded (Chain.charsFrom names false c ++ rest) := by
  cases c with
  | nil => exact hrest
  | cons m c =>
    rw [Chain.charsFrom]
    exact bounded_cons (by decide) _

theorem lexes_chain (hall : ∀ m ∈ c, m.Lexed names) (fresh : Bool) (hrest : Bounded rest)
    (h : Lexes rest keys) :
    Lexes (Chain.charsFrom names fresh c ++ rest) (Chain.keys names c ++ keys) := by
  induction c generalizing fresh with
  | nil => exact h
  | cons m c ih =>
    have hc := ih (fun m' hm' => hall m' (List.mem_cons_of_mem _ hm'))
      (m.symbol == .separator .newline)
    -- what stands behind the message: the rest of the chain, perhaps behind `()`
    have hbehind : ∀ {behind : List Char} {behindKeys : List (TokenKind × List Char)},
        m.isSeparator = true ∨ Bounded behind → Lexes behind behindKeys →
        Lexes ((if fresh then [] else [' ']) ++ m.chars names ++ behind)
          (m.keys names ++ behindKeys) := by
      intro behind behindKeys hbounded hlexes
      have hm := hall m List.mem_cons_self behind behindKeys hbounded hlexes
      cases fresh with
      | true => simpa using hm
      | false => exact hm.space (by decide)
    rw [Chain.charsFrom, Chain.keys]
    by_cases hinsert :
        (Symbol.isBare names m.symbol m.args && Chain.firstName? c == some .empty) = true
    · have hpair : ('(', ')') ∈ bracketPairs := by decide
      have hm := hbehind (.inr (bounded_cons (by decide : '(' ∈ boundaryChars) _))
        (lexes_open hpair (lexes_close hpair hc))
      rw [if_pos hinsert, if_pos hinsert]
      simpa only [List.append_assoc, List.cons_append, List.nil_append] using hm
    · have hbounded : m.isSeparator = true
          ∨ Bounded (Chain.charsFrom names (m.symbol == .separator .newline) c ++ rest) := by
        -- only the end of a line has no blank behind it, and it needs none
        by_cases hline : m.symbol = .separator .newline
        · left
          unfold Message.isSeparator
          rw [hline]
        · right
          rw [beq_false_of_ne hline]
          exact bounded_charsFrom hrest c
      rw [if_neg hinsert, if_neg hinsert]
      simpa only [List.append_assoc, List.append_nil] using hbehind hbounded hc

theorem lexes_args (hall : ∀ a ∈ args, ∀ m ∈ a, m.Lexed names) (hrest : Bounded rest)
    (h : Lexes rest keys) :
    Lexes (Message.argChars names args ++ rest) (Message.argKeys names args ++ keys) := by
  induction args with
  | nil => exact h
  | cons a args ih =>
    have ha := hall a List.mem_cons_self
    cases args with
    | nil => exact lexes_chain ha true hrest h
    | cons b args =>
      have hargs := ih fun a' ha' => hall a' (List.mem_cons_of_mem _ ha')
      have hcomma : Lexes (',' :: ' ' :: (Message.argChars names (b :: args) ++ rest))
          ((.comma, [',']) :: (Message.argKeys names (b :: args) ++ keys)) :=
        Lexes.single (by decide) (by decide) (by decide) (hargs.space (by decide))
      rw [Message.argChars, Message.argKeys, List.append_assoc, List.append_assoc]
      exact lexes_chain ha true (bounded_cons (by decide) _) hcomma

theorem lexes_group {pair : Char × Char} (hpair : pair ∈ bracketPairs)
    (hall : ∀ a ∈ args, ∀ m ∈ a, m.Lexed names) (h : Lexes rest keys) :
    Lexes (pair.1 :: (Message.argChars names args ++ [pair.2]) ++ rest)
      ((.opening, [pair.1]) :: (Message.argKeys names args ++ [(.closing, [pair.2])]) ++ keys) := by
  have hclass : ∀ pair ∈ bracketPairs, pair.2 ∈ boundaryChars := by decide
  rw [List.cons_append, List.cons_append, List.append_assoc, List.append_assoc]
  exact lexes_open hpair
    (lexes_args hall (bounded_cons (hclass pair hpair) _) (lexes_close hpair h))

theorem Message.WellFormed.lexed {m : Message} (hm : m.WellFormed names) : m.Lexed names := by
  induction m using Message.induction with
  | step symbol args span ih =>
    intro rest keys hrest h
    cases hm with
    | @ident name text _ _ hname htext hargs =>
      have hall : ∀ a ∈ args, ∀ m ∈ a, m.Lexed names :=
        fun a ha m hm => ih a ha m hm ((hargs a ha).all m hm)
      have hbounded : Bounded rest := hrest.resolve_left (by simp [Message.isSeparator])
      rw [Message.chars, Message.keys, Interner.text_of_lookup? hname]
      cases hgroup : Symbol.groupOf? text with
      | some pair => exact lexes_group (mem_bracketPairs hgroup) hall h
      | none =>
        -- the empty text would be written with parentheses
        have hne : text ≠ "" := by
          rintro rfl
          cases hgroup
        have hword := htext.isName hne
        cases args with
        | nil => exact Lexes.name hword hbounded h
        | cons a args =>
          have hgroup := lexes_group (by decide : ('(', ')') ∈ bracketPairs) hall h
          have hlexes := Lexes.name hword (bounded_cons (by decide) _) hgroup
          simpa using hlexes
    | number hx =>
      have hbounded : Bounded rest := hrest.resolve_left (by simp [Message.isSeparator])
      exact Lexes.number (Symbol.read?_numberChars hx).1 hbounded h
    | text =>
      have hbounded : Bounded rest := hrest.resolve_left (by simp [Message.isSeparator])
      exact Lexes.string _ hbounded h
    | @separator mark _ => cases mark <;> exact Lexes.single (by decide) (by decide) (by decide) h

/-- **The text of a well-formed chain has the tokens of the chain.** -/
theorem Chain.WellFormed.lexes (hc : Chain.WellFormed names c) :
    Lexes (Chain.chars names c) (Chain.keys names c) := by
  have hall : ∀ m ∈ c, m.Lexed names := fun m hm => (hc.all m hm).lexed
  simpa [Chain.chars] using lexes_chain hall true bounded_nil lexes_nil

end

end Prototalk
