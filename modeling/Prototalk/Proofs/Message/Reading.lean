/-
  Prototalk.Proofs.Message.Reading
  ────────────────────────────────
  **THE SAME TEXT, READ WITH OTHER NAMES.**

  Two parsers that know different names and take the same tokens stay
  translations of each other; the dictionary grows when a token is an
  identifier.  So they find the same error, or chains that say the same:

    • `Parser.Translates.step` — one token,
    • `Parser.Translates.run` — the tokens up to the first error,
    • `parsed_parseSource` — whole sources.
-/
import Prototalk.Message.Parser
import Prototalk.Proofs.Message.Translation

namespace Prototalk

/-! ## §1. Results. -/

/-- Both fail with the same error, or both succeed with related results. -/
inductive Agree {ε α β : Type} (R : α → β → Prop) : Except ε α → Except ε β → Prop where
  | ok {a : α} {b : β} (h : R a b) : Agree R (.ok a) (.ok b)
  | error (e : ε) : Agree R (.error e) (.error e)

theorem Agree.imp {ε α β : Type} {R S : α → β → Prop} {x : Except ε α} {y : Except ε β}
    (h : Agree R x y) (himp : ∀ a b, R a b → S a b) : Agree S x y := by
  cases h with
  | ok h => exact .ok (himp _ _ h)
  | error e => exact .error e

/-! ## §2. The state between two tokens. -/

/-- The groups were opened in the same way and hold chains that say the same. -/
structure OpenGroup.Translates (d : Dictionary) (g g' : OpenGroup) : Prop where
  bracket_eq : g'.bracket = g.bracket
  span_eq : g'.span = g.span
  attached_eq : g'.attached = g.attached
  args : List.Forall₂ (Chain.Translates d) g.args g'.args
  outer : Chain.Translates d g.outer g'.outer

/-- Two parses of the same tokens; each knows the names of one side of the dictionary. -/
structure Parser.Translates (d : Dictionary) (p p' : Parser) : Prop where
  left : p.names = d.left
  right : p'.names = d.right
  square : d.Pairs p.square p'.square
  curly : d.Pairs p.curly p'.curly
  groups : List.Forall₂ (OpenGroup.Translates d) p.groups p'.groups
  messages : Chain.Translates d p.messages p'.messages
  callable_eq : p'.callable = p.callable
  lastStop_eq : p'.lastStop = p.lastStop

section

variable {d d' : Dictionary}

theorem OpenGroup.Translates.mono {g g' : OpenGroup} (hext : d.Extends d')
    (h : g.Translates d g') : g.Translates d' g' where
  bracket_eq := h.bracket_eq
  span_eq := h.span_eq
  attached_eq := h.attached_eq
  args := h.args.imp fun _ _ ha => Chain.Translates.mono hext ha
  outer := Chain.Translates.mono hext h.outer

/-- The names of the bracket groups are the first to be paired. -/
theorem parser_new (d : Dictionary) :
    ∃ d', d.Extends d' ∧ (Parser.new d.left).Translates d' (Parser.new d.right) := by
  have hsquare := d.pairs_intern squareBrackets
  have hext := (d.intern squareBrackets).extends_intern curlyBrackets
  refine ⟨(d.intern squareBrackets).intern curlyBrackets,
    (d.extends_intern squareBrackets).trans hext, ?_⟩
  exact ⟨rfl, rfl, hsquare.mono hext, (d.intern squareBrackets).pairs_intern curlyBrackets,
    .nil, .nil, rfl, rfl⟩

namespace Parser.Translates

variable {p p' : Parser} (h : p.Translates d p')

include h

theorem mono_push (hext : d.Extends d') {s s' : Symbol} (hs : s.Translates d' s') (span : Span) :
    Chain.Translates d' (p.push s span).messages (p'.push s' span).messages :=
  .cons ⟨hs, .nil⟩ (Chain.Translates.mono hext h.messages)

theorem push {s s' : Symbol} (hs : s.Translates d s') (span : Span) :
    (p.push s span).Translates d (p'.push s' span) where
  left := h.left
  right := h.right
  square := h.square
  curly := h.curly
  groups := h.groups
  messages := h.mono_push (.refl d) hs span
  callable_eq := h.callable_eq
  lastStop_eq := h.lastStop_eq

theorem atStatementStart_eq : p'.atStatementStart = p.atStatementStart := by
  have hmessages := h.messages
  unfold atStatementStart
  generalize p.messages = ms, p'.messages = ms' at hmessages ⊢
  cases hmessages with
  | nil => rfl
  | cons hm _ => exact hm.isSeparator_eq

theorem groupName (bracket : Char) : d.Pairs (p.groupName bracket) (p'.groupName bracket) := by
  unfold Parser.groupName
  by_cases hsquare : bracket == '['
  · rw [if_pos hsquare, if_pos hsquare]
    exact h.square
  rw [if_neg hsquare, if_neg hsquare]
  by_cases hcurly : bracket == '\x7b'
  · rw [if_pos hcurly, if_pos hcurly]
    exact h.curly
  · rw [if_neg hcurly, if_neg hcurly]
    exact d.pairs_empty

/-! ## §3. One token. -/

theorem openGroup (wasCallable : Bool) (bracket : Char) (span : Span) :
    (p.openGroup wasCallable bracket span).Translates d
      (p'.openGroup wasCallable bracket span) where
  left := h.left
  right := h.right
  square := h.square
  curly := h.curly
  groups := .cons ⟨rfl, rfl, rfl, .nil, h.messages⟩ h.groups
  messages := .nil
  callable_eq := h.callable_eq
  lastStop_eq := h.lastStop_eq

theorem closeGroup {g g' : OpenGroup} (hg : g.Translates d g') {args args' : List Chain}
    (hargs : List.Forall₂ (Chain.Translates d) args args') (span : Span) :
    Chain.Translates d (p.closeGroup g args span) (p'.closeGroup g' args' span) := by
  obtain ⟨bracket, start, attached, done, outer⟩ := g
  obtain ⟨bracket', start', attached', done', outer'⟩ := g'
  obtain ⟨hbracket, -, hattached, -, houter⟩ := hg
  dsimp only at hbracket hattached houter
  subst hbracket hattached
  have hown : Message.Translates d ⟨.ident (p.groupName bracket'), args, span⟩
      ⟨.ident (p'.groupName bracket'), args', span⟩ := ⟨.ident (h.groupName bracket'), hargs⟩
  cases attached' with
  | false => exact .cons hown houter
  | true =>
    cases houter with
    | nil => exact .cons hown .nil
    | cons hm hrest =>
      obtain ⟨hsymbol, -⟩ := hm
      exact .cons ⟨hsymbol, hargs⟩ hrest

theorem close (found : Char) (span : Span) :
    Agree (Parser.Translates d) (p.close found span) (p'.close found span) := by
  have hgroups := h.groups
  unfold Parser.close
  generalize p.groups = groups, p'.groups = groups' at hgroups ⊢
  cases hgroups with
  | nil => exact .error _
  | @cons g g' rest rest' hg hrest =>
    dsimp only
    rw [hg.bracket_eq, hg.span_eq, isEmpty_eq h.messages, isEmpty_eq hg.args]
    by_cases hfound : found != closerOf g.bracket
    · rw [if_pos hfound, if_pos hfound]
      exact .error _
    rw [if_neg hfound, if_neg hfound]
    by_cases hempty : p.messages.isEmpty && !g.args.isEmpty
    · rw [if_pos hempty, if_pos hempty]
      exact .error _
    rw [if_neg hempty, if_neg hempty]
    have hlast : List.Forall₂ (Chain.Translates d)
        (if p.messages.isEmpty then [] else [p.messages.reverse])
        (if p.messages.isEmpty then [] else [p'.messages.reverse]) := by
      cases p.messages.isEmpty with
      | true => exact .nil
      | false => exact .cons (List.rel_reverse h.messages) .nil
    have hargs := List.rel_append (List.rel_reverse hg.args) hlast
    refine .ok ⟨h.left, h.right, h.square, h.curly, hrest, ?_, h.callable_eq, h.lastStop_eq⟩
    exact h.closeGroup hg hargs _

theorem comma (span : Span) :
    Agree (Parser.Translates d) (p.comma span) (p'.comma span) := by
  have hgroups := h.groups
  unfold Parser.comma
  generalize p.groups = groups, p'.groups = groups' at hgroups ⊢
  cases hgroups with
  | nil => exact .error _
  | cons hg hrest =>
    dsimp only
    rw [isEmpty_eq h.messages]
    by_cases hempty : p.messages.isEmpty
    · rw [if_pos hempty, if_pos hempty]
      exact .error _
    rw [if_neg hempty, if_neg hempty]
    refine .ok ⟨h.left, h.right, h.square, h.curly, .cons ?_ hrest, .nil, h.callable_eq,
      h.lastStop_eq⟩
    exact ⟨hg.bracket_eq, hg.span_eq, hg.attached_eq, .cons (List.rel_reverse h.messages) hg.args,
      hg.outer⟩

theorem literal {α : Type} (span : Span) (value : Except ParseFault α) {symbol : α → Symbol}
    (hsymbol : ∀ x, (symbol x).Translates d (symbol x)) :
    Agree (Parser.Translates d) (p.literal span value symbol) (p'.literal span value symbol) := by
  cases value with
  | ok x => exact .ok (h.push (hsymbol x) span)
  | error fault => exact .error _

/-- **The same token keeps parsers translations of each other**, or both refuse it. -/
theorem step (t : Token) :
    Agree (fun p p' => ∃ d', d.Extends d' ∧ p.Translates d' p') (p.step t) (p'.step t) := by
  have hsame : ∀ {x y : Except ParseError Parser}, Agree (Parser.Translates d) x y →
      Agree (fun p p' => ∃ d', d.Extends d' ∧ p.Translates d' p') x y :=
    fun hxy => hxy.imp fun _ _ hp => ⟨d, .refl d, hp⟩
  have hready : Parser.Translates d { p with callable := false, lastStop := t.span.stop }
      { p' with callable := false, lastStop := t.span.stop } :=
    ⟨h.left, h.right, h.square, h.curly, h.groups, h.messages, rfl, rfl⟩
  unfold Parser.step
  dsimp only
  rw [h.callable_eq]
  cases t.kind with
  | malformed => exact .error _
  | separator =>
    refine hsame ?_
    dsimp only
    rw [hready.atStatementStart_eq]
    split
    · exact .ok hready
    · exact .ok (hready.push (.separator _) t.span)
  | identifier =>
    -- the one kind of token that is given a name
    have hext := d.extends_intern t.value
    refine .ok ⟨d.intern t.value, hext, ?_⟩
    rw [h.left, h.right]
    exact ⟨rfl, rfl, h.square.mono hext, h.curly.mono hext,
      h.groups.imp fun _ _ hg => hg.mono hext,
      h.mono_push hext (.ident (d.pairs_intern t.value)) t.span, rfl, rfl⟩
  | number => exact hsame (hready.literal t.span _ .number)
  | hexNumber => exact hsame (hready.literal t.span _ .number)
  | string => exact hsame (hready.literal t.span _ .text)
  | triQuote => exact hsame (hready.literal t.span _ .text)
  | opening => exact hsame (.ok (hready.openGroup _ _ _))
  | closing => exact hsame (hready.close _ t.span)
  | comma => exact hsame (hready.comma t.span)

theorem result : Agree (Option.Rel (Chain.Translates d)) p.result p'.result := by
  have hgroups := h.groups
  unfold Parser.result
  rw [isEmpty_eq h.messages, h.lastStop_eq]
  generalize p.groups = groups, p'.groups = groups' at hgroups ⊢
  cases hgroups with
  | cons hg _ =>
    dsimp only
    rw [hg.bracket_eq]
    exact .error _
  | nil =>
    refine .ok ?_
    cases p.messages.isEmpty with
    | true => exact .none
    | false => exact .some (List.rel_reverse h.messages)

end Parser.Translates

/-! ## §4. Whole programs. -/

/-- The parses ended alike, with the names of the two sides of the dictionary. -/
structure Parsed.Translates (d : Dictionary) (x y : Parsed) : Prop where
  result : Agree (Option.Rel (Chain.Translates d)) x.result y.result
  left : x.names = d.left
  right : y.names = d.right

/-- **The same tokens read with other names.** -/
theorem Parser.Translates.run {p p' : Parser} (h : p.Translates d p') (tokens : List Token) :
    ∃ d', d.Extends d' ∧ (p.run tokens).Translates d' (p'.run tokens) := by
  induction tokens generalizing d p p' with
  | nil => exact ⟨d, .refl d, h.result, h.left, h.right⟩
  | cons t tokens ih =>
    have hstep := h.step t
    unfold Parser.run
    generalize p.step t = x, p'.step t = y at hstep ⊢
    cases hstep with
    | ok hnext =>
      obtain ⟨d₁, hext₁, hp⟩ := hnext
      obtain ⟨d₂, hext₂, hparsed⟩ := ih hp
      exact ⟨d₂, hext₁.trans hext₂, hparsed⟩
    | error e => exact ⟨d, .refl d, .error e, h.left, h.right⟩

/-- **The same source read with other names.** -/
theorem parsed_parseSource (d : Dictionary) (mode : LexMode) (source : Source) :
    ∃ d', d.Extends d' ∧
      (parseSource d.left mode source).Translates d' (parseSource d.right mode source) := by
  obtain ⟨d₁, hext₁, hnew⟩ := parser_new d
  obtain ⟨d₂, hext₂, hparsed⟩ := hnew.run (source.tokensBy mode)
  exact ⟨d₂, hext₁.trans hext₂, hparsed⟩

end

end Prototalk
