/-
  Prototalk.Proofs.Message.Grammar
  ────────────────────────────────
  **THE PARSER ACCEPTS THE GRAMMAR, AND STOPS AT THE FIRST ERROR.**

    • `Taken` says once what the parser does with a token (`step_eq_ok_iff`);
    • a parser that has taken tokens follows them: it has the same groups
      open, with as many arguments as segments have ended (`Follows.step`);
    • so it stops at the first token that violates the nesting, or at the end
      of the input if a group is still open (`parseTokens_iff_bracketed`).
-/
import Prototalk.Proofs.Message.Nesting

namespace Prototalk

/-! ## §1. What the parser does with a token. -/

namespace Parser

variable {p q : Parser} {t : Token} {before : List Token}

/-- The parser behind a token that leaves nothing. -/
def past (p : Parser) (t : Token) : Parser := { p with callable := false, lastStop := t.span.stop }

/-- The arguments of a group that is closed now. -/
def finished (p : Parser) (g : OpenGroup) : List Chain :=
  g.args.reverse ++ if p.messages.isEmpty then [] else [p.messages.reverse]

/-- Taking the token `t` leads from `p` to this parser. -/
inductive Taken (p : Parser) (t : Token) : Parser → Prop where
  | absorbed (hkind : t.kind = .separator) (hstart : p.atStatementStart = true) :
      Taken p t (p.past t)
  | separator (hkind : t.kind = .separator) (hstart : p.atStatementStart = false) :
      Taken p t ((p.past t).push (.separator (.ofChar (t.firstChar?.getD '\n'))) t.span)
  | name (hkind : t.kind = .identifier) :
      Taken p t ({ p.past t with names := (p.names.intern t.value).2, callable := true }.push
        (.ident (p.names.intern t.value).1) t.span)
  | literal {symbol : Symbol} (hkind : t.kind.isLiteral = true)
      (hvalue : t.literal? = some symbol) : Taken p t ((p.past t).push symbol t.span)
  | opening (hkind : t.kind = .opening) :
      Taken p t ((p.past t).openGroup p.callable t.bracket t.span)
  | closing {g : OpenGroup} {groups : List OpenGroup} (hkind : t.kind = .closing)
      (hgroups : p.groups = g :: groups) (hfit : t.bracket = closerOf g.bracket)
      (hfull : p.messages = [] → g.args = []) :
      Taken p t { p.past t with
        groups := groups, messages := p.closeGroup g (p.finished g) (g.span.merge t.span) }
  | comma {g : OpenGroup} {groups : List OpenGroup} (hkind : t.kind = .comma)
      (hgroups : p.groups = g :: groups) (hfull : p.messages ≠ []) :
      Taken p t { p.past t with
        groups := { g with args := p.messages.reverse :: g.args } :: groups, messages := [] }

theorem literal_eq_ok_iff {α : Type} {span : Span} {value : Except ParseFault α}
    {symbol : α → Symbol} : p.literal span value symbol = .ok q
      ↔ ∃ s, value.toOption.map symbol = some s ∧ q = p.push s span := by
  cases value with
  | error fault => simp [literal, Except.toOption]
  | ok x => simp [literal, Except.toOption, eq_comm]

theorem close_eq_ok_iff (hkind : t.kind = .closing) :
    (p.past t).close t.bracket t.span = .ok q ↔ Taken p t q := by
  constructor
  · intro h
    unfold close at h
    split at h
    · cases h
    · rename_i g groups hgroups
      split at h
      · cases h
      · rename_i hfit
        split at h
        · cases h
        · rename_i hfull
          cases h
          refine Taken.closing hkind hgroups (by simpa using hfit) fun hmessages => ?_
          have hmessages' : (p.past t).messages = [] := hmessages
          simpa [hmessages'] using hfull
  · intro h
    cases h with
    | closing _ hgroups hfit hfull =>
      have hgroups' : (p.past t).groups = _ := hgroups
      unfold close
      rw [hgroups']
      simp only [hfit, bne_self_eq_false, Bool.false_eq_true, if_false]
      rw [if_neg]
      · rfl
      · simpa [past] using hfull
    | _ => simp_all [TokenKind.isLiteral]

theorem comma_eq_ok_iff (hkind : t.kind = .comma) :
    (p.past t).comma t.span = .ok q ↔ Taken p t q := by
  constructor
  · intro h
    unfold comma at h
    split at h
    · cases h
    · rename_i g groups hgroups
      split at h
      · cases h
      · rename_i hfull
        cases h
        exact Taken.comma hkind hgroups (by simpa [past] using hfull)
  · intro h
    cases h with
    | comma _ hgroups hfull =>
      have hgroups' : (p.past t).groups = _ := hgroups
      unfold comma
      rw [hgroups']
      dsimp only
      rw [if_neg (by simpa [past] using hfull)]
      rfl
    | _ => simp_all [TokenKind.isLiteral]

/-- **A token is taken, or it is an error.** -/
theorem step_eq_ok_iff : p.step t = .ok q ↔ Taken p t q := by
  have hliteral : ∀ {α : Type} {value : Except ParseFault α} {symbol : α → Symbol},
      t.kind.isLiteral = true → t.literal? = value.toOption.map symbol →
        ((p.past t).literal t.span value symbol = .ok q ↔ Taken p t q) := by
    intro α value symbol hkind hvalue
    rw [literal_eq_ok_iff, ← hvalue]
    constructor
    · rintro ⟨s, hs, rfl⟩
      exact .literal hkind hs
    · intro h
      cases h with
      | literal _ hs => exact ⟨_, hs, rfl⟩
      | _ => simp_all [TokenKind.isLiteral]
  unfold step
  cases hkind : t.kind with
  | malformed =>
    constructor
    · intro h
      cases h
    · intro h
      cases h <;> simp_all [TokenKind.isLiteral]
  | separator =>
    constructor
    · intro h
      dsimp only at h
      split at h
      · rename_i hstart
        cases h
        exact .absorbed hkind hstart
      · rename_i hstart
        cases h
        exact .separator hkind (by simpa [atStatementStart] using hstart)
    · intro h
      cases h with
      | absorbed _ hstart => exact if_pos hstart
      | separator _ hstart => exact if_neg (by simpa [atStatementStart] using hstart)
      | _ => simp_all [TokenKind.isLiteral]
  | identifier =>
    constructor
    · intro h
      cases h
      exact .name hkind
    · intro h
      cases h with
      | name _ => rfl
      | _ => simp_all [TokenKind.isLiteral]
  | number =>
    exact hliteral (by simp [hkind, TokenKind.isLiteral]) (by simp [Token.literal?, hkind])
  | hexNumber =>
    exact hliteral (by simp [hkind, TokenKind.isLiteral]) (by simp [Token.literal?, hkind])
  | string =>
    exact hliteral (by simp [hkind, TokenKind.isLiteral]) (by simp [Token.literal?, hkind])
  | triQuote =>
    exact hliteral (by simp [hkind, TokenKind.isLiteral]) (by simp [Token.literal?, hkind])
  | opening =>
    have hbracket : t.bracket = t.bracket?.getD '(' := by simp [Token.bracket, hkind]
    rw [← hbracket]
    constructor
    · intro h
      cases h
      exact .opening hkind
    · intro h
      cases h with
      | opening _ => rfl
      | _ => simp_all [TokenKind.isLiteral]
  | closing =>
    have hbracket : t.bracket = t.bracket?.getD ')' := by simp [Token.bracket, hkind]
    rw [← hbracket]
    exact close_eq_ok_iff hkind
  | comma => exact comma_eq_ok_iff hkind

/-! ## §2. The parser follows the groups. -/

/-- The group of the parser and the group of tokens are the same one. -/
structure SameGroup (g : OpenGroup) (tokens : TokenGroup) : Prop where
  bracket : g.bracket = tokens.opening.bracket
  args : g.args.length = tokens.ended.length

/-- The parser has taken the tokens `before`: the same groups are open, and there is a message in
the innermost one if something other than separators stands in its last segment. -/
structure Follows (before : List Token) (p : Parser) : Prop where
  groups : List.Forall₂ SameGroup p.groups (unclosed before)
  messages : ∀ g ∈ (unclosed before).head?, p.messages.isEmpty = isBlank g.last
  around : ∀ g ∈ (unclosed before).tail, isBlank g.last = false
  lastStop : ∀ t ∈ before.getLast?, p.lastStop = t.span.stop

theorem follows_new (names : Interner) : Follows [] (new names) where
  groups := .nil
  messages := by simp
  around := by simp
  lastStop := by simp

/-- A token that neither opens nor closes a group, and ends no argument. -/
theorem Follows.within (h : Follows before p) (hopening : t.kind ≠ .opening)
    (hclosing : t.kind ≠ .closing) (hcomma : t.kind ≠ .comma) (hgroups : q.groups = p.groups)
    (hmessages : q.messages.isEmpty = (p.messages.isEmpty && decide (t.kind = .separator)))
    (hstop : q.lastStop = t.span.stop) : Follows (before ++ [t]) q := by
  have hafter := unclosed_within before hopening hclosing
  obtain ⟨hsame, hinner, haround, -⟩ := h
  rw [← hgroups] at hsame
  cases hbefore : unclosed before with
  | nil =>
    rw [hbefore] at hsame hafter
    exact ⟨by rwa [hafter], by simp [hafter], by simp [hafter], by simp [hstop]⟩
  | cons g groups =>
    rw [hbefore] at hsame hafter hinner haround
    rw [List.modifyHead_cons, TokenGroup.take, if_neg hcomma] at hafter
    obtain ⟨g', groups', hg, hrest, heq⟩ := List.forall₂_cons_right_iff.mp hsame
    refine ⟨?_, ?_, ?_, by simp [hstop]⟩
    · rw [hafter, heq]
      exact .cons ⟨hg.bracket, hg.args⟩ hrest
    · rw [hafter]
      simp [hmessages, isBlank_append_singleton, hinner g rfl]
    · rw [hafter]
      exact haround

theorem Follows.opening (h : Follows before p) (hkind : t.kind = .opening) :
    Follows (before ++ [t]) ((p.past t).openGroup p.callable t.bracket t.span) := by
  have hafter := unclosed_opening before hkind
  have hnot : t.kind ≠ .comma := by simp [hkind]
  obtain ⟨hsame, -, haround, -⟩ := h
  have houter : List.Forall₂ SameGroup p.groups ((unclosed before).modifyHead (·.take t))
      ∧ ∀ g ∈ (unclosed before).modifyHead (·.take t), isBlank g.last = false := by
    cases hbefore : unclosed before with
    | nil =>
      rw [hbefore] at hsame
      exact ⟨hsame, by simp⟩
    | cons g groups =>
      rw [hbefore] at hsame haround
      rw [List.modifyHead_cons, TokenGroup.take, if_neg hnot]
      obtain ⟨g', groups', hg, hrest, heq⟩ := List.forall₂_cons_right_iff.mp hsame
      refine ⟨heq ▸ .cons ⟨hg.bracket, hg.args⟩ hrest, ?_⟩
      -- the bracket itself stands in the group around it
      rw [List.forall_mem_cons]
      exact ⟨by simp [isBlank_append_singleton, hkind], haround⟩
  refine ⟨?_, ?_, ?_, by simp [openGroup, past]⟩
  · rw [hafter]
    exact .cons ⟨rfl, rfl⟩ houter.1
  · rw [hafter]
    simp [openGroup, TokenGroup.ofOpening, isBlank]
  · rw [hafter]
    exact houter.2

theorem closeGroup_ne_nil (p : Parser) (g : OpenGroup) (args : List Chain) (span : Span) :
    p.closeGroup g args span ≠ [] := by
  unfold closeGroup
  split <;> simp

/-- **One token.** -/
theorem Follows.step (h : Follows before p) (ht : Taken p t q) : Follows (before ++ [t]) q := by
  cases ht with
  | absorbed hkind hstart =>
    refine h.within ?_ ?_ ?_ rfl ?_ rfl <;> simp [hkind, past]
  | separator hkind hstart =>
    have hne : p.messages ≠ [] := by
      rintro hnil
      simp [atStatementStart, hnil] at hstart
    refine h.within ?_ ?_ ?_ rfl ?_ rfl <;> simp [hkind, push, past, hne]
  | name hkind =>
    refine h.within ?_ ?_ ?_ rfl ?_ rfl <;> simp [hkind, push]
  | literal hkind hvalue =>
    have hnot : ∀ {kind : TokenKind}, kind.isLiteral = false → t.kind ≠ kind :=
      TokenKind.ne_of_isLiteral hkind
    have hseparator : t.kind ≠ .separator := hnot rfl
    refine h.within (hnot rfl) (hnot rfl) (hnot rfl) rfl ?_ rfl
    simp [push, hseparator]
  | opening hkind => exact h.opening hkind
  | @closing g groups hkind hgroups hfit hfull =>
    obtain ⟨hsame, -, haround, -⟩ := h
    have hafter := unclosed_closing before hkind
    rw [hgroups] at hsame
    obtain ⟨inner, outer, -, hrest, heq⟩ := List.forall₂_cons_left_iff.mp hsame
    rw [heq] at hafter haround
    refine ⟨by rwa [hafter], ?_, ?_, by simp [past]⟩
    -- the closed group is a message of the chain around it, in which its bracket stands
    · intro tokens htokens
      rw [hafter] at htokens
      rw [haround tokens (List.mem_of_mem_head? htokens)]
      simpa using closeGroup_ne_nil p g (p.finished g) (g.span.merge t.span)
    · rw [hafter]
      exact fun tokens htokens => haround tokens (List.mem_of_mem_tail htokens)
  | @comma g groups hkind hgroups hfull =>
    obtain ⟨hsame, -, haround, -⟩ := h
    rw [hgroups] at hsame
    obtain ⟨inner, outer, hg, hrest, heq⟩ := List.forall₂_cons_left_iff.mp hsame
    have hafter : unclosed (before ++ [t])
        = ⟨inner.opening, inner.ended ++ [inner.last], []⟩ :: outer := by
      rw [unclosed_within _ (by simp [hkind]) (by simp [hkind]), heq]
      simp [TokenGroup.take, hkind]
    rw [heq] at haround
    refine ⟨?_, ?_, ?_, by simp [past]⟩
    · rw [hafter]
      exact .cons ⟨hg.bracket, by simp [hg.args]⟩ hrest
    · rw [hafter]
      simp [isBlank]
    · rw [hafter]
      exact haround

/-! ## §3. Where the parser stops. -/

theorem step_eq_error (h : Follows before p) {fault : ParseFault}
    (hfault : violation? before t = some fault) : p.step t = .error ⟨fault, t.span⟩ := by
  obtain ⟨hsame, hinner, -, -⟩ := h
  unfold violation? at hfault
  split at hfault
  · rename_i hkind hgroups
    cases hfault
    rw [hgroups, List.forall₂_nil_right_iff] at hsame
    simp [step, hkind, close, hsame, Token.bracket]
  · rename_i g groups hkind hgroups
    rw [hgroups] at hsame hinner
    obtain ⟨g', groups', hg, -, heq⟩ := List.forall₂_cons_right_iff.mp hsame
    have hmessages := hinner g rfl
    split at hfault
    · rename_i hfit
      cases hfault
      simp_all [step, close, hg.bracket, Token.bracket]
    · rename_i hfit
      split at hfault
      · rename_i hempty
        cases hfault
        have hargs : g'.args ≠ [] := by
          rw [← List.length_pos_iff, hg.args, List.length_pos_iff]
          exact hempty.1
        simp_all [step, close, hg.bracket, Token.bracket]
      · cases hfault
  · rename_i hkind hgroups
    cases hfault
    rw [hgroups, List.forall₂_nil_right_iff] at hsame
    simp [step, hkind, comma, hsame]
  · rename_i g groups hkind hgroups
    rw [hgroups] at hsame hinner
    obtain ⟨g', groups', -, -, heq⟩ := List.forall₂_cons_right_iff.mp hsame
    have hmessages := hinner g rfl
    split at hfault
    · rename_i hblank
      cases hfault
      simp_all [step, comma]
    · cases hfault
  · cases hfault

/-- A token that is readable and not wrong is taken. -/
theorem Follows.exists_taken (h : Follows before p) (hread : t.Readable)
    (hright : violation? before t = none) : ∃ q, Taken p t q := by
  obtain ⟨hsame, hinner, -, -⟩ := h
  cases hkind : t.kind with
  | malformed => exact absurd hkind hread.proper
  | separator =>
    cases hstart : p.atStatementStart with
    | true => exact ⟨_, .absorbed hkind hstart⟩
    | false => exact ⟨_, .separator hkind hstart⟩
  | identifier => exact ⟨_, .name hkind⟩
  | number | hexNumber | string | triQuote =>
    have hliteral : t.kind.isLiteral = true := by rw [hkind]; rfl
    obtain ⟨symbol, hvalue⟩ := Option.isSome_iff_exists.mp (hread.decodes hliteral)
    exact ⟨_, .literal hliteral hvalue⟩
  | opening => exact ⟨_, .opening hkind⟩
  | closing =>
    cases hgroups : unclosed before with
    | nil => simp [violation?, hkind, hgroups] at hright
    | cons g groups =>
      rw [hgroups] at hsame hinner
      obtain ⟨g', groups', hg, -, heq⟩ := List.forall₂_cons_right_iff.mp hsame
      have hfit : t.bracket = closerOf g.opening.bracket := by
        by_contra hfit
        simp [violation?, hkind, hgroups, hfit] at hright
      refine ⟨_, .closing hkind heq (hg.bracket ▸ hfit) fun hmessages => ?_⟩
      -- nothing stands in the last segment, so there was no comma
      have hblank : isBlank g.last = true := by rw [← hinner g rfl, hmessages]; rfl
      have hended : g.ended = [] := by
        by_contra hended
        simp [violation?, hkind, hgroups, hfit, hended, hblank] at hright
      rw [← List.length_eq_zero_iff, hg.args, hended]
      rfl
  | comma =>
    cases hgroups : unclosed before with
    | nil => simp [violation?, hkind, hgroups] at hright
    | cons g groups =>
      rw [hgroups] at hsame hinner
      obtain ⟨g', groups', -, -, heq⟩ := List.forall₂_cons_right_iff.mp hsame
      refine ⟨_, .comma hkind heq fun hmessages => ?_⟩
      have hblank : isBlank g.last = true := by rw [← hinner g rfl, hmessages]; rfl
      simp [violation?, hkind, hgroups, hblank] at hright

/-- **A run over tokens that are not wrong** takes them all. -/
theorem Follows.run (h : Follows before p) {tokens : List Token} (after : List Token)
    (hread : ∀ t ∈ tokens, t.Readable)
    (hright : ∀ mid t rest, tokens = mid ++ t :: rest → violation? (before ++ mid) t = none) :
    ∃ q, Follows (before ++ tokens) q ∧ p.run (tokens ++ after) = q.run after := by
  induction tokens generalizing before p with
  | nil => exact ⟨p, by simpa using h, rfl⟩
  | cons t tokens ih =>
    obtain ⟨q, htaken⟩ := h.exists_taken (hread t List.mem_cons_self)
      (by simpa using hright [] t tokens rfl)
    obtain ⟨r, hr, hrun⟩ := ih (h.step htaken) (fun u hu => hread u (List.mem_cons_of_mem _ hu))
      (fun mid u rest heq => by simpa using hright (t :: mid) u rest (by simp [heq]))
    refine ⟨r, by simpa using hr, ?_⟩
    rw [List.cons_append, Parser.run, step_eq_ok_iff.mpr htaken]
    exact hrun

end Parser

section

variable {tokens : List Token}

theorem Unviolated.run (names : Interner) (after : List Token) (hread : ∀ t ∈ tokens, t.Readable)
    (h : Unviolated tokens) : ∃ q, Parser.Follows tokens q
      ∧ parseTokens names (tokens ++ after) = q.run after :=
  (Parser.follows_new names).run after hread h

theorem result_of_bracketed (names : Interner) (hread : ∀ t ∈ tokens, t.Readable)
    (h : Bracketed tokens) : ∃ c, (parseTokens names tokens).result = .ok c := by
  obtain ⟨hall, hclosed⟩ := bracketed_iff.mp h
  obtain ⟨q, hq, hrun⟩ := hall.run names [] hread
  have hgroups := hq.groups
  rw [hclosed, List.forall₂_nil_right_iff] at hgroups
  rw [List.append_nil] at hrun
  rw [hrun, Parser.run, Parser.result, hgroups]
  exact ⟨_, rfl⟩

theorem result_of_firstError (names : Interner) (hread : ∀ t ∈ tokens, t.Readable)
    {e : ParseError} (h : FirstError tokens e) : (parseTokens names tokens).result = .error e := by
  cases h with
  | @token before t after fault hsplit hbefore hfault =>
    subst hsplit
    obtain ⟨q, hq, hrun⟩ := hbefore.run names (t :: after) fun u hu =>
      hread u (List.mem_append_left _ hu)
    rw [hrun, Parser.run, Parser.step_eq_error hq hfault]
  | @unclosed g groups last hall hopen hlast =>
    obtain ⟨q, hq, hrun⟩ := hall.run names [] hread
    have hgroups := hq.groups
    rw [hopen] at hgroups
    obtain ⟨g', groups', hg, -, heq⟩ := List.forall₂_cons_right_iff.mp hgroups
    rw [List.append_nil] at hrun
    rw [hrun, Parser.run, Parser.result, heq, ← hg.bracket, hq.lastStop last hlast]

/-- Tokens are a program, or there is a first error in them. -/
theorem bracketed_or_firstError (tokens : List Token) :
    Bracketed tokens ∨ ∃ e, FirstError tokens e := by
  rcases unviolated_or_first tokens with hall | ⟨before, t, after, fault, heq, hbefore, hfault⟩
  · cases hopen : unclosed tokens with
    | nil => exact .inl (bracketed_iff.mpr ⟨hall, hopen⟩)
    | cons g groups =>
      have hne : tokens ≠ [] := by
        rintro rfl
        cases hopen
      exact .inr ⟨_, .unclosed hall hopen (List.getLast?_eq_some_getLast hne)⟩
  · exact .inr ⟨_, .token heq hbefore hfault⟩

/-- **Brackets and commas decide.**  Tokens that each mean something are a program exactly if they
are `Bracketed`, and otherwise the parse ends with the first error in them. -/
theorem parseTokens_iff_bracketed (names : Interner) (tokens : List Token)
    (hread : ∀ t ∈ tokens, t.Readable) :
    ((∃ c, (parseTokens names tokens).result = .ok c) ↔ Bracketed tokens)
      ∧ ∀ e, (parseTokens names tokens).result = .error e ↔ FirstError tokens e := by
  have hok := result_of_bracketed names hread
  have herror : ∀ e, FirstError tokens e → (parseTokens names tokens).result = .error e :=
    fun e => result_of_firstError names hread
  refine ⟨⟨fun ⟨c, hc⟩ => ?_, hok⟩, fun e => ⟨fun he => ?_, herror e⟩⟩
  · rcases bracketed_or_firstError tokens with h | ⟨e, h⟩
    · exact h
    · cases hc.symm.trans (herror e h)
  · rcases bracketed_or_firstError tokens with h | ⟨e', h⟩
    · obtain ⟨c, hc⟩ := hok h
      cases hc.symm.trans he
    · cases (herror e' h).symm.trans he
      exact h

end

/-- The tokens of `f(1,;)`: the segment behind the comma holds a separator only. -/
def danglingComma : List Token :=
  [.ofKind .identifier "f" ⟨0, 1⟩, .ofKind .opening "(" ⟨1, 2⟩, .ofKind .number "1" ⟨2, 3⟩,
    .ofKind .comma "," ⟨3, 4⟩, .ofKind .separator ";" ⟨4, 5⟩, .ofKind .closing ")" ⟨5, 6⟩]

theorem parseTokens_iff_bracketed_danglingComma :
    (∀ t ∈ danglingComma, t.Readable)
      ∧ FirstError danglingComma ⟨.emptyArgument, ⟨5, 6⟩⟩ ∧ ¬ Bracketed danglingComma := by
  have hread : ∀ t ∈ danglingComma, t.Readable := by
    simp only [danglingComma, List.forall_mem_cons]
    refine ⟨?_, ?_, ?_, ?_, ?_, ?_, by simp⟩ <;> exact ⟨by decide, by decide +kernel⟩
  have hresult : (parseTokens .new danglingComma).result = .error ⟨.emptyArgument, ⟨5, 6⟩⟩ := by
    rfl
  obtain ⟨hok, herror⟩ := parseTokens_iff_bracketed .new danglingComma hread
  refine ⟨hread, (herror _).mp hresult, fun h => ?_⟩
  obtain ⟨c, hc⟩ := hok.mpr h
  rw [hresult] at hc
  cases hc

end Prototalk
