/-
  Prototalk.Proofs.Message.Listing
  ────────────────────────────────
  **NOTHING IS LOST, DOUBLED OR MOVED BY THE PARSER.**

  The messages of a program, listed in the order of the source, can be read
  off its tokens one by one (`readOff`): what a token says depends on itself,
  on the token right before it and on the number of open groups, and a
  message has one argument for each segment of its group.

  The proof adds up, between two tokens, what the parser has built and what
  the tokens to come will say.  The sum does not change when a token is taken
  (`listing_step`).  A group that is open counts with the number of arguments
  that it will have once it is closed, and so does a name that may still be
  given arguments.
-/
import Prototalk.Message.Listing
import Prototalk.Proofs.Message.Grammar
import Prototalk.Proofs.Message.Parser

namespace Prototalk

/-! ## §1. Listings of chains. -/

/-- A message in a listing: its depth, what it says, and the number of its arguments. -/
abbrev Entry := Nat × Symbol × Nat

/-- What a listing shows of a message. -/
def Node.entry (n : Node) : Entry := (n.depth, n.message.symbol, n.message.args.length)

/-- The listing of a chain. -/
def Chain.entries (depth : Nat) (c : Chain) : List Entry := (Chain.nodes depth c).map Node.entry

/-- The listing of several chains. -/
def Message.argEntries (depth : Nat) (args : List Chain) : List Entry :=
  (Message.argNodes depth args).map Node.entry

section

variable {depth : Nat}

@[simp] theorem Chain.entries_nil : Chain.entries depth [] = [] := rfl

@[simp] theorem Chain.entries_append (a b : Chain) :
    Chain.entries depth (a ++ b) = Chain.entries depth a ++ Chain.entries depth b := by
  induction a with
  | nil => rfl
  | cons m a ih =>
    simp only [Chain.entries, List.cons_append, Chain.nodes, List.map_append] at ih ⊢
    rw [ih, List.append_assoc]

theorem Chain.entries_singleton (symbol : Symbol) (args : List Chain) (span : Span) :
    Chain.entries depth [⟨symbol, args, span⟩]
      = (depth, symbol, args.length) :: Message.argEntries (depth + 1) args := by
  simp [Chain.entries, Chain.nodes, Message.nodes, Message.argEntries, Node.entry]

@[simp] theorem Message.argEntries_nil : Message.argEntries depth [] = [] := rfl

@[simp] theorem Message.argEntries_singleton (a : Chain) :
    Message.argEntries depth [a] = Chain.entries depth a := by
  simp [Message.argEntries, Message.argNodes, Chain.entries]

@[simp] theorem Message.argEntries_append (as bs : List Chain) :
    Message.argEntries depth (as ++ bs)
      = Message.argEntries depth as ++ Message.argEntries depth bs := by
  induction as with
  | nil => rfl
  | cons a as ih =>
    simp only [Message.argEntries, List.cons_append, Message.argNodes, List.map_append] at ih ⊢
    rw [ih, List.append_assoc]

end

/-! ## §2. What tokens say. -/

/-- Whether a message may end with a token of this class. -/
def TokenKind.endsMessage : TokenKind → Bool
  | .identifier | .closing | .number | .hexNumber | .string | .triQuote => true
  | .separator | .opening | .comma | .malformed => false

/-- What a token says behind the one before it, if it says anything.  A round bracket behind an
identifier belongs to it, and a separator counts behind a message only. -/
def Token.symbol? (names : Interner) (previous : Option Token) (t : Token) : Option Symbol :=
  match t.kind with
  | .identifier => some (.ident (names.intern t.value).1)
  | .number | .hexNumber | .string | .triQuote => t.literal?
  | .opening =>
      if t.bracket = '[' then some (.ident (names.intern squareBrackets).1)
      else if t.bracket = '{' then some (.ident (names.intern curlyBrackets).1)
      else if t.bracket = '(' ∧ previous.any (·.kind = .identifier) then none
      else some (.ident .empty)
  | .separator =>
      if previous.any (·.kind.endsMessage) then
        some (.separator (.ofChar (t.firstChar?.getD '\n')))
      else none
  | .closing | .comma | .malformed => none

namespace TokenGroup

/-- The group once its closing bracket is read, from a place inside of `depth` groups in it. -/
def readThrough : Nat → TokenGroup → List Token → TokenGroup
  | _, g, [] => g
  | 0, g, t :: rest =>
      match t.kind with
      | .opening => readThrough 1 (g.take t) rest
      | .closing => g
      | _ => readThrough 0 (g.take t) rest
  | depth + 1, g, t :: rest =>
      match t.kind with
      | .opening => readThrough (depth + 2) g rest
      | .closing => readThrough depth g rest
      | _ => readThrough (depth + 1) g rest

/-- Number of arguments: one for each segment, and none if only separators stand in the group. -/
def arity (g : TokenGroup) : Nat :=
  if g.ended = [] ∧ isBlank g.last then 0 else g.segments.length

end TokenGroup

/-- Number of arguments in the group that starts with the token `t`. -/
def Token.groupArity (t : Token) (rest : List Token) : Nat :=
  ((TokenGroup.ofOpening t).readThrough 0 rest).arity

/-- Number of arguments of an identifier before these tokens. -/
def callArity : List Token → Nat
  | [] => 0
  | t :: rest => if t.kind = .opening ∧ t.bracket = '(' then t.groupArity rest else 0

/-- Number of arguments of the message that a token says. -/
def Token.arity (t : Token) (rest : List Token) : Nat :=
  match t.kind with
  | .identifier => callArity rest
  | .opening => t.groupArity rest
  | _ => 0

/-- What the token `t` adds to the listing, between the tokens `before` and `rest`. -/
def Token.entry? (names : Interner) (before : List Token) (t : Token) (rest : List Token) :
    Option Entry :=
  (t.symbol? names before.getLast?).map fun symbol =>
    ((unclosed before).length, symbol, t.arity rest)

/-- The listing as it can be read off the tokens behind `before`. -/
def readOff (names : Interner) (before : List Token) : List Token → List Entry
  | [] => []
  | t :: rest => (t.entry? names before rest).toList ++ readOff names (before ++ [t]) rest

/-! ## §3. What holds between two tokens. -/

theorem Token.isSeparator_of_literal? {t : Token} {symbol : Symbol} {span : Span}
    (h : t.literal? = some symbol) : (Message.ofSymbol symbol span).isSeparator = false := by
  unfold Token.literal? at h
  split at h
  all_goals first
    | cases h
    | obtain ⟨x, -, rfl⟩ := Option.map_eq_some_iff.mp h
      rfl

namespace Parser

variable {p q : Parser} {t : Token} {before rest : List Token} {names : Interner}

/-- Tables stay valid, and names keep their texts. -/
theorem Rooted.step (h : p.Rooted) (ht : Taken p t q) : q.Rooted ∧ p.names.Extends q.names := by
  cases ht with
  | name hkind =>
    have hext := Interner.extends_intern p.names t.value
    exact ⟨⟨h.valid.intern t.value, hext _ _ h.square, hext _ _ h.curly⟩, hext⟩
  | _ => exact ⟨⟨h.valid, h.square, h.curly⟩, .refl _⟩

theorem Rooted.run (h : p.Rooted) (tokens : List Token) :
    (p.run tokens).names.Valid ∧ p.names.Extends (p.run tokens).names := by
  induction tokens generalizing p with
  | nil => exact ⟨h.valid, .refl _⟩
  | cons t tokens ih =>
    rw [Parser.run]
    split
    · rename_i q hstep
      obtain ⟨hq, hext⟩ := h.step (step_eq_ok_iff.mp hstep)
      exact ⟨(ih hq).1, hext.trans (ih hq).2⟩
    · exact ⟨h.valid, .refl _⟩

/-- The parser has taken the tokens `before`, and knows what the last one of them was. -/
structure Placed (before : List Token) (p : Parser) : Prop extends Rooted p, Follows before p where
  callable : p.callable = before.getLast?.any (·.kind = .identifier)
  start : p.atStatementStart = !before.getLast?.any (·.kind.endsMessage)
  named : p.callable = true → EndsInName p.messages
  attached : ∀ g ∈ p.groups, g.attached = true → EndsInName g.outer

theorem placed_new (hv : names.Valid) : Placed [] (new names) where
  toRooted := rooted_new hv
  toFollows := follows_new names
  callable := rfl
  start := rfl
  named := by simp [new]
  attached := by simp [new]

/-- The message that a group becomes is no separator. -/
theorem atStatementStart_closeGroup {g : OpenGroup} (hg : g.attached = true → EndsInName g.outer)
    {args : List Chain} {span : Span} (hq : q.messages = p.closeGroup g args span) :
    q.atStatementStart = false := by
  unfold atStatementStart
  rw [hq, closeGroup]
  cases hattached : g.attached with
  | false => rfl
  | true =>
    obtain ⟨name, place, before, houter⟩ := hg hattached
    rw [houter]
    rfl

theorem Placed.step (h : Placed before p) (ht : Taken p t q) : Placed (before ++ [t]) q := by
  refine ⟨(h.toRooted.step ht).1, h.toFollows.step ht, ?_, ?_, ?_, ?_⟩
  · cases ht with
    | name hkind => simp [push, hkind]
    | literal hkind hvalue =>
      have hnot : t.kind ≠ .identifier := TokenKind.ne_of_isLiteral hkind rfl
      simp [push, past, hnot]
    | absorbed hkind | separator hkind | opening hkind | closing hkind | comma hkind =>
      simp [push, past, openGroup, hkind]
  · cases ht with
    | absorbed hkind hstart =>
      have hstart' : (p.past t).atStatementStart = true := hstart
      simp [hkind, TokenKind.endsMessage, hstart']
    | separator hkind hstart => simp [hkind, TokenKind.endsMessage, atStatementStart, push,
        Message.ofSymbol, Message.isSeparator]
    | name hkind => simp [hkind, TokenKind.endsMessage, atStatementStart, push, Message.ofSymbol,
        Message.isSeparator]
    | literal hkind hvalue =>
      have hends : t.kind.endsMessage = true := by
        revert hkind
        cases t.kind <;> simp [TokenKind.isLiteral, TokenKind.endsMessage]
      simp [hends, atStatementStart, push, Token.isSeparator_of_literal? hvalue]
    | opening hkind => simp [hkind, TokenKind.endsMessage, atStatementStart, openGroup]
    | @closing g groups hkind hgroups hfit hfull =>
      have hg := h.attached g (hgroups ▸ List.mem_cons_self)
      rw [atStatementStart_closeGroup hg rfl]
      simp [hkind, TokenKind.endsMessage]
    | comma hkind => simp [hkind, TokenKind.endsMessage, atStatementStart]
  · cases ht with
    | name hkind => exact fun _ => ⟨_, _, _, rfl⟩
    | _ => simp [push, past, openGroup]
  · cases ht with
    | opening hkind =>
      intro g hg
      rcases List.mem_cons.mp hg with rfl | hg
      · intro hattached
        exact h.named (Bool.and_eq_true_iff.mp hattached).2
      · exact h.attached g hg
    | closing hkind hgroups =>
      exact fun g hg => h.attached g (hgroups ▸ List.mem_cons_of_mem _ hg)
    | @comma inner groups hkind hgroups =>
      intro g hg
      rcases List.mem_cons.mp hg with rfl | hg
      · exact h.attached inner (hgroups ▸ List.mem_cons_self)
      · exact h.attached g (hgroups ▸ List.mem_cons_of_mem _ hg)
    | _ => exact h.attached

/-! ## §4. What is built, and what is still to come. -/

/-- The message that a group gives arguments to: the chain before it, and what it says. -/
def host (p : Parser) (g : OpenGroup) : List Message × Symbol :=
  match g.attached, g.outer with
  | true, m :: before => (before, m.symbol)
  | _, outer => (outer, .ident (p.groupName g.bracket))

theorem entries_closeGroup (p : Parser) (g : OpenGroup) (args : List Chain) (span : Span)
    (depth : Nat) :
    Chain.entries depth (p.closeGroup g args span).reverse
      = Chain.entries depth (p.host g).1.reverse
        ++ (depth, (p.host g).2, args.length) :: Message.argEntries (depth + 1) args := by
  cases hattached : g.attached with
  | false => simp [closeGroup, host, hattached, Chain.entries_singleton]
  | true =>
    cases houter : g.outer <;>
      simp [closeGroup, host, hattached, houter, Chain.entries_singleton]

/-- The listing of the open groups: of the chain around each of them, of the message that the group
belongs to, with the arguments that it will have, and of the arguments that are complete. -/
def openEntries (p : Parser) (rest : List Token) :
    Nat → List OpenGroup → List TokenGroup → List Entry
  | depth, g :: groups, tokens :: outer =>
      p.openEntries rest (depth + 1) groups outer
        ++ Chain.entries groups.length (p.host g).1.reverse
        ++ (groups.length, (p.host g).2, (tokens.readThrough depth rest).arity)
          :: Message.argEntries (groups.length + 1) g.args.reverse
  | _, _, _ => []

/-- The listing of the chain being built; its last message may be a name that gets arguments. -/
def latestEntries (p : Parser) (rest : List Token) : List Entry :=
  match p.callable, p.messages with
  | true, m :: before =>
      Chain.entries p.groups.length before.reverse ++ [(p.groups.length, m.symbol, callArity rest)]
  | _, messages => Chain.entries p.groups.length messages.reverse

/-- The listing up to the point that has been read. -/
def listing (p : Parser) (before rest : List Token) : List Entry :=
  p.openEntries rest 0 p.groups (unclosed before) ++ p.latestEntries rest

/-- What a token does to the depth of a place inside of some groups. -/
def depthAfter (t : Token) (depth : Nat) : Nat :=
  match t.kind with
  | .opening => depth + 2
  | .closing => depth
  | _ => depth + 1

/-- Groups around the innermost one wait for the same bracket as before. -/
theorem openEntries_cons (p : Parser) (t : Token) (rest : List Token) (depth : Nat)
    (groups : List OpenGroup) (outer : List TokenGroup) :
    p.openEntries (t :: rest) (depth + 1) groups outer
      = p.openEntries rest (depthAfter t depth) groups outer := by
  induction groups generalizing depth outer with
  | nil => simp [openEntries]
  | cons g groups ih =>
    cases outer with
    | nil => simp [openEntries]
    | cons tokens outer =>
      rw [openEntries, openEntries, ih, TokenGroup.readThrough]
      cases hkind : t.kind <;> simp [depthAfter, hkind]

/-- The parts of a parser that listings of open groups read. -/
theorem openEntries_congr (hsquare : q.square = p.square) (hcurly : q.curly = p.curly)
    (rest : List Token) (depth : Nat) (groups : List OpenGroup) (outer : List TokenGroup) :
    q.openEntries rest depth groups outer = p.openEntries rest depth groups outer := by
  have hhost : ∀ g, q.host g = p.host g := by
    intro g
    simp [host, groupName, hsquare, hcurly]
  induction groups generalizing depth outer with
  | nil => simp [openEntries]
  | cons g groups ih =>
    cases outer with
    | nil => simp [openEntries]
    | cons tokens outer => rw [openEntries, openEntries, ih, hhost]

/-- Behind a name that is not called, and behind anything else, the chain is listed as it is. -/
theorem Placed.latestEntries_eq (h : Placed before p) (hcall : callArity rest = 0) :
    p.latestEntries rest = Chain.entries p.groups.length p.messages.reverse := by
  unfold latestEntries
  split
  · rename_i m messages hcallable hmessages
    obtain ⟨name, span, messages', heq⟩ := h.named hcallable
    rw [hmessages] at heq
    cases heq
    simp [hmessages, hcall, Chain.entries_singleton]
  · rfl

theorem latestEntries_of_not_callable (h : p.callable = false) :
    p.latestEntries rest = Chain.entries p.groups.length p.messages.reverse := by
  unfold latestEntries
  rw [h]

theorem callArity_cons (hkind : t.kind ≠ .opening) : callArity (t :: rest) = 0 := by
  simp [callArity, hkind]

/-- A token that adds a message without a group, or nothing. -/
theorem Placed.listing_within (h : Placed before p) (hopening : t.kind ≠ .opening)
    (hclosing : t.kind ≠ .closing) (hgroups : q.groups = p.groups)
    (hsquare : q.square = p.square) (hcurly : q.curly = p.curly) {added : List Entry}
    (hlatest : q.latestEntries rest
      = Chain.entries p.groups.length p.messages.reverse ++ added) :
    q.listing (before ++ [t]) rest = p.listing before (t :: rest) ++ added := by
  have hafter := unclosed_within before hopening hclosing
  have hdepth : ∀ depth, depthAfter t depth = depth + 1 := by
    intro depth
    unfold depthAfter
    split <;> simp_all
  unfold listing
  rw [h.latestEntries_eq (callArity_cons hopening), hlatest, hgroups,
    openEntries_congr hsquare hcurly, hafter, ← List.append_assoc]
  congr 2
  cases p.groups with
  | nil => simp [openEntries]
  | cons g groups =>
    cases unclosed before with
    | nil => simp [openEntries]
    | cons tokens outer =>
      -- the innermost group gets the token, the others are not touched
      rw [List.modifyHead_cons, openEntries, openEntries, openEntries_cons, hdepth,
        TokenGroup.readThrough]
      split <;> simp_all

/-- A message that is pushed behind the chain, and that no group can belong to. -/
theorem latestEntries_push {symbol : Symbol} {span : Span} (h : p.callable = false) :
    (p.push symbol span).latestEntries rest
      = Chain.entries p.groups.length p.messages.reverse ++ [(p.groups.length, symbol, 0)] := by
  rw [latestEntries_of_not_callable (by simpa [push] using h)]
  simp [push, Message.ofSymbol, Chain.entries_singleton]

theorem Placed.length_groups (h : Placed before p) :
    p.groups.length = (unclosed before).length :=
  h.groups.length_eq

/-- The name of a group is the same in every larger table. -/
theorem Rooted.intern_eq (h : p.Rooted) (hv : names.Valid) (hext : p.names.Extends names) :
    (names.intern squareBrackets).1 = p.square ∧ (names.intern curlyBrackets).1 = p.curly := by
  rw [hv.intern_of_lookup? (hext _ _ h.square), hv.intern_of_lookup? (hext _ _ h.curly)]
  exact ⟨rfl, rfl⟩

/-- A bracket behind a name gives it arguments; any other one starts a message. -/
theorem Placed.listing_opening (h : Placed before p) (hkind : t.kind = .opening)
    (hv : names.Valid) (hext : p.names.Extends names) :
    ((p.past t).openGroup p.callable t.bracket t.span).listing (before ++ [t]) rest
      = p.listing before (t :: rest) ++ (t.entry? names before rest).toList := by
  have hnames := h.toRooted.intern_eq hv hext
  have hafter := unclosed_opening before hkind
  -- the groups that were open before are one level further out
  have houter : p.openEntries rest 1 p.groups ((unclosed before).modifyHead (·.take t))
      = p.openEntries (t :: rest) 0 p.groups (unclosed before) := by
    cases p.groups with
    | nil => simp [openEntries]
    | cons g groups =>
      cases unclosed before with
      | nil => simp [openEntries]
      | cons tokens outer =>
        rw [List.modifyHead_cons, openEntries, openEntries, openEntries_cons,
          TokenGroup.readThrough]
        simp [hkind, depthAfter]
  have harity : t.arity rest = t.groupArity rest := by simp [Token.arity, hkind]
  have hlisting : ((p.past t).openGroup p.callable t.bracket t.span).listing (before ++ [t]) rest
      = p.openEntries (t :: rest) 0 p.groups (unclosed before)
        ++ (Chain.entries p.groups.length
            (p.host ⟨t.bracket, t.span, t.bracket == '(' && p.callable, [], p.messages⟩).1.reverse
          ++ [(p.groups.length,
            (p.host ⟨t.bracket, t.span, t.bracket == '(' && p.callable, [], p.messages⟩).2,
            t.groupArity rest)]) := by
    rw [← houter, ← openEntries_congr (q := (p.past t).openGroup p.callable t.bracket t.span)
      (p := p) rfl rfl, listing, hafter]
    simp [openEntries, openGroup, latestEntries, past, host, groupName, Token.groupArity]
  rw [hlisting, listing, List.append_assoc]
  congr 1
  cases hattached : (t.bracket == '(' && p.callable) with
  | true =>
    -- the last message is the name that the group belongs to
    obtain ⟨hround, hcallable⟩ := Bool.and_eq_true_iff.mp hattached
    obtain ⟨name, span, messages, hmessages⟩ := h.named hcallable
    have hbracket : t.bracket = '(' := by simpa using hround
    have hprevious := h.callable.symm.trans hcallable
    simp [host, latestEntries, hcallable, hmessages, callArity, hkind, hbracket, Token.entry?,
      Token.symbol?, hprevious]
  | false =>
    have hcall : p.callable = true → ¬ t.bracket = '(' := by
      intro hcallable hbracket
      simp [hcallable, hbracket] at hattached
    have hlatest : p.latestEntries (t :: rest)
        = Chain.entries p.groups.length p.messages.reverse := by
      cases hcallable : p.callable with
      | false => exact latestEntries_of_not_callable hcallable
      | true => exact h.latestEntries_eq (by simp [callArity, hcall hcallable])
    have hsymbol : t.symbol? names before.getLast? = some (.ident (p.groupName t.bracket)) := by
      unfold Token.symbol? groupName
      rw [hkind, ← h.callable, hnames.1, hnames.2]
      by_cases hsquare : t.bracket = '['
      · simp [hsquare]
      by_cases hcurly : t.bracket = '{'
      · simp [hcurly]
      have hround : ¬(t.bracket = '(' ∧ p.callable = true) := fun hround =>
        hcall hround.2 hround.1
      simp [hsquare, hcurly, hround]
    rw [hlatest, Token.entry?, hsymbol]
    simp [host, harity, h.length_groups]

/-- A closing bracket completes the message that its group belongs to. -/
theorem Placed.listing_closing (h : Placed before p) {g : OpenGroup} {groups : List OpenGroup}
    (hkind : t.kind = .closing) (hgroups : p.groups = g :: groups)
    (hfull : p.messages = [] → g.args = []) :
    listing { p.past t with
        groups := groups, messages := p.closeGroup g (p.finished g) (g.span.merge t.span) }
      (before ++ [t]) rest = p.listing before (t :: rest) := by
  have hsame := h.groups
  rw [hgroups] at hsame
  obtain ⟨tokens, outer, hg, -, hunclosed⟩ := List.forall₂_cons_left_iff.mp hsame
  have hblank := h.messages tokens (by rw [hunclosed]; rfl)
  have hafter : unclosed (before ++ [t]) = outer := by
    rw [unclosed_closing _ hkind, hunclosed, List.tail_cons]
  have hnot : t.kind ≠ .opening := by simp [hkind]
  -- as many arguments as segments, and none in an empty group
  have harity : (p.finished g).length = tokens.arity := by
    have hended : tokens.ended = [] ↔ g.args = [] := by
      rw [← List.length_eq_zero_iff, ← hg.args, List.length_eq_zero_iff]
    simp only [finished, TokenGroup.arity, TokenGroup.segments, ← hblank, hended]
    cases hmessages : p.messages with
    | nil => simp [hfull hmessages]
    | cons m messages => simp [hg.args]
  have hargs : Message.argEntries (groups.length + 1) (p.finished g)
      = Message.argEntries (groups.length + 1) g.args.reverse
        ++ Chain.entries (groups.length + 1) p.messages.reverse := by
    unfold finished
    cases p.messages with
    | nil => simp
    | cons m messages => simp
  rw [listing, listing, h.latestEntries_eq (callArity_cons hnot),
    latestEntries_of_not_callable rfl, hafter, hgroups, hunclosed, openEntries, openEntries_cons,
    TokenGroup.readThrough]
  simp only [entries_closeGroup, harity, hargs, hkind, depthAfter, List.length_cons]
  rw [openEntries_congr (q := { p.past t with
    groups := groups, messages := p.closeGroup g (p.finished g) (g.span.merge t.span) })
    (p := p) rfl rfl]
  simp

/-- A comma completes an argument. -/
theorem Placed.listing_comma (h : Placed before p) {g : OpenGroup} {groups : List OpenGroup}
    (hkind : t.kind = .comma) (hgroups : p.groups = g :: groups) :
    listing { p.past t with
        groups := { g with args := p.messages.reverse :: g.args } :: groups, messages := [] }
      (before ++ [t]) rest = p.listing before (t :: rest) := by
  have hsame := h.groups
  rw [hgroups] at hsame
  obtain ⟨tokens, outer, -, -, hunclosed⟩ := List.forall₂_cons_left_iff.mp hsame
  have hafter : unclosed (before ++ [t]) = tokens.take t :: outer := by
    rw [unclosed_within _ (by simp [hkind]) (by simp [hkind]), hunclosed]
    rfl
  have hnot : t.kind ≠ .opening := by simp [hkind]
  rw [listing, listing, h.latestEntries_eq (callArity_cons hnot),
    latestEntries_of_not_callable rfl, hafter, hgroups, hunclosed, openEntries, openEntries,
    openEntries_cons, TokenGroup.readThrough]
  simp only [hkind, depthAfter]
  rw [openEntries_congr (q := { p.past t with
    groups := { g with args := p.messages.reverse :: g.args } :: groups, messages := [] })
    (p := p) rfl rfl]
  simp [host, groupName, past]

/-- **One token**: what it says is added to the listing. -/
theorem listing_step (h : Placed before p) (ht : Taken p t q) (hv : names.Valid)
    (hext : q.names.Extends names) :
    q.listing (before ++ [t]) rest
      = p.listing before (t :: rest) ++ (t.entry? names before rest).toList := by
  have hlength := h.length_groups
  have hstart := h.start
  cases ht with
  | absorbed hkind habsorbed =>
    have hnot : t.kind ≠ .opening := by simp [hkind]
    rw [habsorbed] at hstart
    refine h.listing_within hnot (by simp [hkind]) (by rfl) (by rfl) (by rfl) ?_
    rw [latestEntries_of_not_callable rfl]
    simp [Token.entry?, Token.symbol?, hkind, ← Bool.not_eq_true', ← hstart, past]
  | separator hkind hseparator =>
    have hnot : t.kind ≠ .opening := by simp [hkind]
    refine h.listing_within hnot (by simp [hkind]) (by rfl) (by rfl) (by rfl) ?_
    rw [latestEntries_push rfl]
    simp_all [Token.entry?, Token.symbol?, Token.arity, past]
  | name hkind =>
    have hnot : t.kind ≠ .opening := by simp [hkind]
    refine h.listing_within hnot (by simp [hkind]) (by rfl) (by rfl) (by rfl) ?_
    have hname := hv.intern_of_lookup? (hext _ _ (Interner.lookup?_intern _ t.value))
    simp [latestEntries, push, Token.entry?, Token.symbol?, Token.arity, hkind, hname, hlength,
      Message.ofSymbol, past]
  | literal hkind hvalue =>
    refine h.listing_within (TokenKind.ne_of_isLiteral hkind rfl)
      (TokenKind.ne_of_isLiteral hkind rfl) (by rfl) (by rfl) (by rfl) ?_
    rw [latestEntries_push rfl]
    have hsymbol : t.symbol? names before.getLast? = t.literal? ∧ t.arity rest = 0 := by
      revert hkind
      cases hkind' : t.kind <;> simp [TokenKind.isLiteral, Token.symbol?, Token.arity, hkind']
    simp [Token.entry?, hsymbol, hvalue, hlength, past]
  | opening hkind => exact h.listing_opening hkind hv hext
  | closing hkind hgroups hfit hfull =>
    rw [h.listing_closing hkind hgroups hfull]
    simp [Token.entry?, Token.symbol?, hkind]
  | comma hkind hgroups =>
    rw [h.listing_comma hkind hgroups]
    simp [Token.entry?, Token.symbol?, hkind]

/-! ## §5. Whole programs. -/

/-- **A run**: the listing of the result is what was built before, and what the tokens say. -/
theorem Placed.run (h : Placed before p) {c : Option Chain}
    (hresult : (p.run rest).result = .ok c) :
    Chain.entries 0 (c.getD [])
      = p.listing before rest ++ readOff (p.run rest).names before rest := by
  induction rest generalizing before p with
  | nil =>
    have hgroups : p.groups = [] := by
      cases hgroups : p.groups with
      | nil => rfl
      | cons g groups => simp [Parser.run, Parser.result, hgroups] at hresult
    have hc : c.getD [] = p.messages.reverse := by
      simp only [Parser.run, Parser.result, hgroups, Except.ok.injEq] at hresult
      subst hresult
      cases p.messages <;> simp
    rw [listing, h.latestEntries_eq rfl, hc, hgroups]
    simp [openEntries, readOff]
  | cons t rest ih =>
    have hvalid := h.toRooted.run (t :: rest)
    rw [Parser.run] at hresult hvalid ⊢
    split at hresult
    · rename_i q hstep
      simp only [hstep] at hvalid ⊢
      have htaken := step_eq_ok_iff.mp hstep
      have hq := h.step htaken
      rw [ih hq hresult, readOff, listing_step h htaken hvalid.1 (hq.toRooted.run rest).2,
        List.append_assoc]
    · cases hresult

end Parser

/-- **The parser loses, doubles and moves nothing.**  With any table that a program can have, the
listing of a program is read off its tokens one by one, each message with as many arguments as its
group has segments. -/
theorem entries_parseTokens (texts : List String) (tokens : List Token) (c : Option Chain)
    (h : (parseTokens (Interner.new.internAll texts) tokens).result = .ok c) :
    Chain.entries 0 (c.getD [])
      = readOff (parseTokens (Interner.new.internAll texts) tokens).names [] tokens :=
  (Parser.placed_new (Interner.valid_internAll texts)).run h

/-- The tokens of `;f(1,[a;];;)(b)`. -/
def bracketedCall : List Token :=
  [.ofKind .separator ";" ⟨0, 1⟩, .ofKind .identifier "f" ⟨1, 2⟩, .ofKind .opening "(" ⟨2, 3⟩,
    .ofKind .number "1" ⟨3, 4⟩, .ofKind .comma "," ⟨4, 5⟩, .ofKind .opening "[" ⟨5, 6⟩,
    .ofKind .identifier "a" ⟨6, 7⟩, .ofKind .separator ";" ⟨7, 8⟩, .ofKind .closing "]" ⟨8, 9⟩,
    .ofKind .separator ";" ⟨9, 10⟩, .ofKind .separator ";" ⟨10, 11⟩,
    .ofKind .closing ")" ⟨11, 12⟩, .ofKind .opening "(" ⟨12, 13⟩,
    .ofKind .identifier "b" ⟨13, 14⟩, .ofKind .closing ")" ⟨14, 15⟩]

theorem entries_parseTokens_bracketedCall :
    ∃ c, (parseTokens (Interner.new.internAll []) bracketedCall).result = .ok c
      ∧ Chain.entries 0 (c.getD [])
        = [(0, .ident ⟨3⟩, 2), (1, .number (.ofNat 1), 0), (1, .ident ⟨1⟩, 1), (2, .ident ⟨4⟩, 0),
          (2, .separator .semicolon, 0), (1, .separator .semicolon, 0), (0, .ident ⟨0⟩, 1),
          (1, .ident ⟨5⟩, 0)] := by
  cases hresult : (parseTokens (Interner.new.internAll []) bracketedCall).result with
  | error e =>
    have hok : (parseTokens (Interner.new.internAll []) bracketedCall).result.toBool = true := by
      decide +kernel
    rw [hresult] at hok
    cases hok
  | ok c =>
    refine ⟨c, rfl, ?_⟩
    rw [entries_parseTokens [] bracketedCall c hresult]
    decide +kernel

end Prototalk
