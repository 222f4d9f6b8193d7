/-
  Prototalk.Proofs.Message.Respelling
  ────────────────────────────────
  **THE TOKENS OF A MESSAGE READ AS THE MESSAGE.**

  Some tokens read as a message if a parser that meets tokens of the same
  classes and texts adds the message, wherever it meets them
  (`Parser.Rereads`): a group in parentheses must not follow a callable name,
  and a separator must not start a statement, and that is all that matters of
  what was read before.

  The argument follows the spelling, whatever it is that spells a message:

    • `Parser.reads_level`, `Parser.reads_arguments`, `Parser.reads_brackets`
      — chains, arguments and groups of messages that are read so,
    • `Parser.rereads_call`, `Parser.rereads_group` — messages with arguments,
    • `Parser.rereads_of_spelled` — messages that are spelled by their tokens.

  Main statement: `parses_of_level`.
-/
import Prototalk.Proofs.Message.Spelling

namespace Prototalk

/-! ## §1. Sameness. -/

namespace Chain

theorem same_append {a b c d : Chain} (hab : Chain.same a b = true) (hcd : Chain.same c d = true) :
    Chain.same (a ++ c) (b ++ d) = true := by
  induction a generalizing b with
  | nil =>
    cases b with
    | nil => exact hcd
    | cons n b => cases hab
  | cons m a ih =>
    cases b with
    | nil => cases hab
    | cons n b =>
      simp only [Chain.same, Bool.and_eq_true] at hab
      simp only [List.cons_append, Chain.same, Bool.and_eq_true]
      exact ⟨hab.1, ih hab.2⟩

theorem same_singleton {m n : Message} (h : m.same n = true) : Chain.same [m] [n] = true := by
  simp [Chain.same, h]

theorem ne_nil_of_same {a b : Chain} (h : Chain.same a b = true) (hb : b ≠ []) : a ≠ [] := by
  rintro rfl
  cases b with
  | nil => exact hb rfl
  | cons n b => cases h

end Chain

namespace Message

theorem isSeparator_of_same {m n : Message} (h : m.same n = true) :
    m.isSeparator = n.isSeparator := by
  obtain ⟨symbol, args, span⟩ := m
  obtain ⟨symbol', args', span'⟩ := n
  simp only [Message.same, Bool.and_eq_true] at h
  cases symbol <;> cases symbol' <;> first | rfl | cases h.1

theorem same_iff {symbol symbol' : Symbol} {args args' : List Chain} {span span' : Span} :
    Message.same ⟨symbol, args, span⟩ ⟨symbol', args', span'⟩ = true
      ↔ symbol.same symbol' = true ∧ Message.sameArgs args args' = true := by
  rw [Message.same, Bool.and_eq_true]

theorem sameArgs_append {as bs cs ds : List Chain} (hab : sameArgs as bs = true)
    (hcd : sameArgs cs ds = true) : sameArgs (as ++ cs) (bs ++ ds) = true := by
  induction as generalizing bs with
  | nil =>
    cases bs with
    | nil => exact hcd
    | cons b bs => cases hab
  | cons a as ih =>
    cases bs with
    | nil => cases hab
    | cons b bs =>
      simp only [sameArgs, Bool.and_eq_true] at hab
      simp only [List.cons_append, sameArgs, Bool.and_eq_true]
      exact ⟨hab.1, ih hab.2⟩

theorem ne_nil_of_sameArgs {as bs : List Chain} (h : sameArgs as bs = true)
    (hbs : bs ≠ []) : as ≠ [] := by
  rintro rfl
  cases bs with
  | nil => exact hbs rfl
  | cons b bs => cases h

end Message

/-! ## §2. Tokens of the same class and text. -/

namespace Token

variable {t u : Token}

theorem kind_eq_of_key (h : t.key = u.key) : t.kind = u.kind := congrArg Prod.fst h

theorem value_eq_of_key (h : t.key = u.key) : t.value = u.value :=
  String.toList_inj.mp (congrArg Prod.snd h)

theorem firstChar?_eq_of_key (h : t.key = u.key) : t.firstChar? = u.firstChar? := by
  rw [firstChar?, firstChar?, value_eq_of_key h]

theorem bracket_eq_of_key (h : t.key = u.key) : t.bracket = u.bracket := by
  rw [bracket, bracket, bracket?, bracket?, kind_eq_of_key h, firstChar?_eq_of_key h]

theorem literal?_eq_of_key (h : t.key = u.key) : t.literal? = u.literal? := by
  rw [literal?, literal?, kind_eq_of_key h, value_eq_of_key h]

/-- A literal stands for a value that is the same as itself. -/
theorem same_of_literal? {symbol : Symbol} (hshape : Lexer.Shaped t.key)
    (h : t.literal? = some symbol) : symbol.same symbol = true := by
  unfold literal? at h
  unfold key at hshape
  have hok : ∀ {α : Type} {x : α} {value : Except ParseFault α}, value.toOption = some x →
      value = .ok x := by
    intro α x value hvalue
    cases value with
    | ok y => exact congrArg _ (Option.some.inj hvalue)
    | error e => cases hvalue
  cases hkind : t.kind with
  | number =>
    simp only [hkind] at h hshape
    obtain ⟨x, hx, rfl⟩ := Option.map_eq_some_iff.mp h
    simp [Symbol.same, Binary64.sameValue, (Literal.plain_number hshape (hok hx)).1]
  | hexNumber =>
    simp only [hkind] at h hshape
    obtain ⟨x, hx, rfl⟩ := Option.map_eq_some_iff.mp h
    simp [Symbol.same, Binary64.sameValue, (Literal.plain_hexNumber hshape (hok hx)).1]
  | string | triQuote =>
    simp only [hkind] at h
    obtain ⟨s, -, rfl⟩ := Option.map_eq_some_iff.mp h
    simp [Symbol.same]
  | separator | identifier | opening | closing | comma | malformed =>
    simp only [hkind] at h
    cases h

end Token

namespace Parser

variable {names : Interner} {p q : Parser} {Q R : Parser → Prop} {tokens : List Token} {t : Token}
  {keys keys' : List (TokenKind × List Char)} {messages : List Message} {m : Message}
  {args : List Chain}

/-! ## §3. Reading tokens, wherever they stand. -/

/-- The parser takes tokens of these classes and texts, and `Q` holds behind the last one. -/
def Reads (Q : Parser → Prop) : Parser → List (TokenKind × List Char) → Prop
  | p, [] => Q p
  | p, key :: keys => ∀ t : Token, t.key = key → ∃ q, p.step t = .ok q ∧ Reads Q q keys

theorem Reads.imp (h : Reads Q p keys) (hQ : ∀ q, Q q → R q) : Reads R p keys := by
  induction keys generalizing p with
  | nil => exact hQ p h
  | cons key keys ih =>
    intro t ht
    obtain ⟨q, hstep, hq⟩ := h t ht
    exact ⟨q, hstep, ih hq⟩

theorem reads_append (h : Reads (fun q => Reads Q q keys') p keys) :
    Reads Q p (keys ++ keys') := by
  induction keys generalizing p with
  | nil => exact h
  | cons key keys ih =>
    intro t ht
    obtain ⟨q, hstep, hq⟩ := h t ht
    exact ⟨q, hstep, ih hq⟩

theorem Reads.run {tokens : List Token} (h : Reads Q p keys)
    (htokens : tokens.map Token.key = keys) :
    ∃ q, p.run tokens = ⟨q.result, q.names, []⟩ ∧ Q q := by
  induction tokens generalizing p keys with
  | nil =>
    obtain rfl : keys = [] := by simpa using htokens.symm
    exact ⟨p, rfl, h⟩
  | cons t tokens ih =>
    obtain rfl : keys = t.key :: tokens.map Token.key := htokens.symm
    obtain ⟨q, hstep, hq⟩ := h t rfl
    rw [Parser.run, hstep]
    exact ih hq rfl

theorem reads_cons (h : ∀ u : Token, u.key = t.key → ∃ q, Taken p u q
    ∧ Reads Q q (tokens.map Token.key)) : Reads Q p ((t :: tokens).map Token.key) := by
  intro u hu
  obtain ⟨q, hq, hreads⟩ := h u hu
  exact ⟨q, step_eq_ok_iff.mpr hq, hreads⟩

/-- The table of the parser has every name of `names`. -/
structure Knows (names : Interner) (p : Parser) : Prop extends Rooted p where
  known : names.Extends p.names

/-- What a parser knows depends on its table only. -/
theorem Knows.of_eq (h : p.Knows names) (hnames : q.names = p.names)
    (hsquare : q.square = p.square) (hcurly : q.curly = p.curly) : q.Knows names := by
  refine ⟨⟨?_, ?_, ?_⟩, ?_⟩
  · exact hnames ▸ h.valid
  · exact hnames ▸ hsquare ▸ h.square
  · exact hnames ▸ hcurly ▸ h.curly
  · exact hnames ▸ h.known

theorem Knows.intern (h : p.Knows names) {name : Name} {text : String}
    (hname : names.lookup? name = some text) : p.names.intern text = (name, p.names) :=
  h.valid.intern_of_lookup? (h.known _ _ hname)

/-- `q` is `p` behind the messages of one more chain, up to their places. -/
structure Adds (names : Interner) (added : Chain) (p q : Parser) : Prop where
  knows : q.Knows names
  groups : q.groups = p.groups
  messages : ∃ c : Chain, Chain.same c added = true ∧ q.messages = c.reverse ++ p.messages

theorem Adds.trans {r : Parser} {c d : Chain} (h : Adds names c p q) (h' : Adds names d q r) :
    Adds names (c ++ d) p r := by
  obtain ⟨c', hc, hq⟩ := h.messages
  obtain ⟨d', hd, hr⟩ := h'.messages
  refine ⟨h'.knows, h'.groups.trans h.groups, c' ++ d', Chain.same_append hc hd, ?_⟩
  rw [hr, hq, List.reverse_append, List.append_assoc]

theorem Adds.message {m : Message} (h : Adds names [m] p q) :
    ∃ m', m'.same m = true ∧ q.messages = m' :: p.messages := by
  obtain ⟨c, hc, hq⟩ := h.messages
  match c with
  | [] => cases hc
  | [m'] =>
    refine ⟨m', ?_, hq⟩
    simpa [Chain.same] using hc
  | m' :: n :: c => simp [Chain.same] at hc

/-- Behind a message a separator starts a statement if the message is a separator. -/
theorem Adds.atStatementStart {m : Message} (h : Adds names [m] p q) :
    q.atStatementStart = m.isSeparator := by
  obtain ⟨m', hsame, hq⟩ := h.message
  unfold Parser.atStatementStart
  rw [hq]
  exact Message.isSeparator_of_same hsame

/-- A token that adds the message `m` without arguments. -/
theorem adds_push (hp : p.Knows names) {symbol : Symbol} {m : Message} {span : Span}
    (hsame : (Message.ofSymbol symbol span).same m = true) (callable : Bool) (stop : Nat) :
    Adds names [m] p ({ p with callable := callable, lastStop := stop }.push symbol span) :=
  ⟨hp.of_eq rfl rfl rfl, rfl, _, Chain.same_singleton hsame, rfl⟩

/-! ## §4. Chains and arguments. -/

/-- Wherever tokens like these are read, they add the message `m`. -/
def Rereads (names : Interner) (tokens : List Token) (m : Message) : Prop :=
  ∀ p : Parser, p.Knows names → (startsRound tokens = true → p.callable = false) →
    (m.isSeparator = true → p.atStatementStart = false) →
    Reads (fun q => Adds names [m] p q ∧ q.callable = endsInIdentifier tokens) p
      (tokens.map Token.key)

/-- `q` is `p` behind a chain that these tokens spell. -/
structure Behind (names : Interner) (tokens : List Token) (messages : List Message)
    (p q : Parser) : Prop where
  adds : Adds names messages.reverse p q
  callable : q.callable = endsInIdentifier tokens
  start : q.atStatementStart = startsStatement messages

/-- **A chain**, at the start of a group or of the input. -/
theorem reads_level (h : Level (Rereads names) tokens messages) (hp : p.Knows names)
    (hcall : p.callable = false) (hnil : p.messages = []) :
    Reads (Behind names tokens messages p) p (tokens.map Token.key) := by
  induction h with
  | nil =>
    refine ⟨⟨hp, rfl, [], rfl, rfl⟩, hcall, ?_⟩
    rw [atStatementStart, hnil]
    rfl
  | @absorbed tokens messages t h hkind hstart ih =>
    rw [List.map_append]
    refine reads_append (ih.imp fun q hq => reads_cons fun u hu => ?_)
    refine ⟨q.past u, .absorbed ((Token.kind_eq_of_key hu).trans hkind) (hq.start.trans hstart), ?_⟩
    refine ⟨⟨hq.adds.knows.of_eq rfl rfl rfl, hq.adds.groups, hq.adds.messages⟩, ?_, hq.start⟩
    simp [past, hkind]
  | @message tokens more messages m h hm hmore hsep hround ih =>
    rw [List.map_append]
    refine reads_append (ih.imp fun q hq => ?_)
    have hread := hm q hq.adds.knows (fun h => hq.callable.trans (hround h))
      fun h => hq.start.trans (hsep h)
    refine hread.imp ?_
    rintro r ⟨hr, hrcall⟩
    refine ⟨?_, ?_, hr.atStatementStart⟩
    · rw [List.reverse_cons]
      exact hq.adds.trans hr
    · rw [hrcall, endsInIdentifier_append _ hmore]

/-- The arguments of a group have been read, the last one of them as the chain in it. -/
def Filled (names : Interner) (args : List Chain) (g : OpenGroup) (groups : List OpenGroup)
    (q : Parser) : Prop :=
  q.Knows names ∧ ∃ done, q.groups = { g with args := done } :: groups
    ∧ Message.sameArgs (q.finished { g with args := done }) args = true
    ∧ (q.messages = [] → done = [])

theorem Behind.messages_eq (h : Behind names tokens messages p q) (hnil : p.messages = []) :
    Chain.same q.messages.reverse messages.reverse = true := by
  obtain ⟨c, hsame, hmessages⟩ := h.adds.messages
  rw [hmessages, hnil, List.append_nil, List.reverse_reverse]
  exact hsame

/-- **Arguments.** -/
theorem reads_arguments (h : Arguments (Rereads names) tokens args) (hp : p.Knows names)
    (hcall : p.callable = false) (hnil : p.messages = []) {g : OpenGroup}
    {groups : List OpenGroup} (hgroups : p.groups = g :: groups) (hnone : g.args = []) :
    Reads (Filled names args g groups) p (tokens.map Token.key) := by
  obtain ⟨bracket, span, attached, done, outer⟩ := g
  obtain rfl : done = [] := hnone
  induction h with
  | none h =>
    refine (reads_level h hp hcall hnil).imp fun q hq => ?_
    have hempty : q.messages = [] := by
      cases hmessages : q.messages.reverse with
      | nil => simpa using hmessages
      | cons m c =>
        have hsame := hq.messages_eq hnil
        rw [hmessages] at hsame
        cases hsame
    refine ⟨hq.adds.knows, [], hq.adds.groups.trans hgroups, ?_, fun _ => rfl⟩
    simp [finished, hempty, Message.sameArgs]
  | @one tokens messages h hne =>
    refine (reads_level h hp hcall hnil).imp fun q hq => ?_
    have hsame := hq.messages_eq hnil
    have hsome : q.messages ≠ [] := by
      simpa using Chain.ne_nil_of_same hsame (by simpa using hne)
    refine ⟨hq.adds.knows, [], hq.adds.groups.trans hgroups, ?_, fun hempty => absurd hempty hsome⟩
    simp [finished, hsome, Message.sameArgs, hsame]
  | @more tokens last t args messages hargs hsome hkind h hne ih =>
    rw [List.map_append]
    refine reads_append (ih.imp ?_)
    rintro q ⟨hq, done, hqgroups, hsame, hfull⟩
    -- there is an argument before the comma
    have hqsome : q.messages ≠ [] := by
      intro hempty
      refine Message.ne_nil_of_sameArgs hsame hsome ?_
      simp [finished, hempty, hfull hempty]
    refine reads_cons fun u hu => ?_
    refine ⟨_, .comma ((Token.kind_eq_of_key hu).trans hkind) hqgroups hqsome, ?_⟩
    refine Reads.imp (reads_level h ?_ rfl rfl) fun r hr => ?_
    · exact hq.of_eq rfl rfl rfl
    have hrsame := hr.messages_eq rfl
    have hrsome : r.messages ≠ [] := by
      simpa using Chain.ne_nil_of_same hrsame (by simpa using hne)
    refine ⟨hr.adds.knows, q.messages.reverse :: done, hr.adds.groups, ?_,
      fun hempty => absurd hempty hrsome⟩
    have hlast : Message.sameArgs [r.messages.reverse] [messages.reverse] = true := by
      simp [Message.sameArgs, hrsame]
    have hfinished := Message.sameArgs_append hsame hlast
    simpa [finished, hqsome, hrsome] using hfinished

/-- **A group.**  Behind it the chain around it has got the arguments. -/
theorem reads_brackets {first last : Token} (h : Arguments (Rereads names) tokens args)
    (hopening : first.kind = .opening) (hclosing : last.kind = .closing)
    (hfit : last.bracket = closerOf first.bracket) (hp : p.Knows names) :
    Reads (fun q => q.Knows names ∧ q.callable = false ∧ q.groups = p.groups
        ∧ ∃ (r : Parser) (g : OpenGroup) (args' : List Chain) (span : Span), r.Knows names
          ∧ g.bracket = first.bracket ∧ g.attached = (first.bracket == '(' && p.callable)
          ∧ g.outer = p.messages ∧ Message.sameArgs args' args = true
          ∧ q.messages = r.closeGroup g args' span)
      p ((first :: (tokens ++ [last])).map Token.key) := by
  refine reads_cons fun t ht => ⟨_, .opening ((Token.kind_eq_of_key ht).trans hopening), ?_⟩
  have hbracket := Token.bracket_eq_of_key ht
  rw [List.map_append]
  refine reads_append (Reads.imp (reads_arguments h ?_ rfl rfl rfl rfl) ?_)
  · exact hp.of_eq rfl rfl rfl
  rintro q ⟨hq, done, hgroups, hsame, hfull⟩
  refine reads_cons fun u hu => ?_
  have hfit' : u.bracket = closerOf t.bracket := by
    rw [Token.bracket_eq_of_key hu, hfit, hbracket]
  refine ⟨_, .closing ((Token.kind_eq_of_key hu).trans hclosing) hgroups hfit' hfull,
    hq.of_eq rfl rfl rfl, rfl, rfl, q, _, _, _, hq, hbracket, ?_, rfl, hsame, rfl⟩
  rw [hbracket]

/-! ## §5. Messages. -/

/-- A token that is a message. -/
theorem rereads_singleton {symbol : Symbol} {span : Span} (hsame : symbol.same symbol = true)
    (htaken : ∀ (p : Parser) (u : Token), p.Knows names → u.key = t.key →
      ((Message.ofSymbol symbol span).isSeparator = true → p.atStatementStart = false) →
      Taken p u
        ({ p.past u with callable := decide (t.kind = TokenKind.identifier) }.push symbol u.span)) :
    Rereads names [t] ⟨symbol, [], span⟩ := by
  intro p hp _ hsep
  refine reads_cons fun u hu => ⟨_, htaken p u hp hu hsep, ?_⟩
  exact ⟨adds_push hp (Message.same_iff.mpr ⟨hsame, rfl⟩) _ _, by simp [push, endsInIdentifier]⟩

/-- A name that no group behind it gives arguments to. -/
theorem rereads_name {n : Name} {span : Span} (hkind : t.kind = .identifier)
    (hname : names.lookup? n = some t.value) : Rereads names [t] ⟨.ident n, [], span⟩ := by
  refine rereads_singleton (by simp [Symbol.same]) fun p u hp hu _ => ?_
  have htaken : Taken p u _ := .name ((Token.kind_eq_of_key hu).trans hkind)
  rw [Token.value_eq_of_key hu, hp.intern hname] at htaken
  simpa [hkind, past] using htaken

theorem rereads_literal {symbol : Symbol} {span : Span} (hkind : t.kind.isLiteral = true)
    (hvalue : t.literal? = some symbol) (hsame : symbol.same symbol = true) :
    Rereads names [t] ⟨symbol, [], span⟩ := by
  have hnot : t.kind ≠ .identifier := TokenKind.ne_of_isLiteral hkind rfl
  refine rereads_singleton hsame fun p u hp hu _ => ?_
  have hkind' : u.kind.isLiteral = true := by rw [Token.kind_eq_of_key hu, hkind]
  simpa [hnot, past] using Taken.literal hkind' ((Token.literal?_eq_of_key hu).trans hvalue)

theorem rereads_separator {span : Span} (hkind : t.kind = .separator) :
    Rereads names [t] ⟨.separator (.ofChar (t.firstChar?.getD '\n')), [], span⟩ := by
  refine rereads_singleton (by simp [Symbol.same]) fun p u hp hu hsep => ?_
  have htaken := Taken.separator ((Token.kind_eq_of_key hu).trans hkind) (hsep rfl)
  rw [Token.firstChar?_eq_of_key hu] at htaken
  simpa [hkind, past] using htaken

/-- A name that is given arguments by the group behind it. -/
theorem rereads_call {first last : Token} {n : Name} {span : Span} (hkind : t.kind = .identifier)
    (hname : names.lookup? n = some t.value) (hopening : first.kind = .opening)
    (hround : first.bracket = '(') (hclosing : last.kind = .closing)
    (hfit : last.bracket = closerOf first.bracket) (hargs : Arguments (Rereads names) tokens args) :
    Rereads names (t :: first :: (tokens ++ [last])) ⟨.ident n, args, span⟩ := by
  rintro p hp - -
  have hends : endsInIdentifier (t :: first :: (tokens ++ [last])) = false := by
    have hlast := endsInIdentifier_append_singleton (t :: first :: tokens) last
    simpa [hclosing] using hlast
  refine reads_cons fun u hu => ⟨_, .name ((Token.kind_eq_of_key hu).trans hkind), ?_⟩
  have hintern : p.names.intern u.value = (n, p.names) := by
    rw [Token.value_eq_of_key hu]
    exact hp.intern hname
  rw [hintern, hends]
  refine Reads.imp (reads_brackets hargs hopening hclosing hfit ?_) ?_
  · exact hp.of_eq rfl rfl rfl
  rintro q ⟨hq, hqcall, hgroups, r, g, args', place, -, -, hattached, houter, hsame, hmessages⟩
  refine ⟨⟨hq, hgroups, [⟨.ident n, args', u.span.merge place⟩], ?_, ?_⟩, hqcall⟩
  · exact Chain.same_singleton (Message.same_iff.mpr ⟨by simp [Symbol.same], hsame⟩)
  · rw [hmessages, closeGroup, hattached, hround, houter]
    rfl

/-- A group that is a message. -/
theorem rereads_group {first last : Token} {n : Name} {span : Span}
    (hopening : first.kind = .opening) (hclosing : last.kind = .closing)
    (hfit : last.bracket = closerOf first.bracket)
    (hname : names.lookup? n = some (groupText first.bracket))
    (hargs : Arguments (Rereads names) tokens args) :
    Rereads names (first :: (tokens ++ [last])) ⟨.ident n, args, span⟩ := by
  rintro p hp hround -
  have hends : endsInIdentifier (first :: (tokens ++ [last])) = false := by
    have hlast := endsInIdentifier_append_singleton (first :: tokens) last
    simpa [hclosing] using hlast
  have hfree : (first.bracket == '(' && p.callable) = false := by
    simp only [startsRound] at hround
    cases hbracket : (first.bracket == '(') <;> simp_all
  rw [hends]
  refine (reads_brackets hargs hopening hclosing hfit hp).imp ?_
  rintro q ⟨hq, hqcall, hgroups, r, g, args', place, hr, hbracket, hattached, houter, hsame,
    hmessages⟩
  -- the text of a group has one name
  have hgroup : r.groupName first.bracket = n :=
    hr.valid.name_inj (hr.known _ _ hname) (hr.toRooted.lookup?_groupName first.bracket)
  refine ⟨⟨hq, hgroups, [⟨.ident n, args', place⟩], ?_, ?_⟩, hqcall⟩
  · exact Chain.same_singleton (Message.same_iff.mpr ⟨by simp [Symbol.same], hsame⟩)
  · rw [hmessages, closeGroup, hattached, hfree, hbracket, houter, hgroup]
    rfl

/-- **The tokens that spell a message read as the message.** -/
theorem rereads_of_spelled (h : m.Spelled names tokens) : Rereads names tokens m := by
  induction m using Message.induction generalizing tokens with
  | step symbol args span ih =>
    cases h with
    | name hkind hname => exact rereads_name hkind hname
    | literal hkind hvalue hshape =>
      exact rereads_literal hkind hvalue (Token.same_of_literal? hshape hvalue)
    | separator hkind => exact rereads_separator hkind
    | call hkind hname hopening hround hclosing hfit hargs =>
      exact rereads_call hkind hname hopening hround hclosing hfit
        (hargs.mono fun a ha m hm more => ih a ha m hm)
    | group hopening hclosing hfit hname hargs =>
      exact rereads_group hopening hclosing hfit hname
        (hargs.mono fun a ha m hm more => ih a ha m hm)

end Parser

/-- **Tokens like those of a chain parse as the chain.** -/
theorem parses_of_level {names : Interner} (hv : names.Valid) {tokens again : List Token}
    {messages : List Message} (h : Level (Parser.Rereads names) tokens messages)
    (hne : messages ≠ []) (hkeys : again.map Token.key = tokens.map Token.key) :
    ∃ c, (parseTokens names again).result = .ok (some c)
      ∧ Chain.same c messages.reverse = true := by
  have hnew : (Parser.new names).Knows names := ⟨Parser.rooted_new hv, Parser.extends_new names⟩
  obtain ⟨q, hrun, hq⟩ := (Parser.reads_level h hnew rfl rfl).run hkeys
  have hsame := hq.messages_eq rfl
  have hsome : q.messages ≠ [] := by
    simpa using Chain.ne_nil_of_same hsame (by simpa using hne)
  refine ⟨q.messages.reverse, ?_, hsame⟩
  have hgroups : q.groups = [] := hq.adds.groups
  rw [parseTokens, hrun]
  simp [Parser.result, hgroups, hsome]

end Prototalk
