/-
  Prototalk.Proofs.Message.Spelling
  ────────────────────────────────
  **WHICH TOKENS A MESSAGE IS MADE OF.**

  `Message.Spelled tokens m` says that `m` is what `tokens` stand for, from
  the first to the last of them; `Level` and `Arguments` put messages
  together to chains and chains to arguments, whatever it is that spells a
  message.

    • Between two tokens the parser has, for each open group, the tokens of
      the chain around it, of its complete arguments and of the chain in it
      (`Nested`), and each token keeps it so (`Nested.step`);
    • so every chain that is parsed is spelled by its tokens
      (`level_of_parseTokens`).
-/
import Prototalk.Proofs.Message.Listing

namespace Prototalk

/-! ## §1. Messages, chains and arguments. -/

/-- Whether the last token is an identifier, which a group behind it would give arguments. -/
def endsInIdentifier (tokens : List Token) : Bool := tokens.getLast?.any (·.kind = .identifier)

/-- Whether the tokens start with a group that an identifier before it would get as arguments. -/
def startsRound (tokens : List Token) : Bool :=
  tokens.head?.any fun t => t.kind = .opening && t.bracket == '('

/-- Whether a separator behind these messages, last one first, would start a statement. -/
def startsStatement : List Message → Bool
  | [] => true
  | m :: _ => m.isSeparator

/-- The tokens of a chain in the making, whose messages stand last one first.  `M` says which tokens
spell a message. -/
inductive Level (M : List Token → Message → Prop) : List Token → List Message → Prop where
  | nil : Level M [] []
  | absorbed {tokens : List Token} {messages : List Message} {t : Token}
      (h : Level M tokens messages) (hkind : t.kind = .separator)
      (hstart : startsStatement messages = true) : Level M (tokens ++ [t]) messages
  | message {tokens more : List Token} {messages : List Message} {m : Message}
      (h : Level M tokens messages) (hm : M more m) (hmore : more ≠ [])
      (hsep : m.isSeparator = true → startsStatement messages = false)
      (hround : startsRound more = true → endsInIdentifier tokens = false) :
      Level M (tokens ++ more) (m :: messages)

/-- The tokens of the arguments of a group. -/
inductive Arguments (M : List Token → Message → Prop) :
    List Token → List (List Message) → Prop where
  | none {tokens : List Token} (h : Level M tokens []) : Arguments M tokens []
  | one {tokens : List Token} {messages : List Message} (h : Level M tokens messages)
      (hne : messages ≠ []) : Arguments M tokens [messages.reverse]
  | more {tokens last : List Token} {t : Token} {args : List (List Message)}
      {messages : List Message} (hargs : Arguments M tokens args) (hsome : args ≠ [])
      (hkind : t.kind = .comma) (h : Level M last messages) (hne : messages ≠ []) :
      Arguments M (tokens ++ t :: last) (args ++ [messages.reverse])

/-- What a group of its own says. -/
def groupText (bracket : Char) : String :=
  if bracket == '[' then squareBrackets else if bracket == '{' then curlyBrackets else ""

/-- The tokens of a message. -/
inductive Message.Spelled (names : Interner) : List Token → Message → Prop where
  | name {t : Token} {n : Name} (hkind : t.kind = .identifier)
      (hname : names.lookup? n = some t.value) : Message.Spelled names [t] ⟨.ident n, [], t.span⟩
  | literal {t : Token} {symbol : Symbol} (hkind : t.kind.isLiteral = true)
      (hvalue : t.literal? = some symbol) (hshape : Lexer.Shaped t.key) :
      Message.Spelled names [t] ⟨symbol, [], t.span⟩
  | separator {t : Token} (hkind : t.kind = .separator) :
      Message.Spelled names [t] ⟨.separator (.ofChar (t.firstChar?.getD '\n')), [], t.span⟩
  | call {t first last : Token} {inner : List Token} {n : Name} {args : List (List Message)}
      (hkind : t.kind = .identifier) (hname : names.lookup? n = some t.value)
      (hopening : first.kind = .opening) (hround : first.bracket = '(')
      (hclosing : last.kind = .closing) (hfit : last.bracket = closerOf first.bracket)
      (hargs : Arguments (Message.Spelled names) inner args) :
      Message.Spelled names (t :: first :: (inner ++ [last]))
        ⟨.ident n, args, t.span.merge (first.span.merge last.span)⟩
  | group {first last : Token} {inner : List Token} {n : Name} {args : List (List Message)}
      (hopening : first.kind = .opening) (hclosing : last.kind = .closing)
      (hfit : last.bracket = closerOf first.bracket)
      (hname : names.lookup? n = some (groupText first.bracket))
      (hargs : Arguments (Message.Spelled names) inner args) :
      Message.Spelled names (first :: (inner ++ [last]))
        ⟨.ident n, args, first.span.merge last.span⟩

section

variable {M M' : List Token → Message → Prop} {tokens more : List Token} {t : Token}
  {messages : List Message} {args : List (List Message)} {names : Interner} {m : Message}

@[simp] theorem endsInIdentifier_append_singleton (tokens : List Token) (t : Token) :
    endsInIdentifier (tokens ++ [t]) = decide (t.kind = .identifier) := by
  simp [endsInIdentifier]

theorem endsInIdentifier_append (tokens : List Token) (hmore : more ≠ []) :
    endsInIdentifier (tokens ++ more) = endsInIdentifier more := by
  unfold endsInIdentifier
  rw [List.getLast?_append_of_ne_nil _ hmore]

/-- Spelling by something else that spells each of the messages. -/
theorem Level.mono (h : Level M tokens messages)
    (himp : ∀ m ∈ messages, ∀ more, M more m → M' more m) : Level M' tokens messages := by
  induction h with
  | nil => exact .nil
  | absorbed h hkind hstart ih => exact .absorbed (ih himp) hkind hstart
  | message h hm hmore hsep hround ih =>
    refine .message (ih fun m' hm' => himp m' (List.mem_cons_of_mem _ hm')) ?_ hmore hsep hround
    exact himp _ List.mem_cons_self _ hm

theorem Arguments.mono (h : Arguments M tokens args)
    (himp : ∀ a ∈ args, ∀ m ∈ a, ∀ more, M more m → M' more m) : Arguments M' tokens args := by
  induction h with
  | none h => exact .none (h.mono (by simp))
  | one h hne => exact .one (h.mono (by simpa using himp)) hne
  | more hargs hsome hkind h hne ih =>
    simp only [List.mem_append, List.mem_singleton] at himp
    refine .more (ih fun a ha => himp a (.inl ha)) hsome hkind (h.mono fun m hm => ?_) hne
    exact himp _ (.inr rfl) m (List.mem_reverse.mpr hm)

theorem Message.Spelled.ne_nil (h : m.Spelled names tokens) : tokens ≠ [] := by
  cases h <;> exact List.cons_ne_nil _ _

/-- A chain that ends in an identifier ends in the message that it spells. -/
theorem Level.of_endsInIdentifier (h : Level (Message.Spelled names) tokens messages)
    (hlast : endsInIdentifier tokens = true) :
    ∃ before t n rest, tokens = before ++ [t] ∧ messages = ⟨.ident n, [], t.span⟩ :: rest
      ∧ t.kind = .identifier ∧ names.lookup? n = some t.value
      ∧ Level (Message.Spelled names) before rest := by
  cases h with
  | nil => cases hlast
  | absorbed h hkind hstart => simp [hkind] at hlast
  | @message before more rest m h hm hmore hsep hround =>
    rw [endsInIdentifier_append _ hmore] at hlast
    cases hm with
    | @name t n hkind hname => exact ⟨before, t, n, rest, rfl, rfl, hkind, hname, h⟩
    | literal hkind =>
      have hnot : _ ≠ TokenKind.identifier := TokenKind.ne_of_isLiteral hkind rfl
      simp [endsInIdentifier, hnot] at hlast
    | separator hkind => simp [endsInIdentifier, hkind] at hlast
    | @call t first last inner n args _ _ _ _ hclosing =>
      have hend := endsInIdentifier_append_singleton (t :: first :: inner) last
      rw [List.cons_append, List.cons_append, hlast, hclosing] at hend
      cases hend
    | @group first last inner n args _ hclosing =>
      have hend := endsInIdentifier_append_singleton (first :: inner) last
      rw [List.cons_append, hlast, hclosing] at hend
      cases hend

end

/-! ## §2. The tokens of a parse in progress. -/

namespace Parser

/-- The tokens of the complete arguments of an open group, and of the comma behind each of them; the
arguments stand last one first. -/
inductive Started (M : List Token → Message → Prop) : List Token → List Chain → Prop where
  | none : Started M [] []
  | some {tokens : List Token} {t : Token} {args : List Chain}
      (hargs : Arguments M tokens args.reverse) (hsome : args ≠ []) (hkind : t.kind = .comma) :
      Started M (tokens ++ [t]) args

/-- The tokens of the chain being built and of the groups around it, innermost first. -/
inductive Nested (M : List Token → Message → Prop) :
    List Token → List Message → List OpenGroup → Prop where
  | outermost {tokens : List Token} {messages : List Message} (h : Level M tokens messages) :
      Nested M tokens messages []
  | inner {around ended tokens : List Token} {first : Token} {messages : List Message}
      {g : OpenGroup} {groups : List OpenGroup} (haround : Nested M around g.outer groups)
      (hopening : first.kind = .opening) (hbracket : g.bracket = first.bracket)
      (hspan : g.span = first.span)
      (hattached : g.attached = (first.bracket == '(' && endsInIdentifier around))
      (hended : Started M ended g.args) (h : Level M tokens messages) :
      Nested M (around ++ first :: (ended ++ tokens)) messages (g :: groups)

variable {M : List Token → Message → Prop} {p q : Parser} {t : Token} {names : Interner}
  {before tokens ended : List Token} {messages : List Message} {args : List Chain}
  {groups : List OpenGroup}

/-- The chain that is built innermost may be extended. -/
theorem Nested.innermost (h : Nested M before messages groups) :
    ∃ tokens, Level M tokens messages ∧ endsInIdentifier before = endsInIdentifier tokens
      ∧ ∀ more messages', Level M (tokens ++ more) messages' →
        Nested M (before ++ more) messages' groups := by
  cases h with
  | outermost h => exact ⟨before, h, rfl, fun more messages' h' => .outermost h'⟩
  | @inner around ended tokens first messages g groups haround hopening hbracket hspan hattached
      hended h =>
    refine ⟨tokens, h, ?_, fun more messages' h' => ?_⟩
    · cases tokens with
      | cons t tokens =>
        rw [← List.cons_append, ← List.append_assoc]
        exact endsInIdentifier_append _ (List.cons_ne_nil _ _)
      | nil =>
        -- a bracket or a comma stands before the chain
        generalize g.args = args at hended
        cases hended with
        | none => simp [hopening, endsInIdentifier]
        | some hargs hsome hkind =>
          rw [List.append_nil, ← List.cons_append, ← List.append_assoc,
            endsInIdentifier_append_singleton, hkind]
          rfl
    · have hinner := Nested.inner haround hopening hbracket hspan hattached hended h'
      simpa using hinner

/-- The last argument is complete where the group ends. -/
theorem Started.finish (h : Started M ended args) (hlevel : Level M tokens messages)
    (hfull : messages = [] → args = []) :
    Arguments M (ended ++ tokens)
      (args.reverse ++ if messages.isEmpty then [] else [messages.reverse]) := by
  cases h with
  | none =>
    cases messages with
    | nil => exact .none hlevel
    | cons m messages => exact .one hlevel (List.cons_ne_nil _ _)
  | @some ended t args hargs hsome hkind =>
    cases messages with
    | nil => exact absurd (hfull rfl) hsome
    | cons m messages =>
      rw [List.append_assoc, List.singleton_append]
      exact .more hargs (by simpa using hsome) hkind hlevel (List.cons_ne_nil _ _)

theorem Rooted.lookup?_groupName (h : p.Rooted) (bracket : Char) :
    p.names.lookup? (p.groupName bracket) = some (groupText bracket) := by
  unfold Parser.groupName groupText
  split
  · exact h.square
  · split
    · exact h.curly
    · exact h.valid.empty

/-- A message of one token. -/
theorem Nested.push {m : Message} (h : Nested M before messages groups) (hm : M [t] m)
    (hkind : t.kind ≠ .opening)
    (hsep : m.isSeparator = true → startsStatement messages = false) :
    Nested M (before ++ [t]) (m :: messages) groups := by
  obtain ⟨tokens, hlevel, -, hextend⟩ := h.innermost
  refine hextend [t] _ (.message hlevel hm (List.cons_ne_nil _ _) hsep fun hround => ?_)
  simp [startsRound, hkind] at hround

/-- The comma behind an argument. -/
theorem Nested.comma {g : OpenGroup} (h : Nested M before messages (g :: groups))
    (hkind : t.kind = .comma) (hne : messages ≠ []) :
    Nested M (before ++ [t]) [] ({ g with args := messages.reverse :: g.args } :: groups) := by
  cases h with
  | @inner around ended tokens first _ _ _ haround hopening hbracket hspan hattached hended h =>
    have hargs := hended.finish h fun hnil => absurd hnil hne
    rw [List.isEmpty_eq_false_iff.mpr hne] at hargs
    have hsome : Started M (ended ++ tokens ++ [t]) (messages.reverse :: g.args) :=
      .some (by simpa using hargs) (List.cons_ne_nil _ _) hkind
    have hinner : Nested M (around ++ first :: (ended ++ tokens ++ [t] ++ [])) []
        ({ g with args := messages.reverse :: g.args } :: groups) :=
      .inner haround hopening hbracket hspan hattached hsome .nil
    simpa using hinner

/-- The bracket that closes a group: the group gives arguments to the name before it, or becomes a
message. -/
theorem Nested.close {g : OpenGroup}
    (h : Nested (Message.Spelled names) before p.messages (g :: groups))
    (hkind : t.kind = .closing) (hfit : t.bracket = closerOf g.bracket)
    (hfull : p.messages = [] → g.args = [])
    (hname : names.lookup? (p.groupName g.bracket) = some (groupText g.bracket)) :
    Nested (Message.Spelled names) (before ++ [t])
      (p.closeGroup g (p.finished g) (g.span.merge t.span)) groups := by
  cases h with
  | @inner around ended tokens first _ _ _ haround hopening hbracket hspan hattached hended h =>
    have hargs : Arguments (Message.Spelled names) (ended ++ tokens) (p.finished g) :=
      hended.finish h hfull
    rw [hbracket] at hfit hname
    obtain ⟨outer, hlevel, hends, hextend⟩ := haround.innermost
    have hbefore : around ++ first :: (ended ++ tokens) ++ [t]
        = around ++ first :: (ended ++ tokens ++ [t]) := by simp
    rw [hbefore, hspan]
    refine hextend _ _ ?_
    cases hcall : g.attached with
    | true =>
      rw [hcall, eq_comm, Bool.and_eq_true, beq_iff_eq, hends] at hattached
      obtain ⟨hround, hlast⟩ := hattached
      -- the name is taken back, and put in place again with its arguments
      obtain ⟨behind, u, n, rest, rfl, hrest, hu, hn, hbehind⟩ := hlevel.of_endsInIdentifier hlast
      have hm := Message.Spelled.call hu hn hopening hround hkind hfit hargs
      rw [closeGroup, hcall, hrest, List.append_assoc, List.singleton_append]
      refine .message hbehind hm (List.cons_ne_nil _ _) (fun hsep => by cases hsep) fun hstart => ?_
      simp [startsRound, hu] at hstart
    | false =>
      have hm := Message.Spelled.group hopening hkind hfit hname hargs
      rw [closeGroup, hcall, hbracket]
      refine .message hlevel hm (List.cons_ne_nil _ _) (fun hsep => by cases hsep) fun hstart => ?_
      rw [hcall, eq_comm, Bool.and_eq_false_iff, hends] at hattached
      simp_all [startsRound]

/-- **One token.**  `final` has every name that is known by now. -/
theorem Nested.step {final : Interner}
    (h : Nested (Message.Spelled final) before p.messages p.groups) (hplaced : Placed before p)
    (ht : Taken p t q) (hshape : Lexer.Shaped t.key) (hext : q.names.Extends final) :
    Nested (Message.Spelled final) (before ++ [t]) q.messages q.groups := by
  cases ht with
  | absorbed hkind hstart =>
    obtain ⟨tokens, hlevel, -, hextend⟩ := h.innermost
    exact hextend [t] _ (.absorbed hlevel hkind hstart)
  | separator hkind hstart =>
    exact h.push (.separator hkind) (by simp [hkind]) fun _ => hstart
  | name hkind =>
    have hname := hext _ _ (Interner.lookup?_intern _ t.value)
    exact h.push (.name hkind hname) (by simp [hkind]) fun hsep => by cases hsep
  | literal hkind hvalue =>
    have hnot : t.kind ≠ .opening := TokenKind.ne_of_isLiteral hkind rfl
    refine h.push (.literal hkind hvalue hshape) hnot fun hsep => ?_
    cases (Token.isSeparator_of_literal? hvalue).symm.trans hsep
  | opening hkind =>
    have hattached : (t.bracket == '(' && p.callable)
        = (t.bracket == '(' && endsInIdentifier before) := by
      rw [hplaced.callable]
      rfl
    exact .inner (g := ⟨t.bracket, t.span, _, [], p.messages⟩) h hkind rfl rfl hattached .none .nil
  | @closing g groups hkind hgroups hfit hfull =>
    rw [hgroups] at h
    exact h.close hkind hfit hfull (hext _ _ (hplaced.toRooted.lookup?_groupName g.bracket))
  | comma hkind hgroups hfull =>
    rw [hgroups] at h
    exact h.comma hkind hfull

/-- **A run.** -/
theorem Nested.run {tokens : List Token} {c : Chain}
    (h : Nested (Message.Spelled (p.run tokens).names) before p.messages p.groups)
    (hplaced : Placed before p) (hshape : ∀ t ∈ tokens, Lexer.Shaped t.key)
    (hresult : (p.run tokens).result = .ok (some c)) :
    Level (Message.Spelled (p.run tokens).names) (before ++ tokens) c.reverse := by
  induction tokens generalizing before p with
  | nil =>
    simp only [Parser.run, Parser.result] at hresult h ⊢
    cases hgroups : p.groups with
    | cons g groups =>
      rw [hgroups] at hresult
      cases hresult
    | nil =>
      rw [hgroups] at hresult h
      cases h with
      | outermost h =>
        simp only [Except.ok.injEq, ite_eq_iff, reduceCtorEq, and_false, false_or] at hresult
        rw [List.append_nil, ← Option.some.inj hresult.2, List.reverse_reverse]
        exact h
  | cons t tokens ih =>
    rw [Parser.run] at hresult h ⊢
    cases hstep : p.step t with
    | error e =>
      rw [hstep] at hresult
      cases hresult
    | ok q =>
      rw [hstep] at hresult h
      have htaken := step_eq_ok_iff.mp hstep
      have hq := hplaced.step htaken
      have hext := (hq.toRooted.run tokens).2
      have hnext := h.step hplaced htaken (hshape t List.mem_cons_self) hext
      rw [List.append_cons]
      exact ih hnext hq (fun u hu => hshape u (List.mem_cons_of_mem _ hu)) hresult

end Parser

/-- **Every chain that is parsed is spelled by its tokens.** -/
theorem level_of_parseTokens {names : Interner} (hv : names.Valid) {tokens : List Token} {c : Chain}
    (hshape : ∀ t ∈ tokens, Lexer.Shaped t.key)
    (h : (parseTokens names tokens).result = .ok (some c)) :
    Level (Message.Spelled (parseTokens names tokens).names) tokens c.reverse :=
  Parser.Nested.run (.outermost .nil) (Parser.placed_new hv) hshape h

end Prototalk
