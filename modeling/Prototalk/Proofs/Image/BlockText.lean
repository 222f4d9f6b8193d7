/-
  Prototalk.Proofs.Image.BlockText
  ────────────────────────────────
  **WHAT THE TEXT OF A BLOCK READS AS.**

  A block shows as the message that makes one like it: `method(` or `block(`,
  the parameters between commas, the code on lines of its own.  Read again,
  that is the message that was meant, unless a parameter has the empty name:
  this one shows as nothing at all, and a comma with nothing before it is an
  error.

    • `Block.Legible.lexes_blockText` — the tokens of the text,
    • `Parser.reads_params`, `Parser.reads_code` — what the parser makes of
      the parameters and of the code,
    • `Block.Legible.readsBack`, `Block.Legible.unreadable` — the text without
      and with the empty name among the parameters.
-/
import Prototalk.Image.Display
import Prototalk.Proofs.Message.Listing
import Prototalk.Proofs.Message.RoundTrip

namespace Prototalk

open Lexer (Lexes Bounded)

/-! ## §1. Legible blocks. -/

/-- A name whose text can be written. -/
def Interner.Writes (names : Interner) (n : Name) : Prop :=
  ∃ text, names.lookup? n = some text ∧ IsNameText text

namespace Block

/-- A block that can be written. -/
structure Legible (names : Interner) (b : Block) : Prop where
  body : ∀ c, b.body = some c → Chain.WellFormed names c
  params : ∀ n ∈ b.params, names.Writes n
  /-- The last argument of the message that makes a block is its code, so parameters come with
  code behind them. -/
  complete : b.body = none → b.params = []

/-- The name of the operation that makes such blocks. -/
def maker (b : Block) : String := if b.isMethod then "method" else "block"

/-- The arguments say what the block is made of: one bare name for each parameter, then the code,
perhaps with the end of a line behind it. -/
inductive MadeOf (b : Block) (args : List Chain) : Prop where
  | nothing (hbody : b.body = none) (hparams : b.params = []) (hargs : args = [])
  | code {body code line : Chain} {params : List Chain} (hbody : b.body = some body)
      (hparams : params.map Chain.bareName? = b.params.map some)
      (hcode : Chain.same code body = true)
      (hline : line = [] ∨ ∃ span, line = [⟨.separator .newline, [], span⟩])
      (hargs : args = params ++ [code ++ line])

/-- The text of the block reads as one message that makes a block like it. -/
def ReadsBack (names : Interner) (b : Block) : Prop :=
  ∃ name args span,
    (parse names (Image.blockText names b)).result = .ok (some [⟨.ident name, args, span⟩])
      ∧ (parse names (Image.blockText names b)).names.lookup? name = some b.maker
      ∧ b.MadeOf args

end Block

section

variable {names names' : Interner} {n : Name} {b : Block} {params : List Name}
  {rest : List Char} {behind : List (TokenKind × List Char)}

theorem Interner.Writes.mono (hext : names.Extends names') (h : names.Writes n) :
    names'.Writes n := by
  obtain ⟨text, hname, htext⟩ := h
  exact ⟨text, hext _ _ hname, htext⟩

theorem Block.Legible.mono (hext : names.Extends names') (h : b.Legible names) :
    b.Legible names' where
  body := fun c hc => (h.body c hc).mono hext
  params := fun n hn => (h.params n hn).mono hext
  complete := h.complete

/-! ## §2. The tokens of the text. -/

namespace Block

/-- The parameters, each with the comma behind it. -/
def paramChars (names : Interner) : List Name → List Char
  | [] => []
  | [n] => (names.text n).toList ++ [',']
  | n :: m :: rest => (names.text n).toList ++ ',' :: ' ' :: paramChars names (m :: rest)

/-- The token of a parameter; there is none for the empty name. -/
def nameKeys (text : String) : List (TokenKind × List Char) :=
  if text = "" then [] else [(.identifier, text.toList)]

/-- The tokens of the parameters. -/
def paramKeys (names : Interner) (params : List Name) : List (TokenKind × List Char) :=
  params.flatMap fun n => nameKeys (names.text n) ++ [(.comma, [','])]

/-- The code. -/
def codeChars (names : Interner) (b : Block) : List Char :=
  match b.body with
  | some body => Chain.chars names body
  | none => []

/-- The tokens of the code. -/
def codeKeys (names : Interner) (b : Block) : List (TokenKind × List Char) :=
  match b.body with
  | some body => Chain.keys names body
  | none => []

/-- The tokens of the code and of what stands around it. -/
def lineKeys (names : Interner) (b : Block) : List (TokenKind × List Char) :=
  (.separator, ['\n']) :: (b.codeKeys names ++ [(.separator, ['\n']), (.closing, [')'])])

/-- The tokens of the whole text. -/
def keys (names : Interner) (b : Block) : List (TokenKind × List Char) :=
  (.identifier, b.maker.toList) :: (.opening, ['('])
    :: (paramKeys names b.params ++ b.lineKeys names)

theorem toList_params (names : Interner) (params : List Name) :
    (String.intercalate ", " (params.map names.text)
      ++ if params.isEmpty then "" else ",").toList = paramChars names params := by
  induction params with
  | nil => rfl
  | cons n params ih =>
    cases params with
    | nil => simp [paramChars]
    | cons m params =>
      rw [paramChars, ← ih, List.map_cons, List.map_cons, String.intercalate_cons_cons]
      simp

theorem toList_blockText (names : Interner) (b : Block) :
    (Image.blockText names b).toList = b.maker.toList
      ++ '(' :: (paramChars names b.params ++ '\n' :: (b.codeChars names ++ ['\n', ')'])) := by
  have hhead : (if b.isMethod then "method(" else "block(") = b.maker ++ "(" := by
    unfold maker
    split <;> rfl
  have hcode : (match b.body with
      | some body => Chain.toSource names body
      | none => "").toList = b.codeChars names := by
    unfold codeChars Chain.toSource
    cases b.body with
    | none => rfl
    | some body => exact String.toList_ofList
  unfold Image.blockText
  dsimp only
  rw [hhead, ← toList_params, ← hcode]
  simp only [String.toList_append, List.append_assoc]
  rfl

theorem lexes_param {text : String} (htext : IsNameText text) (hrest : Bounded rest)
    (h : Lexes rest behind) : Lexes (text.toList ++ rest) (nameKeys text ++ behind) := by
  unfold nameKeys
  split
  · rename_i hempty
    rw [hempty]
    exact h
  · rename_i hne
    exact Lexer.Lexes.name (htext.isName hne) hrest h

theorem lexes_params (hparams : ∀ n ∈ params, names.Writes n) (h : Lexes rest behind) :
    Lexes (paramChars names params ++ rest) (paramKeys names params ++ behind) := by
  induction params with
  | nil => exact h
  | cons n params ih =>
    obtain ⟨text, hname, htext⟩ := hparams n List.mem_cons_self
    have hrest := ih fun m hm => hparams m (List.mem_cons_of_mem _ hm)
    -- the comma ends the name; the blank behind it is there only before another parameter
    have hparam {more : List Char} {moreKeys : List (TokenKind × List Char)}
        (hmore : Lexes more moreKeys) :
        Lexes (text.toList ++ ',' :: more) (nameKeys text ++ (.comma, [',']) :: moreKeys) :=
      lexes_param htext (Lexer.bounded_cons (by decide) _)
        (Lexer.Lexes.single (by decide) (by decide) (by decide) hmore)
    cases params with
    | nil =>
      simpa [paramChars, paramKeys, Interner.text_of_lookup? hname] using hparam h
    | cons m params =>
      have hblank := hparam (hrest.space (c := ' ') (by decide))
      rw [paramChars, paramKeys, List.flatMap_cons, Interner.text_of_lookup? hname]
      simpa [paramKeys] using hblank

/-- **The text of a legible block has the tokens of the block.** -/
theorem Legible.lexes_blockText (hb : b.Legible names) :
    Lexes (Image.blockText names b).toList (b.keys names) := by
  have hclosed : Lexes ['\n', ')'] [(.separator, ['\n']), (.closing, [')'])] :=
    Lexer.Lexes.single (by decide) (by decide) (by decide)
      (lexes_close (by decide : ('(', ')') ∈ bracketPairs) Lexer.lexes_nil)
  -- the code ends at the end of its line
  have hcode : Lexes (b.codeChars names ++ ['\n', ')'])
      (b.codeKeys names ++ [(.separator, ['\n']), (.closing, [')'])]) := by
    unfold codeChars codeKeys
    cases hbody : b.body with
    | none => exact hclosed
    | some body =>
      have hall : ∀ m ∈ body, m.Lexed names := fun m hm => ((hb.body body hbody).all m hm).lexed
      exact lexes_chain hall true (Lexer.bounded_cons (by decide) _) hclosed
  have hline : Lexes ('\n' :: (b.codeChars names ++ ['\n', ')'])) (b.lineKeys names) :=
    Lexer.Lexes.single (by decide) (by decide) (by decide) hcode
  have hgroup := lexes_open (by decide : ('(', ')') ∈ bracketPairs) (lexes_params hb.params hline)
  have hmaker : Lexer.IsName b.maker.toList := by
    unfold maker
    split <;> exact .word (by decide) (List.all_eq_true.mp (by decide))
  rw [toList_blockText]
  exact Lexer.Lexes.name hmaker (Lexer.bounded_cons (by decide) _) hgroup

end Block

end

/-! ## §3. Reading parameters and code. -/

namespace Parser

variable {names : Interner} {p q : Parser} {t : Token}
  {keys more : List (TokenKind × List Char)} {key : TokenKind × List Char} {fault : ParseFault}

/-- The error of a token ends the parse. -/
theorem Reads.run_error {tokens : List Token}
    (h : Reads (fun q => ∀ t : Token, t.key = key → q.step t = .error ⟨fault, t.span⟩) p keys)
    (htokens : tokens.map Token.key = keys ++ key :: more) :
    ∃ span, (p.run tokens).result = .error ⟨fault, span⟩ := by
  induction keys generalizing p tokens with
  | nil =>
    obtain ⟨t, tokens, rfl, ht, -⟩ := List.map_eq_cons_iff.mp htokens
    refine ⟨t.span, ?_⟩
    rw [Parser.run, h t ht]
  | cons k keys ih =>
    obtain ⟨t, tokens, rfl, ht, htokens⟩ := List.map_eq_cons_iff.mp htokens
    obtain ⟨q, hstep, hq⟩ := h t ht
    rw [Parser.run, hstep]
    exact ih hq htokens

/-- The end of a line adds a separator, or nothing at the start of a statement. -/
theorem step_line (hp : p.Knows names) (ht : t.key = (.separator, ['\n'])) :
    ∃ q line, p.step t = .ok q ∧ q.Knows names ∧ q.callable = false ∧ q.groups = p.groups
      ∧ q.messages = line ++ p.messages ∧ (p.messages = [] → line = [])
      ∧ (line = [] ∨ ∃ span, line = [⟨.separator .newline, [], span⟩]) := by
  have hkind := (Token.key_eq_iff.mp ht).1
  cases hstart : p.atStatementStart with
  | false =>
    have htaken := Taken.separator hkind hstart
    rw [Token.firstChar?_of_key ht] at htaken
    refine ⟨_, _, step_eq_ok_iff.mpr htaken, hp.of_eq rfl rfl rfl, rfl, rfl, rfl, fun hnone => ?_,
      .inr ⟨t.span, rfl⟩⟩
    rw [atStatementStart, hnone] at hstart
    cases hstart
  | true =>
    exact ⟨_, [], step_eq_ok_iff.mpr (.absorbed hkind hstart), hp.of_eq rfl rfl rfl, rfl, rfl, rfl,
      fun _ => rfl, .inl rfl⟩

/-- A comma where an argument should be. -/
theorem step_comma_error (ht : t.key = (.comma, [','])) {g : OpenGroup} {groups : List OpenGroup}
    (hgroups : p.groups = g :: groups) (hnone : p.messages = []) :
    p.step t = .error ⟨.emptyArgument, t.span⟩ := by
  obtain ⟨hkind, -⟩ := Token.key_eq_iff.mp ht
  unfold Parser.step
  rw [hkind]
  simp only [Parser.comma, hgroups, hnone]
  rfl

/-- The parser is in the group behind the name `m`, before an argument; the arguments `done`, last
one first, are complete. -/
structure Within (names : Interner) (m : Message) (done : List Chain) (p : Parser) : Prop
    extends Knows names p where
  groups : ∃ span, p.groups = [⟨'(', span, true, done, [m]⟩]
  messages : p.messages = []

/-- **Parameters**, each of which is complete behind its comma. -/
theorem reads_params {m : Message} {done : List Chain} {params : List Name}
    (hparams : ∀ n ∈ params, names.Writes n) (hempty : .empty ∉ params)
    (hp : Within names m done p) :
    Reads (fun q => ∃ args : List Chain, args.map Chain.bareName? = params.map some
        ∧ Within names m (args.reverse ++ done) q) p (Block.paramKeys names params) := by
  induction params generalizing p done with
  | nil => exact ⟨[], rfl, hp⟩
  | cons n params ih =>
    obtain ⟨text, hname, -⟩ := hparams n List.mem_cons_self
    obtain ⟨span, hgroups⟩ := hp.groups
    -- no other name than the empty one has the empty text
    have hne : text ≠ "" := by
      rintro rfl
      obtain rfl := hp.valid.name_inj hp.valid.empty (hp.known _ _ hname)
      exact hempty List.mem_cons_self
    rw [Block.paramKeys, List.flatMap_cons, Interner.text_of_lookup? hname, Block.nameKeys,
      if_neg hne]
    intro t ht
    obtain ⟨hkind, hvalue⟩ := Token.key_eq_iff.mp ht
    rw [String.ofList_toList] at hvalue
    have htaken : Taken p t _ := .name hkind
    rw [hvalue, hp.toKnows.intern hname] at htaken
    refine ⟨_, step_eq_ok_iff.mpr htaken, ?_⟩
    intro u hu
    obtain ⟨q, hcomma, hparam⟩ : ∃ q,
        Taken ({ p.past t with callable := true }.push (.ident n) t.span) u q
          ∧ Within names m ([⟨.ident n, [], t.span⟩] :: done) q := by
      refine ⟨_, .comma (Token.key_eq_iff.mp hu).1 hgroups (List.cons_ne_nil _ _),
        hp.toKnows.of_eq rfl rfl rfl, ⟨span, ?_⟩, rfl⟩
      -- the parameter is now the last of the complete arguments
      simp [push, past, hp.messages, Message.ofSymbol]
    refine ⟨q, step_eq_ok_iff.mpr hcomma, ?_⟩
    have hrest := ih (fun k hk => hparams k (List.mem_cons_of_mem _ hk))
      (fun hk => hempty (List.mem_cons_of_mem _ hk)) hparam
    refine hrest.imp ?_
    rintro r ⟨args, hargs, hr⟩
    refine ⟨[⟨.ident n, [], t.span⟩] :: args, ?_, ?_⟩
    · simp [Chain.bareName?, hargs]
    · simpa using hr

/-- The bracket that ends the group gives the name its arguments. -/
theorem step_end {m : Message} {done : List Chain} {span : Span}
    (hgroups : p.groups = [⟨'(', span, true, done, [m]⟩]) (hnone : p.messages = [] → done = [])
    (ht : t.key = (.closing, [')'])) :
    ∃ q stop, p.step t = .ok q ∧ q.groups = []
      ∧ q.messages = [{ m with
        args := done.reverse ++ if p.messages.isEmpty then [] else [p.messages.reverse]
        span := stop }] := by
  have hfit : t.bracket = closerOf '(' := Token.bracket_of_key ht (.inr rfl)
  have hkind := (Token.key_eq_iff.mp ht).1
  exact ⟨_, _, step_eq_ok_iff.mpr (.closing hkind hgroups hfit hnone), rfl, rfl⟩

/-- **The code**, and the bracket behind it. -/
theorem reads_code {b : Block} (hv : names.Valid) (hb : b.Legible names) {m : Message}
    {done : List Chain} (hp : Within names m done p)
    (hdone : done.reverse.map Chain.bareName? = b.params.map some) :
    Reads (fun q => q.groups = []
        ∧ ∃ args span, b.MadeOf args ∧ q.messages = [{ m with args := args, span := span }])
      p (b.lineKeys names) := by
  obtain ⟨span, hgroups⟩ := hp.groups
  intro t ht
  obtain ⟨q₁, line₁, hstep₁, hq₁, hcall₁, hgroups₁, hmessages₁, hline₁, -⟩ :=
    step_line hp.toKnows ht
  refine ⟨q₁, hstep₁, ?_⟩
  rw [hline₁ hp.messages, hp.messages, List.append_nil] at hmessages₁
  rw [hgroups] at hgroups₁
  unfold Block.codeKeys
  cases hbody : b.body with
  | none =>
    -- without code there are no parameters
    have hnone : done = [] := by
      rw [hb.complete hbody] at hdone
      simpa using hdone
    intro u hu
    obtain ⟨q₂, line₂, hstep₂, hq₂, -, hgroups₂, hmessages₂, hline₂, -⟩ := step_line hq₁ hu
    refine ⟨q₂, hstep₂, ?_⟩
    rw [hline₂ hmessages₁, hmessages₁, List.append_nil] at hmessages₂
    intro v hv
    obtain ⟨q₃, stop, hstep₃, hgroups₃, hmessages₃⟩ :=
      step_end (hgroups₂.trans hgroups₁) (fun _ => hnone) hv
    refine ⟨q₃, hstep₃, hgroups₃, [], stop, .nothing hbody (hb.complete hbody) rfl, ?_⟩
    rw [hmessages₃, hmessages₂, hnone]
    rfl
  | some body =>
    have hwf := hb.body body hbody
    obtain ⟨tokens, htokens⟩ := Token.exists_map_key_eq (Chain.keys names body)
    have hread := reads_level (hwf.level hv htokens) hq₁ hcall₁ hmessages₁
    rw [htokens] at hread
    refine reads_append (hread.imp fun q₂ hq₂ => ?_)
    obtain ⟨code, hcode, hmessages₂⟩ := hq₂.adds.messages
    rw [List.reverse_reverse] at hcode
    rw [hmessages₁, List.append_nil] at hmessages₂
    have hne := Chain.ne_nil_of_same hcode hwf.ne_nil
    intro u hu
    obtain ⟨q₃, line, hstep₃, hq₃, -, hgroups₃, hmessages₃, -, hline⟩ := step_line hq₂.adds.knows hu
    refine ⟨q₃, hstep₃, ?_⟩
    -- the code in the order of the text, and the end of its line
    have hwritten : q₃.messages.reverse = code ++ line := by
      rw [hmessages₃, hmessages₂, List.reverse_append, List.reverse_reverse]
      obtain rfl | ⟨span, rfl⟩ := hline <;> rfl
    have hsome : q₃.messages ≠ [] := by
      rw [← List.reverse_ne_nil_iff, hwritten]
      simp [hne]
    intro v hv
    obtain ⟨q₄, stop, hstep₄, hgroups₄, hmessages₄⟩ :=
      step_end (hgroups₃.trans (hq₂.adds.groups.trans hgroups₁)) (fun h => absurd h hsome) hv
    refine ⟨q₄, hstep₄, hgroups₄, done.reverse ++ [code ++ line], stop,
      .code hbody hdone hcode hline rfl, ?_⟩
    rw [hmessages₄, hwritten]
    simp [hsome]

end Parser

/-! ## §4. Reading the text. -/

namespace Block

variable {names : Interner} {b : Block}

/-- What is left of the text behind the name and the bracket that it starts with. -/
theorem Legible.parse_blockText (hv : names.Valid) (hb : b.Legible names) :
    ∃ p name span tokens, parse names (Image.blockText names b) = Parser.run p tokens
      ∧ tokens.map Token.key = paramKeys names b.params ++ b.lineKeys names
      ∧ (parse names (Image.blockText names b)).names.lookup? name = some b.maker
      ∧ Parser.Within names (.ofSymbol (.ident name) span) [] p := by
  obtain ⟨t, tokens, htokens, ht, hkeys⟩ :=
    List.map_eq_cons_iff.mp (Lexer.tokens_of_lexes hb.lexes_blockText)
  obtain ⟨u, tokens, rfl, hu, hkeys⟩ := List.map_eq_cons_iff.mp hkeys
  -- the parser behind the name, which need not have been known before
  let named := (Parser.new names).names.intern b.maker
  let p : Parser := Parser.push { (Parser.new names).past t with
    names := named.2, callable := true } (.ident named.1) t.span
  have hroot := Parser.rooted_new hv
  have hext := Interner.extends_intern (Parser.new names).names b.maker
  have hp : p.Knows names :=
    ⟨⟨hroot.valid.intern b.maker, hext _ _ hroot.square, hext _ _ hroot.curly⟩,
      (Parser.extends_new names).trans hext⟩
  obtain ⟨hkind, hvalue⟩ := Token.key_eq_iff.mp ht
  rw [String.ofList_toList] at hvalue
  have hname := Parser.step_eq_ok_iff.mpr (Parser.Taken.name (p := .new names) hkind)
  rw [hvalue] at hname
  have hparse : parse names (Image.blockText names b) = p.run (u :: tokens) := by
    show (Parser.new names).run (tokenize (Image.blockText names b)) = _
    rw [htokens, Parser.run, hname]
  have hopened := Parser.step_eq_ok_iff.mpr
    (Parser.Taken.opening (p := p) (Token.key_eq_iff.mp hu).1)
  rw [Token.bracket_of_key hu (.inl rfl)] at hopened
  refine ⟨(p.past u).openGroup p.callable '(' u.span, named.1, t.span, tokens, ?_, hkeys, ?_,
    hp.of_eq rfl rfl rfl, ⟨u.span, rfl⟩, rfl⟩
  · rw [hparse, Parser.run, hopened]
  · rw [hparse]
    exact (hp.toRooted.run _).2 _ _ (Interner.lookup?_intern _ b.maker)

/-- **The text of a block reads back** if no parameter has the empty name. -/
theorem Legible.readsBack (hv : names.Valid) (hb : b.Legible names) (hempty : .empty ∉ b.params) :
    b.ReadsBack names := by
  obtain ⟨p, name, span, tokens, hparse, hkeys, hname, hp⟩ := hb.parse_blockText hv
  -- first the parameters, then the code
  have hreads : Parser.Reads (fun q => q.groups = [] ∧ ∃ args stop, b.MadeOf args
      ∧ q.messages = [⟨.ident name, args, stop⟩]) p
        (paramKeys names b.params ++ b.lineKeys names) := by
    refine Parser.reads_append ((Parser.reads_params hb.params hempty hp).imp ?_)
    rintro q ⟨params, hparams, hq⟩
    exact Parser.reads_code hv hb hq (by simpa using hparams)
  obtain ⟨q, hrun, hgroups, args, stop, hmade, hmessages⟩ := hreads.run hkeys
  refine ⟨name, args, stop, ?_, hname, hmade⟩
  rw [hparse, hrun, Parser.result, hgroups, hmessages]
  rfl

/-- **The text of a block is no program** if a parameter has the empty name: there is nothing
before its comma. -/
theorem Legible.unreadable (hv : names.Valid) (hb : b.Legible names) (hempty : .empty ∈ b.params) :
    ∃ span, (parse names (Image.blockText names b)).result = .error ⟨.emptyArgument, span⟩ := by
  obtain ⟨p, name, span, tokens, hparse, hkeys, -, hp⟩ := hb.parse_blockText hv
  -- the parameters before the first one with the empty name are complete
  obtain ⟨before, after, hparams, hbefore⟩ := List.eq_append_cons_of_mem hempty
  have hwrites : ∀ n ∈ before, names.Writes n := fun n hn => hb.params n (by simp [hparams, hn])
  have hreads : Parser.Reads (fun q => ∀ t : Token, t.key = (.comma, [',']) →
      q.step t = .error ⟨.emptyArgument, t.span⟩) p (paramKeys names before) := by
    refine (Parser.reads_params hwrites hbefore hp).imp ?_
    rintro q ⟨args, -, hq⟩ t ht
    obtain ⟨stop, hgroups⟩ := hq.groups
    exact Parser.step_comma_error ht hgroups hq.messages
  have hsplit : paramKeys names b.params ++ b.lineKeys names = paramKeys names before
      ++ (.comma, [',']) :: (paramKeys names after ++ b.lineKeys names) := by
    have hnothing : nameKeys (names.text .empty) = [] := by
      rw [Interner.text_of_lookup? hv.empty]
      rfl
    simp [hparams, paramKeys, hnothing]
  rw [hparse]
  exact hreads.run_error (hkeys.trans hsplit)

/-- **Whether the text of a block reads back** depends on the names of the parameters only. -/
theorem Legible.readsBack_iff (hv : names.Valid) (hb : b.Legible names) :
    b.ReadsBack names ↔ .empty ∉ b.params := by
  refine ⟨fun hreads hempty => ?_, hb.readsBack hv⟩
  obtain ⟨name, args, stop, hresult, -⟩ := hreads
  obtain ⟨span, herror⟩ := hb.unreadable hv hempty
  rw [hresult] at herror
  cases herror

end Block

end Prototalk
