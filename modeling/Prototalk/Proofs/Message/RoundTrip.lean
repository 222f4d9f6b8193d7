/-
  Prototalk.Proofs.Message.RoundTrip
  ────────────────────────────────
  **READING WHAT WAS WRITTEN.**

  The tokens that a well-formed chain is written with read as the chain.  The
  argument follows the printer: tokens with the classes and texts of a
  message read as the message (`Message.WellFormed.readsBack`, by induction
  over the tree), those of a chain as its messages, one behind the other
  (`Level.append_keys`), and those between two brackets as the arguments
  (`arguments_of_keys`).

  Together with the tokens of a written chain and with the soundness of the
  parser this makes writing and reading inverse to each other
  (`parse_toSource_same`).
-/
import Prototalk.Proofs.Message.Printer
import Prototalk.Proofs.Message.Respelling

namespace Prototalk

open Prototalk.Parser (Rereads)

variable {names : Interner} {tokens more : List Token} {messages : List Message}
  {m : Message} {c : Chain} {args : List Chain} {t : Token}

/-! ## §1. Tokens of given classes and texts. -/

namespace Token

theorem key_eq_iff {kind : TokenKind} {text : List Char} :
    t.key = (kind, text) ↔ t.kind = kind ∧ t.value = String.ofList text := by
  rw [Token.key, Prod.mk.injEq, ← String.toList_inj, String.toList_ofList]

/-- Any classes and texts are those of some tokens. -/
theorem exists_map_key_eq (keys : List (TokenKind × List Char)) :
    ∃ tokens : List Token, tokens.map key = keys := by
  refine ⟨keys.map fun k => .ofKind k.1 (String.ofList k.2) .nowhere, ?_⟩
  simp [key, ofKind, Function.comp_def]

theorem firstChar?_of_key {kind : TokenKind} {x : Char} (ht : t.key = (kind, [x])) :
    t.firstChar? = some x := by
  rw [firstChar?, (key_eq_iff.mp ht).2, String.toList_ofList]
  rfl

theorem bracket_of_key {kind : TokenKind} {x : Char} (ht : t.key = (kind, [x]))
    (hkind : kind = .opening ∨ kind = .closing) : t.bracket = x := by
  rw [bracket, bracket?, (key_eq_iff.mp ht).1, firstChar?_of_key ht]
  rcases hkind with rfl | rfl <;> rfl

theorem literal?_of_numberChars {x : Binary64} (hx : x.Plain)
    (ht : t.key = (.number, Symbol.numberChars x)) : t.literal? = some (.number x) := by
  obtain ⟨hkind, hvalue⟩ := key_eq_iff.mp ht
  have hread : Literal.number t.value = .ok x := by
    unfold Literal.number
    rw [hvalue, String.toList_ofList, (Symbol.read?_numberChars hx).2]
  simp [literal?, hkind, hread, Except.toOption]

theorem literal?_of_encode {s : String} (ht : t.key = (.string, Quoted.encode s.toList)) :
    t.literal? = some (.text s) := by
  obtain ⟨hkind, hvalue⟩ := key_eq_iff.mp ht
  obtain ⟨content, hinside, hdecode⟩ := Quoted.decode_inside?_encode s.toList
  have hread : Literal.string t.value = .ok s := by
    unfold Literal.string
    rw [hvalue, String.toList_ofList, hinside]
    simp only [hdecode, String.ofList_toList]
  simp [literal?, hkind, hread, Except.toOption]

end Token

/-- Tokens between two brackets. -/
theorem exists_group_of_keys {pair : Char × Char} (hpair : pair ∈ bracketPairs)
    {keys : List (TokenKind × List Char)}
    (h : tokens.map Token.key = (.opening, [pair.1]) :: (keys ++ [(.closing, [pair.2])])) :
    ∃ first inner last, tokens = first :: (inner ++ [last]) ∧ first.kind = .opening
      ∧ first.bracket = pair.1 ∧ last.kind = .closing ∧ last.bracket = closerOf first.bracket
      ∧ inner.map Token.key = keys := by
  obtain ⟨first, rest, rfl, hfirst, hrest⟩ := List.map_eq_cons_iff.mp h
  obtain ⟨inner, ending, rfl, hinner, hending⟩ := List.map_eq_append_iff.mp hrest
  obtain ⟨last, rfl, hlast⟩ := List.map_eq_singleton_iff.mp hending
  have hcloser : ∀ pair ∈ bracketPairs, pair.2 = closerOf pair.1 := by decide
  have hbracket := Token.bracket_of_key hfirst (.inl rfl)
  refine ⟨first, inner, last, rfl, (Token.key_eq_iff.mp hfirst).1, hbracket,
    (Token.key_eq_iff.mp hlast).1, ?_, hinner⟩
  rw [Token.bracket_of_key hlast (.inr rfl), hbracket, hcloser pair hpair]

/-! ## §2. The tokens of a message. -/

theorem groupText_of_groupOf? {text : String} {pair : Char × Char}
    (h : Symbol.groupOf? text = some pair) : text = groupText pair.1 := by
  rcases groupOf?_cases h with ⟨rfl, rfl⟩ | ⟨rfl, rfl⟩ | ⟨rfl, rfl⟩ <;> rfl

/-- The tokens that the message is written with read as the message. -/
def Message.ReadsBack (names : Interner) (m : Message) : Prop :=
  ∀ tokens : List Token, tokens.map Token.key = m.keys names → Rereads names tokens m

/-- What matters of the tokens of a message for the chain that it stands in: there are some, a group
in parentheses is a message with the empty name, and a name behind which a group would be its
arguments is a bare one. -/
structure Message.Ends (names : Interner) (tokens : List Token) (m : Message) : Prop where
  ne_nil : tokens ≠ []
  startsRound : startsRound tokens = true → m.name? = some .empty
  endsInIdentifier : endsInIdentifier tokens = Symbol.isBare names m.symbol m.args

theorem Message.ends_of_keys (hv : names.Valid) (hm : m.WellFormed names)
    (htokens : tokens.map Token.key = m.keys names) : m.Ends names tokens := by
  -- a token that is neither an opening bracket nor an identifier
  have hsingle {symbol : Symbol} {span : Span} {key : TokenKind × List Char}
      (htokens : tokens.map Token.key = [key])
      (hkey : key.1 ≠ .opening ∧ key.1 ≠ .identifier)
      (hbare : Symbol.isBare names symbol [] = false) :
      Message.Ends names tokens ⟨symbol, [], span⟩ := by
    obtain ⟨t, rfl, rfl⟩ := List.map_eq_singleton_iff.mp htokens
    exact ⟨List.cons_ne_nil _ _, by simp [startsRound, show t.kind ≠ .opening from hkey.1],
      by simp [endsInIdentifier, show t.kind ≠ .identifier from hkey.2, hbare]⟩
  cases hm with
  | @ident name text args span hname htext hargs =>
    have hbare : Symbol.isBare names (.ident name) args
        = (args.isEmpty && (Symbol.groupOf? text).isNone) := by
      rw [Symbol.isBare, InternTable.text_of_lookup? hname]
    simp only [Message.keys, InternTable.text_of_lookup? hname] at htokens
    cases hgroup : Symbol.groupOf? text with
    | some pair =>
      rw [hgroup] at htokens hbare
      obtain ⟨first, inner, last, rfl, hopening, hbracket, hclosing, -, -⟩ :=
        exists_group_of_keys (mem_bracketPairs hgroup) htokens
      refine ⟨List.cons_ne_nil _ _, fun hround => ?_, ?_⟩
      · simp only [startsRound, List.head?_cons, Option.any_some, hopening, decide_true, hbracket,
          Bool.true_and, beq_iff_eq] at hround
        rcases groupOf?_cases hgroup with ⟨-, rfl⟩ | ⟨-, rfl⟩ | ⟨rfl, rfl⟩
        · cases hround
        · cases hround
        · -- the empty text has one name
          obtain rfl := hv.name_inj hv.empty hname
          rfl
      · rw [← List.cons_append, endsInIdentifier_append_singleton, hclosing, hbare]
        simp
    | none =>
      rw [hgroup] at htokens hbare
      obtain ⟨t, rest, rfl, ht, hrest⟩ := List.map_eq_cons_iff.mp htokens
      have hkind := (Token.key_eq_iff.mp ht).1
      refine ⟨List.cons_ne_nil _ _, by simp [startsRound, hkind], ?_⟩
      rw [hbare]
      cases args with
      | nil =>
        obtain rfl : rest = [] := List.map_eq_nil_iff.mp hrest
        simp [endsInIdentifier, hkind]
      | cons a args =>
        obtain ⟨first, inner, last, rfl, -, -, hclosing, -, -⟩ :=
          exists_group_of_keys (by decide : ('(', ')') ∈ bracketPairs) hrest
        rw [← List.cons_append, ← List.cons_append, endsInIdentifier_append_singleton, hclosing]
        simp
  | number => exact hsingle htokens (by simp) rfl
  | text => exact hsingle htokens (by simp) rfl
  | separator => exact hsingle htokens (by simp) rfl

/-- An empty pair of parentheses behind a bare name gives it no arguments; what stands behind the
pair is no argument of the name either. -/
theorem rereads_bare (hm : m.WellFormed names)
    (hbare : Symbol.isBare names m.symbol m.args = true)
    (htokens : tokens.map Token.key = m.keys names)
    (hpair : more.map Token.key = [(.opening, ['(']), (.closing, [')'])]) :
    Rereads names (tokens ++ more) m ∧ startsRound (tokens ++ more) = false
      ∧ endsInIdentifier (tokens ++ more) = false := by
  cases hm with
  | @ident name text args span hname htext hargs =>
    rw [Symbol.isBare, InternTable.text_of_lookup? hname, Bool.and_eq_true, List.isEmpty_iff,
      Option.isNone_iff_eq_none] at hbare
    obtain ⟨rfl, hgroup⟩ := hbare
    simp only [Message.keys, InternTable.text_of_lookup? hname, hgroup] at htokens
    obtain ⟨t, rfl, ht⟩ := List.map_eq_singleton_iff.mp htokens
    obtain ⟨hkind, hvalue⟩ := Token.key_eq_iff.mp ht
    rw [String.ofList_toList] at hvalue
    have hpair' : more.map Token.key = (.opening, ['(']) :: ([] ++ [(.closing, [')'])]) := hpair
    obtain ⟨first, inner, last, rfl, hopening, hbracket, hclosing, hfit, hinner⟩ :=
      exists_group_of_keys (by decide : ('(', ')') ∈ bracketPairs) hpair'
    obtain rfl : inner = [] := List.map_eq_nil_iff.mp hinner
    refine ⟨Parser.rereads_call hkind (hname.trans (congrArg some hvalue.symm)) hopening hbracket
      hclosing hfit (.none .nil), ?_, ?_⟩
    · simp [startsRound, hkind]
    · simp [endsInIdentifier, hclosing]
  | number | text | separator => cases hbare

/-! ## §3. Chains and arguments. -/

/-- A message, with the pair of parentheses behind it if the chain `c` starts with a group that the
message must not get. -/
theorem Level.message_keys (hv : names.Valid) (hm : m.WellFormed names) (hread : m.ReadsBack names)
    (h : Level (Rereads names) tokens messages)
    (hempty : m.name? = some .empty → endsInIdentifier tokens = false)
    (hstart : m.isSeparator = true → startsStatement messages = false)
    (hmore : more.map Token.key = m.keys names
      ++ if Symbol.isBare names m.symbol m.args && Chain.firstName? c == some .empty
        then [(.opening, ['(']), (.closing, [')'])] else []) :
    Level (Rereads names) (tokens ++ more) (m :: messages)
      ∧ (Chain.firstName? c = some .empty → endsInIdentifier (tokens ++ more) = false) := by
  obtain ⟨own, pair, rfl, hown, hpair⟩ := List.map_eq_append_iff.mp hmore
  have hends := Message.ends_of_keys hv hm hown
  split at hpair
  · rename_i hinsert
    obtain ⟨hpaired, hround, hends'⟩ := rereads_bare hm (Bool.and_eq_true_iff.mp hinsert).1
      hown hpair
    have hne : own ++ pair ≠ [] := List.append_ne_nil_of_left_ne_nil hends.ne_nil _
    refine ⟨.message h hpaired hne hstart fun hstarts => ?_, fun _ => ?_⟩
    · rw [hround] at hstarts
      cases hstarts
    · rw [endsInIdentifier_append _ hne, hends']
  · rename_i hinsert
    obtain rfl : pair = [] := List.map_eq_nil_iff.mp hpair
    rw [List.append_nil]
    refine ⟨.message h (hread own hown) hends.ne_nil hstart
      fun hstarts => hempty (hends.startsRound hstarts), fun hfirst => ?_⟩
    -- without a pair either the message is not bare, or no group follows
    rw [endsInIdentifier_append _ hends.ne_nil, hends.endsInIdentifier]
    simpa [hfirst] using hinsert

/-- **A chain**, behind the tokens of the messages before it. -/
theorem Level.append_keys (hv : names.Valid) (hwf : ∀ m ∈ c, m.WellFormed names)
    (hread : ∀ m ∈ c, m.ReadsBack names)
    (hadjacent : c.IsChain fun a b => ¬(a.isSeparator = true ∧ b.isSeparator = true))
    (h : Level (Rereads names) tokens messages)
    (hempty : Chain.firstName? c = some .empty → endsInIdentifier tokens = false)
    (hstart : ∀ m ∈ c.head?, m.isSeparator = true → startsStatement messages = false)
    (hmore : more.map Token.key = Chain.keys names c) :
    Level (Rereads names) (tokens ++ more) (c.reverse ++ messages) := by
  induction c generalizing tokens messages more with
  | nil =>
    obtain rfl : more = [] := List.map_eq_nil_iff.mp hmore
    simpa using h
  | cons m c ih =>
    rw [Chain.keys] at hmore
    obtain ⟨front, rest, rfl, hfront, hrest⟩ := List.map_eq_append_iff.mp hmore
    obtain ⟨hlevel, hbehind⟩ := h.message_keys hv (hwf m List.mem_cons_self)
      (hread m List.mem_cons_self) hempty (hstart m rfl) hfront
    have hnext := ih (fun n hn => hwf n (List.mem_cons_of_mem _ hn))
      (fun n hn => hread n (List.mem_cons_of_mem _ hn)) hadjacent.tail hlevel hbehind ?_ hrest
    · simpa using hnext
    · intro n hn hsep
      -- two separators are not neighbours in `m :: c`
      show m.isSeparator = false
      by_contra hmsep
      cases c with
      | nil => cases hn
      | cons n c =>
        cases hn
        exact (List.isChain_cons_cons.mp hadjacent).1 ⟨by simpa using hmsep, hsep⟩

/-- A whole chain, at the start of a group or of the input. -/
theorem level_of_keys (hv : names.Valid) (hc : Chain.WellFormed names c)
    (hread : ∀ m ∈ c, m.ReadsBack names)
    (htokens : tokens.map Token.key = Chain.keys names c) :
    Level (Rereads names) tokens c.reverse := by
  have h := Level.append_keys hv hc.all hread hc.tidy.adjacent .nil (fun _ => rfl)
    (fun m hm hsep => ?_) htokens
  · simpa using h
  · rw [hc.tidy.head m hm] at hsep
    cases hsep

theorem Message.argKeys_cons (names : Interner) (a : Chain) (args : List Chain) :
    Message.argKeys names (a :: args)
      = Chain.keys names a ++ args.flatMap fun b => (.comma, [',']) :: Chain.keys names b := by
  induction args generalizing a with
  | nil => rw [Message.argKeys, List.flatMap_nil, List.append_nil]
  | cons b args ih => rw [Message.argKeys, ih, List.flatMap_cons, List.cons_append]

/-- More arguments, each behind a comma. -/
theorem Arguments.append_keys {rest : List Chain} (hv : names.Valid)
    (hwf : ∀ a ∈ rest, Chain.WellFormed names a)
    (hread : ∀ a ∈ rest, ∀ m ∈ a, m.ReadsBack names)
    (h : Arguments (Rereads names) tokens args) (hsome : args ≠ [])
    (hmore : more.map Token.key = rest.flatMap fun b => (.comma, [',']) :: Chain.keys names b) :
    Arguments (Rereads names) (tokens ++ more) (args ++ rest) := by
  induction rest generalizing tokens more args with
  | nil =>
    obtain rfl : more = [] := List.map_eq_nil_iff.mp hmore
    simpa using h
  | cons b rest ih =>
    rw [List.flatMap_cons, List.cons_append] at hmore
    obtain ⟨t, more, rfl, ht, hmore⟩ := List.map_eq_cons_iff.mp hmore
    obtain ⟨own, more, rfl, hown, hmore⟩ := List.map_eq_append_iff.mp hmore
    have hb := hwf b List.mem_cons_self
    have hlevel := level_of_keys hv hb (hread b List.mem_cons_self) hown
    have hlonger := Arguments.more h hsome (Token.key_eq_iff.mp ht).1 hlevel
      (by simpa using hb.ne_nil)
    rw [List.reverse_reverse] at hlonger
    have hall := ih (fun a ha => hwf a (List.mem_cons_of_mem _ ha))
      (fun a ha => hread a (List.mem_cons_of_mem _ ha)) hlonger (by simp) hmore
    simpa using hall

/-- **Arguments.** -/
theorem arguments_of_keys (hv : names.Valid) (hwf : ∀ a ∈ args, Chain.WellFormed names a)
    (hread : ∀ a ∈ args, ∀ m ∈ a, m.ReadsBack names)
    (htokens : tokens.map Token.key = Message.argKeys names args) :
    Arguments (Rereads names) tokens args := by
  cases args with
  | nil =>
    obtain rfl : tokens = [] := List.map_eq_nil_iff.mp htokens
    exact .none .nil
  | cons a args =>
    rw [Message.argKeys_cons] at htokens
    obtain ⟨own, more, rfl, hown, hmore⟩ := List.map_eq_append_iff.mp htokens
    have ha := hwf a List.mem_cons_self
    have hfirst := Arguments.one (level_of_keys hv ha (hread a List.mem_cons_self) hown)
      (by simpa using ha.ne_nil)
    rw [List.reverse_reverse] at hfirst
    exact hfirst.append_keys hv (fun b hb => hwf b (List.mem_cons_of_mem _ hb))
      (fun b hb => hread b (List.mem_cons_of_mem _ hb)) (by simp) hmore

/-! ## §4. Messages. -/

/-- **The tokens that a message is written with read as the message.** -/
theorem Message.WellFormed.readsBack (hv : names.Valid) (hm : m.WellFormed names) :
    m.ReadsBack names := by
  induction m using Message.induction with
  | step symbol args span ih =>
    intro tokens htokens
    cases hm with
    | @ident name text _ _ hname htext hargs =>
      have hspelled {inner : List Token}
          (hinner : inner.map Token.key = Message.argKeys names args) :
          Arguments (Rereads names) inner args :=
        arguments_of_keys hv hargs (fun a ha m hm => ih a ha m hm ((hargs a ha).all m hm)) hinner
      simp only [Message.keys, InternTable.text_of_lookup? hname] at htokens
      cases hgroup : Symbol.groupOf? text with
      | some pair =>
        rw [hgroup] at htokens
        obtain ⟨first, inner, last, rfl, hopening, hbracket, hclosing, hfit, hinner⟩ :=
          exists_group_of_keys (mem_bracketPairs hgroup) htokens
        refine Parser.rereads_group hopening hclosing hfit ?_ (hspelled hinner)
        rw [hname, hbracket, groupText_of_groupOf? hgroup]
      | none =>
        rw [hgroup] at htokens
        obtain ⟨t, rest, rfl, ht, hrest⟩ := List.map_eq_cons_iff.mp htokens
        obtain ⟨hkind, hvalue⟩ := Token.key_eq_iff.mp ht
        rw [String.ofList_toList] at hvalue
        have hlookup : names.lookup? name = some t.value := by rw [hname, hvalue]
        cases args with
        | nil =>
          obtain rfl : rest = [] := List.map_eq_nil_iff.mp hrest
          exact Parser.rereads_name hkind hlookup
        | cons a args =>
          obtain ⟨first, inner, last, rfl, hopening, hbracket, hclosing, hfit, hinner⟩ :=
            exists_group_of_keys (by decide : ('(', ')') ∈ bracketPairs) hrest
          exact Parser.rereads_call hkind hlookup hopening hbracket hclosing hfit (hspelled hinner)
    | number hx =>
      obtain ⟨t, rfl, ht⟩ := List.map_eq_singleton_iff.mp htokens
      refine Parser.rereads_literal ?_ (Token.literal?_of_numberChars hx ht) ?_
      · rw [(Token.key_eq_iff.mp ht).1]
        rfl
      · simp [Symbol.same, Binary64.sameValue, hx.1]
    | text =>
      obtain ⟨t, rfl, ht⟩ := List.map_eq_singleton_iff.mp htokens
      refine Parser.rereads_literal ?_ (Token.literal?_of_encode ht) (by simp [Symbol.same])
      rw [(Token.key_eq_iff.mp ht).1]
      rfl
    | @separator mark _ =>
      obtain ⟨t, rfl, ht⟩ := List.map_eq_singleton_iff.mp htokens
      have hmark : Separator.ofChar (t.firstChar?.getD '\n') = mark := by
        rw [Token.firstChar?_of_key ht]
        cases mark <;> rfl
      rw [← hmark]
      exact Parser.rereads_separator (Token.key_eq_iff.mp ht).1

/-- **The tokens that a chain is written with read as the chain.** -/
theorem Chain.WellFormed.level (hv : names.Valid) (hc : Chain.WellFormed names c)
    (htokens : tokens.map Token.key = Chain.keys names c) :
    Level (Rereads names) tokens c.reverse :=
  level_of_keys hv hc (fun m hm => (hc.all m hm).readsBack hv) htokens

/-! ## §5. Whole programs. -/

/-- The text of the chain parses, as the same chain. -/
def RoundTrips (names : Interner) (c : Chain) : Prop :=
  ∃ c', (parse names (Chain.toSource names c)).result = .ok (some c') ∧ Chain.same c' c = true

theorem roundTrips {names : Interner} (hv : names.Valid) {c : Chain}
    (hc : Chain.WellFormed names c) : RoundTrips names c := by
  have hlexes : Lexer.Lexes (Chain.toSource names c).toList (Chain.keys names c) := by
    rw [Chain.toSource, String.toList_ofList]
    exact hc.lexes
  have hlevel := hc.level hv (Lexer.tokens_of_lexes hlexes)
  obtain ⟨c', hresult, hsame⟩ := parses_of_level hv hlevel (by simpa using hc.ne_nil) rfl
  rw [List.reverse_reverse] at hsame
  exact ⟨c', hresult, hsame⟩

/-- **Writing and reading are inverse to each other**, with any table that a program can have:
every well-formed chain is read back from its text, and every chain that is read, from whatever
text, is well-formed, so it is read back from its own text too. -/
theorem parse_toSource_same (texts : List String) :
    (∀ c, Chain.WellFormed (Interner.new.internAll texts) c →
      RoundTrips (Interner.new.internAll texts) c)
    ∧ ∀ s c, (parse (Interner.new.internAll texts) s).result = .ok (some c) →
      Chain.WellFormed (parse (Interner.new.internAll texts) s).names c
        ∧ RoundTrips (parse (Interner.new.internAll texts) s).names c := by
  have hv := Interner.valid_internAll texts
  refine ⟨fun c hc => roundTrips hv hc, fun s c hs => ?_⟩
  have hc := wellFormed_of_parse hv hs
  exact ⟨hc, roundTrips (valid_parse hv s) hc⟩

/-- A name, a group that is no argument of it, and a bracketed group behind a separator. -/
def bracketedChain : Chain :=
  [⟨.ident ⟨1⟩, [], .nowhere⟩, ⟨.ident .empty, [[⟨.number .infinity, [], .nowhere⟩]], .nowhere⟩,
    ⟨.separator .semicolon, [], .nowhere⟩,
    ⟨.ident ⟨2⟩, [[⟨.text "\"", [], .nowhere⟩], [⟨.ident ⟨1⟩, [], .nowhere⟩]], .nowhere⟩]

theorem wellFormed_bracketedChain :
    Chain.WellFormed (Interner.new.internAll ["f", "squareBrackets"]) bracketedChain := by
  generalize hnames : Interner.new.internAll ["f", "squareBrackets"] = names
  have hv : names.Valid := hnames ▸ Interner.valid_internAll _
  have hf : names.lookup? ⟨1⟩ = some "f" := hnames ▸ by decide +kernel
  have hsquare : names.lookup? ⟨2⟩ = some squareBrackets := hnames ▸ by decide +kernel
  have htext : IsNameText "f" := isNameText_of_isName (.word (by decide) (by simp))
  have hleaf : ∀ {m : Message}, m.WellFormed names → m.isSeparator = false →
      Chain.WellFormed names [m] := by
    intro m hm hsep
    exact ⟨by simp, ⟨by simpa using hsep, by simp⟩, by simpa using hm⟩
  refine ⟨by simp [bracketedChain], ⟨?_, ?_⟩, ?_⟩
  · simp [bracketedChain, Message.isSeparator]
  · simp [bracketedChain, Message.isSeparator]
  · simp only [bracketedChain, List.forall_mem_cons]
    refine ⟨.ident hf htext (by simp), .ident hv.empty isNameText_empty ?_, .separator,
      .ident hsquare isNameText_squareBrackets ?_, by simp⟩
    · simpa using hleaf (.number Binary64.plain_infinity) rfl
    · simpa using ⟨hleaf .text rfl, hleaf (.ident hf htext (by simp)) rfl⟩

theorem parse_toSource_same_bracketed :
    Chain.WellFormed (Interner.new.internAll ["f", "squareBrackets"]) bracketedChain
      ∧ RoundTrips (Interner.new.internAll ["f", "squareBrackets"]) bracketedChain :=
  ⟨wellFormed_bracketedChain,
    (parse_toSource_same ["f", "squareBrackets"]).1 bracketedChain wellFormed_bracketedChain⟩

end Prototalk
