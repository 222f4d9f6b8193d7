/-
  Prototalk.Proofs.Message.Parser
  ────────────────────────────────
  **THE PARSER BUILDS WELL-FORMED CHAINS ONLY.**

  `Sound` is what holds between two tokens: the chain being built, and the
  chain around every open group, are well-formed as far as they go, complete
  arguments are well-formed chains, and whatever may get arguments is a bare
  name.  A new parse is sound (`sound_new`), each token keeps it so
  (`Sound.step`), and so does a run (`Sound.run`); at the end of the input the
  chain is the result.
-/
import Prototalk.Message.Parser
import Prototalk.Proofs.Message.WellFormed
import Prototalk.Proofs.Number.Decimal

namespace Prototalk

/-! ## §1. Chains in the making. -/

/-- The messages of a chain that is being built, last one first. -/
structure Builds (names : Interner) (messages : List Message) : Prop where
  tidy : Chain.Tidy messages.reverse
  all : ∀ m ∈ messages, m.WellFormed names

namespace Builds

variable {names names' : Interner} {m : Message} {messages : List Message}

theorem nil : Builds names [] := ⟨⟨by simp, by simp⟩, by simp⟩

theorem cons (h : Builds names messages) (hm : m.WellFormed names)
    (hsep : m.isSeparator = true → ∃ prev before, messages = prev :: before
      ∧ prev.isSeparator = false) : Builds names (m :: messages) := by
  refine ⟨⟨?_, ?_⟩, ?_⟩
  · intro first hfirst
    cases messages with
    | nil =>
      -- the message is the first one, so it is no separator
      obtain rfl : m = first := by simpa using hfirst
      by_contra hsep'
      obtain ⟨prev, before, heq, -⟩ := hsep (by simpa using hsep')
      cases heq
    | cons prev before =>
      refine h.tidy.head first ?_
      simpa [List.head?_append] using hfirst
  · rw [List.reverse_cons, List.isChain_append]
    refine ⟨h.tidy.adjacent, by simp, ?_⟩
    -- the chain is in the order of the source, so the new message is its last one
    rintro prev hprev b hb ⟨hprevSep, hbSep⟩
    obtain rfl : m = b := by simpa using hb
    obtain ⟨prev', before, rfl, hprev'⟩ := hsep hbSep
    obtain rfl : prev' = prev := by simpa using hprev
    rw [hprev'] at hprevSep
    cases hprevSep
  · intro m' hm'
    rcases List.mem_cons.mp hm' with rfl | hm'
    · exact hm
    · exact h.all m' hm'

theorem tail (h : Builds names (m :: messages)) : Builds names messages := by
  have htidy := h.tidy
  rw [List.reverse_cons] at htidy
  refine ⟨⟨?_, ?_⟩, fun m' hm' => h.all m' (List.mem_cons_of_mem _ hm')⟩
  · intro first hfirst
    refine htidy.head first ?_
    rw [List.head?_append, Option.mem_def.mp hfirst]
    rfl
  · exact (List.isChain_append.mp htidy.adjacent).1

theorem mono (hext : names.Extends names') (h : Builds names messages) : Builds names' messages :=
  ⟨h.tidy, fun m hm => (h.all m hm).mono hext⟩

theorem wellFormed (h : Builds names messages) (hne : messages ≠ []) :
    Chain.WellFormed names messages.reverse :=
  ⟨by simpa using hne, h.tidy, fun m hm => h.all m (List.mem_reverse.mp hm)⟩

end Builds

/-- The last message is a bare name, which a group may give arguments. -/
def EndsInName (messages : List Message) : Prop :=
  ∃ name span before, messages = ⟨.ident name, [], span⟩ :: before

/-! ## §2. The values of literals. -/

namespace Literal

theorem plain_number {text : String} {x : Binary64} (ht : Lexer.Shaped (.number, text.toList))
    (h : number text = .ok x) : x.Plain := by
  obtain ⟨c, cs, heq, hc⟩ := ht
  simp only at heq
  unfold number at h
  rw [heq] at h
  split at h
  · rename_i y hy
    cases h
    exact Decimal.plain_of_read? hc hy
  · cases h

/-- Without a sign in front an integer is not below zero. -/
theorem plain_signed {digits : List Char} (hminus : digits.head? ≠ some '-') {n : Int}
    (h : Radix.signed 16 63 digits = .ok n) : (Binary64.ofInt n).Plain := by
  have hnat : ∀ {r : Except Radix.Fault Nat}, r.map Int.ofNat = .ok n →
      (Binary64.ofInt n).Plain := by
    intro r hr
    cases r with
    | error e => cases hr
    | ok k =>
      cases hr
      exact Binary64.plain_ofRatio k 1
  unfold Radix.signed at h
  split at h
  · exact absurd rfl hminus
  · exact hnat h
  · exact hnat h

theorem plain_hexNumber {text : String} {x : Binary64}
    (ht : Lexer.Shaped (.hexNumber, text.toList)) (h : hexNumber text = .ok x) : x.Plain := by
  obtain ⟨mark, digits, heq, hmark, hdigits⟩ := ht
  simp only at heq
  -- digits were scanned behind the marker, so no sign is among them
  have hminus : digits.head? ≠ some '-' := by
    intro hhead
    have hdigit := hdigits '-' (List.mem_of_mem_head? hhead)
    revert hdigit
    decide
  have hvalue : hexDigits? text.toList = some digits := by
    rw [heq]
    obtain rfl | rfl := hmark <;> rfl
  unfold hexNumber hexValue? at h
  rw [hvalue] at h
  simp only at h
  cases hsigned : Radix.signed 16 63 digits with
  | ok n =>
    rw [hsigned] at h
    cases h
    exact plain_signed hminus hsigned
  | error e =>
    rw [hsigned] at h
    cases e with
    | above =>
      cases h
      exact Binary64.plain_infinity
    | invalid => cases h
    | below => cases h

end Literal

/-! ## §3. What holds between two tokens. -/

/-- The group is sound up to the point that the parse has reached. -/
structure OpenGroup.Sound (names : Interner) (g : OpenGroup) : Prop where
  args : ∀ a ∈ g.args, Chain.WellFormed names a
  outer : Builds names g.outer
  attached : g.attached = true → EndsInName g.outer

theorem OpenGroup.Sound.mono {names names' : Interner} {g : OpenGroup}
    (hext : names.Extends names') (h : g.Sound names) : g.Sound names' :=
  ⟨fun a ha => (h.args a ha).mono hext, h.outer.mono hext, h.attached⟩

namespace Parser

variable {p q : Parser}

/-- The table is valid and knows the names of the bracket groups. -/
structure Rooted (p : Parser) : Prop where
  valid : p.names.Valid
  square : p.names.lookup? p.square = some squareBrackets
  curly : p.names.lookup? p.curly = some curlyBrackets

theorem rooted_new {names : Interner} (hv : names.Valid) : (new names).Rooted := by
  have hsquare := names.lookup?_intern squareBrackets
  have hv₁ := hv.intern squareBrackets
  have hcurly := (names.intern squareBrackets).2.lookup?_intern curlyBrackets
  have hext := Interner.extends_intern (names.intern squareBrackets).2 curlyBrackets
  exact ⟨hv₁.intern curlyBrackets, hext _ _ hsquare, hcurly⟩

theorem extends_new (names : Interner) : names.Extends (new names).names :=
  (Interner.extends_intern names squareBrackets).trans (Interner.extends_intern _ curlyBrackets)

/-- The name of a group can be written, whatever its bracket. -/
theorem Rooted.groupName (h : p.Rooted) (bracket : Char) :
    ∃ text, p.names.lookup? (p.groupName bracket) = some text ∧ IsNameText text := by
  unfold Parser.groupName
  split
  · exact ⟨_, h.square, isNameText_squareBrackets⟩
  · split
    · exact ⟨_, h.curly, isNameText_curlyBrackets⟩
    · exact ⟨_, h.valid.empty, isNameText_empty⟩

/-- The invariant of the parser. -/
structure Sound (p : Parser) : Prop extends Rooted p where
  groups : ∀ g ∈ p.groups, g.Sound p.names
  messages : Builds p.names p.messages
  callable : p.callable = true → EndsInName p.messages

theorem sound_new {names : Interner} (hv : names.Valid) : (new names).Sound where
  toRooted := rooted_new hv
  groups := by simp [new]
  messages := Builds.nil
  callable := by simp [new]

/-- A separator does not start a statement if a message other than a separator precedes it. -/
theorem exists_of_atStatementStart (h : p.atStatementStart = false) :
    ∃ prev before, p.messages = prev :: before ∧ prev.isSeparator = false := by
  unfold atStatementStart at h
  cases hmessages : p.messages with
  | nil =>
    rw [hmessages] at h
    cases h
  | cons prev before =>
    rw [hmessages] at h
    exact ⟨prev, before, rfl, h⟩

/-! ## §4. Each token keeps it so. -/

/-- Nothing but the mark of a callable name is lost when a token is taken. -/
theorem Sound.takeToken (h : p.Sound) (stop : Nat) :
    Sound { p with callable := false, lastStop := stop } where
  toRooted := ⟨h.valid, h.square, h.curly⟩
  groups := h.groups
  messages := h.messages
  callable := by simp

theorem Sound.push (h : p.Sound) (hcall : p.callable = false) {symbol : Symbol} {span : Span}
    (hm : (Message.ofSymbol symbol span).WellFormed p.names)
    (hsep : (Message.ofSymbol symbol span).isSeparator = true → p.atStatementStart = false) :
    (p.push symbol span).Sound where
  toRooted := ⟨h.valid, h.square, h.curly⟩
  groups := h.groups
  messages := h.messages.cons hm fun hs => exists_of_atStatementStart (hsep hs)
  callable := by simp [Parser.push, hcall]

theorem Sound.pushName (h : p.Sound) {text : String} (htext : IsNameText text) (span : Span) :
    Sound ({ p with names := (p.names.intern text).2, callable := true }.push
      (.ident (p.names.intern text).1) span) := by
  -- the table may have grown, which what was built before survives
  have hext := Interner.extends_intern p.names text
  refine ⟨⟨h.valid.intern text, hext _ _ h.square, hext _ _ h.curly⟩, ?_, ?_, ?_⟩
  · exact fun g hg => (h.groups g hg).mono hext
  · refine (h.messages.mono hext).cons ?_ (fun hsep => by cases hsep)
    exact .ident (p.names.lookup?_intern text) htext (by simp)
  · exact fun _ => ⟨_, _, _, rfl⟩

theorem Sound.literal {α : Type} (h : p.Sound) (hcall : p.callable = false) {span : Span}
    {value : Except ParseFault α} {symbol : α → Symbol}
    (hsymbol : ∀ x, value = .ok x → (Message.ofSymbol (symbol x) span).WellFormed p.names
      ∧ (Message.ofSymbol (symbol x) span).isSeparator = false)
    (hstep : p.literal span value symbol = .ok q) : q.Sound := by
  cases value with
  | error fault => cases hstep
  | ok x =>
    cases hstep
    obtain ⟨hwf, hsep⟩ := hsymbol x rfl
    exact h.push hcall hwf fun hs => by rw [hsep] at hs; cases hs

/-- A group that is attached interrupts the chain behind a bare name. -/
theorem Sound.openGroup (h : p.Sound) {wasCallable : Bool}
    (hcall : wasCallable = true → EndsInName p.messages) (hnot : p.callable = false)
    (bracket : Char) (span : Span) : (p.openGroup wasCallable bracket span).Sound := by
  refine ⟨⟨h.valid, h.square, h.curly⟩, ?_, Builds.nil, ?_⟩
  · intro g hg
    rcases List.mem_cons.mp hg with rfl | hg
    -- the chain that the group interrupts becomes its outer chain
    · refine ⟨by simp, h.messages, fun hattached => hcall ?_⟩
      exact (Bool.and_eq_true_iff.mp hattached).2
    · exact h.groups g hg
  · simp [Parser.openGroup, hnot]

theorem Sound.closeGroup (h : p.Sound) {g : OpenGroup} (hg : g.Sound p.names) {args : List Chain}
    (hargs : ∀ a ∈ args, Chain.WellFormed p.names a) (span : Span) :
    Builds p.names (p.closeGroup g args span) := by
  unfold Parser.closeGroup
  split
  · rename_i m before hattached houter
    -- the arguments go to the bare name before the group
    obtain ⟨name, place, before', heq⟩ := hg.attached hattached
    have hbuilds := hg.outer
    rw [heq] at houter hbuilds
    cases houter
    cases hbuilds.all _ List.mem_cons_self with
    | ident hname htext _ =>
      refine hbuilds.tail.cons (.ident hname htext hargs) (fun hsep => by cases hsep)
  · obtain ⟨text, hname, htext⟩ := h.groupName g.bracket
    exact hg.outer.cons (.ident hname htext hargs) (fun hsep => by cases hsep)

theorem Sound.close (h : p.Sound) (hcall : p.callable = false) {found : Char} {span : Span}
    (hstep : p.close found span = .ok q) : q.Sound := by
  unfold Parser.close at hstep
  cases hgroups : p.groups with
  | nil =>
    rw [hgroups] at hstep
    cases hstep
  | cons g groups =>
    have hall := h.groups
    rw [hgroups] at hstep hall
    simp only at hstep
    split at hstep
    · cases hstep
    split at hstep
    · cases hstep
    cases hstep
    have hg := hall g List.mem_cons_self
    refine ⟨⟨h.valid, h.square, h.curly⟩, ?_, ?_, by simp [hcall]⟩
    · exact fun g' hg' => hall g' (List.mem_cons_of_mem _ hg')
    -- the complete arguments, and the one that the bracket completes
    · refine h.closeGroup hg (fun a ha => ?_) _
      rcases List.mem_append.mp ha with ha | ha
      · exact hg.args a (List.mem_reverse.mp ha)
      · split at ha
        · cases ha
        · rename_i hne
          obtain rfl := List.mem_singleton.mp ha
          exact h.messages.wellFormed (by simpa using hne)

theorem Sound.comma (h : p.Sound) (hcall : p.callable = false) {span : Span}
    (hstep : p.comma span = .ok q) : q.Sound := by
  unfold Parser.comma at hstep
  cases hgroups : p.groups with
  | nil =>
    rw [hgroups] at hstep
    cases hstep
  | cons g groups =>
    have hall := h.groups
    rw [hgroups] at hstep hall
    simp only at hstep
    split at hstep
    · cases hstep
    rename_i hne
    cases hstep
    refine ⟨⟨h.valid, h.square, h.curly⟩, ?_, Builds.nil, by simp [hcall]⟩
    intro g' hg'
    rcases List.mem_cons.mp hg' with rfl | hg'
    · have hg := hall g List.mem_cons_self
      refine ⟨fun a ha => ?_, hg.outer, hg.attached⟩
      rcases List.mem_cons.mp ha with rfl | ha
      · exact h.messages.wellFormed (by simpa using hne)
      · exact hg.args a ha
    · exact hall g' (List.mem_cons_of_mem _ hg')

/-- **One token.** -/
theorem Sound.step (h : p.Sound) {t : Token} (ht : Lexer.Shaped t.key)
    (hstep : p.step t = .ok q) : q.Sound := by
  have h' := h.takeToken t.span.stop
  unfold Parser.step at hstep
  unfold Token.key at ht
  cases hkind : t.kind with
  | malformed =>
    rw [hkind] at hstep
    cases hstep
  | separator =>
    rw [hkind] at hstep
    simp only at hstep
    split at hstep
    · cases hstep
      exact h'
    · rename_i hstart
      cases hstep
      exact h'.push rfl .separator fun _ => by simpa using hstart
  | identifier =>
    rw [hkind] at hstep ht
    cases hstep
    exact h'.pushName (isNameText_of_isName ht) t.span
  | number =>
    rw [hkind] at hstep ht
    exact h'.literal rfl (fun x hx => ⟨.number (Literal.plain_number ht hx), rfl⟩) hstep
  | hexNumber =>
    rw [hkind] at hstep ht
    exact h'.literal rfl (fun x hx => ⟨.number (Literal.plain_hexNumber ht hx), rfl⟩) hstep
  | string =>
    rw [hkind] at hstep
    exact h'.literal rfl (fun x _ => ⟨.text, rfl⟩) hstep
  | triQuote =>
    rw [hkind] at hstep
    exact h'.literal rfl (fun x _ => ⟨.text, rfl⟩) hstep
  | opening =>
    rw [hkind] at hstep
    cases hstep
    exact h'.openGroup h.callable rfl _ _
  | closing =>
    rw [hkind] at hstep
    exact h'.close rfl hstep
  | comma =>
    rw [hkind] at hstep
    exact h'.comma rfl hstep

/-! ## §5. Whole programs. -/

theorem Sound.result (h : p.Sound) {c : Chain} (hresult : p.result = .ok (some c)) :
    Chain.WellFormed p.names c := by
  unfold Parser.result at hresult
  split at hresult
  · cases hresult
  · split at hresult
    · cases hresult
    · rename_i hne
      cases hresult
      exact h.messages.wellFormed (by simpa using hne)

/-- **A run.**  Names stay valid even if the parse ends with an error. -/
theorem Sound.run {tokens : List Token} (h : p.Sound)
    (htokens : ∀ t ∈ tokens, Lexer.Shaped t.key) :
    (p.run tokens).names.Valid
      ∧ ∀ c, (p.run tokens).result = .ok (some c) → Chain.WellFormed (p.run tokens).names c := by
  induction tokens generalizing p with
  | nil => exact ⟨h.valid, fun c hc => h.result hc⟩
  | cons t tokens ih =>
    rw [Parser.run]
    split
    · rename_i q hstep
      have hq : q.Sound := h.step (htokens t List.mem_cons_self) hstep
      exact ih hq fun u hu => htokens u (List.mem_cons_of_mem _ hu)
    -- an error leaves the table as it was before the token
    · refine ⟨h.valid, fun c hc => ?_⟩
      cases hc

end Parser

/-- The chain of a program is its result. -/
theorem Parsed.result_eq {parsed : Parsed} {c : Chain}
    (h : parsed.result.toOption.join = some c) : parsed.result = .ok (some c) := by
  cases hresult : parsed.result with
  | error e =>
    rw [hresult] at h
    cases h
  | ok o =>
    rw [hresult] at h
    exact congrArg Except.ok h

section

variable {names : Interner}

theorem valid_parse (hv : names.Valid) (text : String) : (parse names text).names.Valid :=
  ((Parser.sound_new hv).run fun _ ht => Lexer.shaped_of_mem_tokens ht).1

/-- **Whatever is parsed is well-formed.** -/
theorem wellFormed_of_parse (hv : names.Valid) {text : String} {c : Chain}
    (h : (parse names text).result = .ok (some c)) :
    Chain.WellFormed (parse names text).names c :=
  ((Parser.sound_new hv).run fun _ ht => Lexer.shaped_of_mem_tokens ht).2 c h

end

end Prototalk
