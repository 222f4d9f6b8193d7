/-
  Prototalk.Proofs.Message.Excerpt
  ────────────────────────────────
  **SPANS POINT AT WHAT THEY ARE SPANS OF.**

  The text at the span of a chain, cut out of the program, parses as the
  chain, and so does the text at the span of a message; spans of neighbours
  are apart, and arguments lie inside of their message (`faithful_parse`).

    • The span of a message reaches from the first to the last of the tokens
      that spell it (`Message.Spelled.frames`), and so does the span of a
      chain, once the separators around it are left out (`Level.core`);
    • every chain in the tree is spelled by neighbouring tokens
      (`Chain.Inside.segment`), so spans are apart where tokens are
      (`Span.Within.le`);
    • the text of neighbouring tokens has the same tokens when it stands
      alone, and tokens that spell a chain read as the chain.
-/
import Prototalk.Proofs.Message.Respelling
import Prototalk.Proofs.Token.Excerpt

namespace Prototalk

/-! ## §1. From a token to a later one. -/

/-- Tokens that are not empty and that stand one behind the other. -/
structure InOrder (tokens : List Token) : Prop where
  nonempty : ∀ t ∈ tokens, t.span.start < t.span.stop
  ordered : tokens.Pairwise fun t u => t.span.stop ≤ u.span.start

/-- The span reaches from the first token to the last. -/
def Span.Frames (span : Span) (tokens : List Token) : Prop :=
  ∃ first last, tokens.head? = some first ∧ tokens.getLast? = some last
    ∧ span = ⟨first.span.start, last.span.stop⟩

/-- The span reaches from one of the tokens to the same or to a later one. -/
def Span.Within (span : Span) (tokens : List Token) : Prop :=
  ∃ core, core <:+: tokens ∧ span.Frames core

namespace InOrder

variable {tokens more : List Token} {t first last : Token}

theorem sublist (h : InOrder tokens) (hmore : more.Sublist tokens) : InOrder more :=
  ⟨fun t ht => h.nonempty t (hmore.subset ht), h.ordered.sublist hmore⟩

theorem start_le (h : InOrder tokens) (hfirst : tokens.head? = some first) (ht : t ∈ tokens) :
    first.span.start ≤ t.span.start := by
  obtain ⟨rest, rfl⟩ := List.head?_eq_some_iff.mp hfirst
  rcases List.mem_cons.mp ht with rfl | hrest
  · exact Nat.le_refl _
  · have hbefore := (List.pairwise_cons.mp h.ordered).1 t hrest
    have hlt := h.nonempty first List.mem_cons_self
    omega

theorem le_stop (h : InOrder tokens) (hlast : tokens.getLast? = some last) (ht : t ∈ tokens) :
    t.span.stop ≤ last.span.stop := by
  obtain ⟨rest, rfl⟩ := List.getLast?_eq_some_iff.mp hlast
  rcases List.mem_append.mp ht with hrest | hlast
  · have hbefore := (List.pairwise_append.mp h.ordered).2.2 t hrest last (by simp)
    have hlt := h.nonempty last (by simp)
    omega
  · rw [List.mem_singleton.mp hlast]

end InOrder

namespace Span

variable {s u : Span} {tokens more front back : List Token}

theorem frames_singleton (t : Token) : t.span.Frames [t] := ⟨t, t, rfl, rfl, rfl⟩

theorem Frames.lt (h : s.Frames tokens) (horder : InOrder tokens) : s.start < s.stop := by
  obtain ⟨first, last, hfirst, hlast, rfl⟩ := h
  have hlt := horder.nonempty first (List.mem_of_head? hfirst)
  have hle := horder.le_stop hlast (List.mem_of_head? hfirst)
  exact Nat.lt_of_lt_of_le hlt hle

theorem Within.lt (h : s.Within tokens) (horder : InOrder tokens) : s.start < s.stop := by
  obtain ⟨core, hcore, hframes⟩ := h
  exact hframes.lt (horder.sublist hcore.sublist)

theorem Frames.within (h : s.Frames tokens) : s.Within tokens := ⟨tokens, List.infix_rfl, h⟩

theorem Within.mono (h : s.Within tokens) (hmore : tokens <:+: more) : s.Within more := by
  obtain ⟨core, hcore, hframes⟩ := h
  exact ⟨core, hcore.trans hmore, hframes⟩

/-- **Spans in tokens behind one another are apart.** -/
theorem Within.le (hs : s.Within front) (hu : u.Within back) (horder : InOrder (front ++ back)) :
    s.stop ≤ u.start := by
  obtain ⟨core, hcore, first, last, hfirst, hlast, rfl⟩ := hs
  obtain ⟨core', hcore', first', last', hfirst', hlast', rfl⟩ := hu
  have hmem : last ∈ front := hcore.subset (List.mem_of_getLast? hlast)
  have hmem' : first' ∈ back := hcore'.subset (List.mem_of_head? hfirst')
  exact (List.pairwise_append.mp horder.ordered).2.2 last hmem first' hmem'

/-- A span at the start of the tokens and one at their end. -/
theorem Frames.merge (hs : s.Frames front) (hu : u.Frames back) (hfront : front <+: tokens)
    (hback : back <:+ tokens) (horder : InOrder tokens) : (s.merge u).Frames tokens := by
  obtain ⟨first, last, hfirst, hlast, rfl⟩ := hs
  obtain ⟨first', last', hfirst', hlast', rfl⟩ := hu
  have hhead : tokens.head? = some first := by
    obtain ⟨rest, rfl⟩ := hfront
    rw [List.head?_append, hfirst]
    rfl
  have hend : tokens.getLast? = some last' := by
    obtain ⟨rest, rfl⟩ := hback
    rw [List.getLast?_append, hlast']
    rfl
  have hstart := horder.start_le hhead (hback.subset (List.mem_of_head? hfirst'))
  have hstop := horder.le_stop hend (hfront.subset (List.mem_of_getLast? hlast))
  refine ⟨first, last', hhead, hend, ?_⟩
  simp only [Span.merge, Nat.min_eq_left hstart, Nat.max_eq_right hstop]

end Span

/-! ## §2. The places of messages and chains. -/

section

variable {names : Interner} {tokens : List Token} {messages : List Message} {m : Message}
  {args : List Chain} {a c d : Chain}

/-- **The span of a message** reaches from its first token to its last. -/
theorem Message.Spelled.frames (h : m.Spelled names tokens) (horder : InOrder tokens) :
    m.span.Frames tokens := by
  cases h with
  | name | literal | separator => exact Span.frames_singleton _
  | @call t first last inner =>
    -- the brackets first, then the name before them
    have hgroup : InOrder (first :: (inner ++ [last])) := horder.sublist (List.sublist_cons_self ..)
    refine (Span.frames_singleton t).merge ?_ (by simp) (List.suffix_cons ..) horder
    exact (Span.frames_singleton first).merge (Span.frames_singleton last) (by simp)
      (List.suffix_append (first :: inner) _) hgroup
  | @group first last inner =>
    exact (Span.frames_singleton first).merge (Span.frames_singleton last) (by simp)
      (List.suffix_append (first :: inner) _) horder

/-- Tokens of a chain, from those of its first message to those of its last. -/
structure Core (names : Interner) (core : List Token) (messages : List Message) : Prop where
  level : Level (Message.Spelled names) core messages
  first : ∃ m front, messages.getLast? = some m ∧ front <+: core ∧ m.Spelled names front
  last : ∃ m back, messages.head? = some m ∧ back <:+ core ∧ m.Spelled names back

/-- **The span of a chain** reaches from its first token to its last. -/
theorem Core.frames (h : Core names tokens messages) (horder : InOrder tokens) :
    (Chain.span messages.reverse).Frames tokens := by
  obtain ⟨m, front, hm, hfront, hspelled⟩ := h.first
  obtain ⟨n, back, hn, hback, hspelled'⟩ := h.last
  have hspan : Chain.span messages.reverse = m.span.merge n.span := by
    simp [Chain.span, hm, hn]
  rw [hspan]
  exact (hspelled.frames (horder.sublist hfront.sublist)).merge
    (hspelled'.frames (horder.sublist hback.sublist)) hfront hback horder

/-- A chain of one message. -/
theorem Message.Spelled.level (h : m.Spelled names tokens)
    (hsep : m.isSeparator = true → startsStatement [] = false) :
    Level (Message.Spelled names) tokens [m] := by
  have hlevel := Level.message .nil h h.ne_nil hsep fun _ => rfl
  rwa [List.nil_append] at hlevel

/-- Separators around a chain do not belong to it. -/
theorem Level.core (h : Level (Message.Spelled names) tokens messages) (hne : messages ≠ []) :
    ∃ lead core trail, tokens = lead ++ (core ++ trail) ∧ Core names core messages
      ∧ Level (Message.Spelled names) (core ++ trail) messages := by
  induction h with
  | nil => exact absurd rfl hne
  | @absorbed tokens messages t h hkind hstart ih =>
    obtain ⟨lead, core, trail, rfl, hcore, hlevel⟩ := ih hne
    refine ⟨lead, core, trail ++ [t], by simp, hcore, ?_⟩
    rw [← List.append_assoc]
    exact .absorbed hlevel hkind hstart
  | @message tokens more messages m h hm hmore hsep hround ih =>
    cases messages with
    | nil =>
      -- the first message: separators before it may be left out
      have hlevel := hm.level hsep
      refine ⟨tokens, more, [], by simp, ⟨hlevel, ?_, ?_⟩, by simpa using hlevel⟩
      · exact ⟨m, more, rfl, List.prefix_rfl, hm⟩
      · exact ⟨m, more, rfl, List.suffix_rfl, hm⟩
    | cons n messages =>
      obtain ⟨lead, core, trail, rfl, hcore, hlevel⟩ := ih (List.cons_ne_nil _ _)
      obtain ⟨m', front, hm', hfront, hspelled⟩ := hcore.first
      have hnext : Level (Message.Spelled names) (core ++ trail ++ more) (m :: n :: messages) := by
        refine .message hlevel hm hmore hsep fun hstart => ?_
        have hends := hround hstart
        rwa [endsInIdentifier_append] at hends
        intro hnil
        obtain ⟨rfl, -⟩ := List.append_eq_nil_iff.mp hnil
        exact hspelled.ne_nil (List.prefix_nil.mp hfront)
      refine ⟨lead, core ++ trail ++ more, [], by simp, ⟨hnext, ?_, ?_⟩, by simpa using hnext⟩
      · rw [List.append_assoc]
        exact ⟨m', front, by simpa using hm', hfront.trans (List.prefix_append ..), hspelled⟩
      · exact ⟨m, more, rfl, List.suffix_append .., hm⟩

/-- The messages of a chain are spelled by neighbouring tokens each. -/
theorem Level.exists_spelled (h : Level (Message.Spelled names) tokens messages)
    (hm : m ∈ messages) : ∃ more, more <:+: tokens ∧ m.Spelled names more := by
  induction h with
  | nil => cases hm
  | @absorbed tokens messages t h hkind hstart ih =>
    obtain ⟨more, hmore, hspelled⟩ := ih hm
    exact ⟨more, hmore.trans (List.prefix_append ..).isInfix, hspelled⟩
  | @message tokens own messages n h hn hown hsep hround ih =>
    rcases List.mem_cons.mp hm with rfl | hm
    · exact ⟨own, (List.suffix_append ..).isInfix, hn⟩
    · obtain ⟨more, hmore, hspelled⟩ := ih hm
      exact ⟨more, hmore.trans (List.prefix_append ..).isInfix, hspelled⟩

theorem Level.within (h : Level (Message.Spelled names) tokens messages)
    (horder : InOrder tokens) (hm : m ∈ messages) : m.span.Within tokens := by
  obtain ⟨more, hmore, hspelled⟩ := h.exists_spelled hm
  exact ⟨more, hmore, hspelled.frames (horder.sublist hmore.sublist)⟩

theorem Level.span_within (h : Level (Message.Spelled names) tokens messages)
    (horder : InOrder tokens) (hne : messages ≠ []) :
    (Chain.span messages.reverse).Within tokens := by
  obtain ⟨lead, core, trail, rfl, hcore, -⟩ := h.core hne
  have hinfix : core <:+: lead ++ (core ++ trail) := ⟨lead, trail, by simp⟩
  exact ⟨core, hinfix, hcore.frames (horder.sublist hinfix.sublist)⟩

/-- **The messages of a chain are apart and in order.** -/
theorem Level.ordered (h : Level (Message.Spelled names) tokens messages)
    (horder : InOrder tokens) :
    messages.reverse.Pairwise fun m n => m.span.stop ≤ n.span.start := by
  rw [List.pairwise_reverse]
  induction h with
  | nil => exact .nil
  | absorbed h hkind hstart ih => exact ih (horder.sublist (List.sublist_append_left ..))
  | @message tokens more messages m h hm hmore hsep hround ih =>
    have hleft := horder.sublist (List.sublist_append_left ..)
    have hright := horder.sublist (List.sublist_append_right ..)
    refine .cons (fun n hn => ?_) (ih hleft)
    exact (h.within hleft hn).le (hm.frames hright).within horder

/-! ## §3. Arguments. -/

/-- Arguments are spelled by neighbouring tokens each. -/
theorem Arguments.exists_level (h : Arguments (Message.Spelled names) tokens args) (ha : a ∈ args) :
    a ≠ [] ∧ ∃ more, more <:+: tokens ∧ Level (Message.Spelled names) more a.reverse := by
  induction h with
  | none h => cases ha
  | @one tokens messages h hne =>
    obtain rfl := List.mem_singleton.mp ha
    exact ⟨by simpa using hne, tokens, List.infix_rfl, by simpa using h⟩
  | @more tokens last t args messages hargs hsome hkind h hne ih =>
    rcases List.mem_append.mp ha with ha | ha
    · obtain ⟨hne, more, hmore, hlevel⟩ := ih ha
      exact ⟨hne, more, hmore.trans (List.prefix_append ..).isInfix, hlevel⟩
    · obtain rfl := List.mem_singleton.mp ha
      refine ⟨by simpa using hne, last, ?_, by simpa using h⟩
      exact ((List.suffix_cons t last).trans (List.suffix_append ..)).isInfix

theorem Arguments.within (h : Arguments (Message.Spelled names) tokens args)
    (horder : InOrder tokens) (ha : a ∈ args) : (Chain.span a).Within tokens := by
  obtain ⟨hne, more, hmore, hlevel⟩ := h.exists_level ha
  have hspan := hlevel.span_within (horder.sublist hmore.sublist) (by simpa using hne)
  rw [List.reverse_reverse] at hspan
  exact hspan.mono hmore

/-- **The arguments of a message are apart and in order.** -/
theorem Arguments.ordered (h : Arguments (Message.Spelled names) tokens args)
    (horder : InOrder tokens) :
    args.Pairwise fun a b => (Chain.span a).stop ≤ (Chain.span b).start := by
  induction h with
  | none h => exact .nil
  | one h hne => exact List.pairwise_singleton ..
  | @more tokens last t args messages hargs hsome hkind h hne ih =>
    have hleft := horder.sublist (List.sublist_append_left ..)
    have hright := horder.sublist (List.sublist_append_right ..)
    refine List.pairwise_append.mpr ⟨ih hleft, List.pairwise_singleton .., fun a ha b hb => ?_⟩
    obtain rfl := List.mem_singleton.mp hb
    have hlast := h.span_within (hright.sublist (List.sublist_cons_self ..)) hne
    exact (hargs.within hleft ha).le (hlast.mono (List.suffix_cons ..).isInfix) horder

/-- A message with arguments has them between its brackets. -/
theorem Message.Spelled.arguments (h : m.Spelled names tokens) (ha : a ∈ m.args) :
    ∃ front inner last, tokens = front ++ (inner ++ [last]) ∧ front ≠ []
      ∧ Arguments (Message.Spelled names) inner m.args := by
  cases h with
  | name | literal | separator => cases ha
  | @call t first last inner _ _ _ _ _ _ _ _ hargs =>
    exact ⟨[t, first], inner, last, rfl, List.cons_ne_nil _ _, hargs⟩
  | @group first last inner _ _ _ _ _ _ hargs =>
    exact ⟨[first], inner, last, rfl, List.cons_ne_nil _ _, hargs⟩

theorem Message.Spelled.args_ordered (h : m.Spelled names tokens) (horder : InOrder tokens) :
    m.args.Pairwise fun a b => (Chain.span a).stop ≤ (Chain.span b).start := by
  cases hargs : m.args with
  | nil => exact .nil
  | cons a args =>
    obtain ⟨front, inner, last, rfl, -, harguments⟩ := h.arguments (hargs ▸ List.mem_cons_self)
    rw [← hargs]
    exact harguments.ordered (horder.sublist
      ((List.sublist_append_left ..).trans (List.sublist_append_right ..)))

/-- **Arguments lie inside of their message**, whose brackets are around them. -/
theorem Message.Spelled.inside (h : m.Spelled names tokens) (horder : InOrder tokens)
    (ha : a ∈ m.args) :
    m.span.start < (Chain.span a).start ∧ (Chain.span a).stop < m.span.stop := by
  obtain ⟨front, inner, last, rfl, hfront, hargs⟩ := h.arguments ha
  obtain ⟨first, final, hfirst, hfinal, hspan⟩ := h.frames horder
  have hright := horder.sublist (List.sublist_append_right ..)
  have hspan' := hargs.within (hright.sublist (List.sublist_append_left ..)) ha
  have hlast := hspan'.le (Span.frames_singleton last).within hright
  have hhead : [first] <+: front := by
    obtain ⟨t, rest, rfl⟩ := List.exists_cons_of_ne_nil hfront
    obtain rfl : t = first := by simpa using hfirst
    simp
  have hbefore : first.span.Within front := (Span.frames_singleton first).within.mono hhead.isInfix
  have hstart := hbefore.le (hspan'.mono (List.prefix_append ..).isInfix) horder
  obtain rfl : last = final := by simpa using hfinal
  have hlt := horder.nonempty first (List.mem_of_head? hfirst)
  have hlt' := horder.nonempty last (by simp)
  rw [hspan]
  exact ⟨by simp only; omega, by simp only; omega⟩

/-! ## §4. The tree. -/

/-- `Chain.Inside c d` says that `d` is `c`, or an argument of a message in it, at any depth. -/
inductive Chain.Inside : Chain → Chain → Prop where
  | self (c : Chain) : Chain.Inside c c
  | arg {c a d : Chain} {m : Message} (hm : m ∈ c) (ha : a ∈ m.args) (h : Chain.Inside a d) :
      Chain.Inside c d

/-- Every chain in the tree is spelled by neighbouring tokens. -/
theorem Chain.Inside.segment (h : Chain.Inside c d)
    (hlevel : Level (Message.Spelled names) tokens c.reverse) (hne : c ≠ []) :
    d ≠ [] ∧ ∃ more, more <:+: tokens ∧ Level (Message.Spelled names) more d.reverse := by
  induction h generalizing tokens with
  | self c => exact ⟨hne, tokens, List.infix_rfl, hlevel⟩
  | @arg c a d m hm ha h ih =>
    obtain ⟨own, hown, hspelled⟩ := hlevel.exists_spelled (List.mem_reverse.mpr hm)
    obtain ⟨front, inner, last, rfl, -, hargs⟩ := hspelled.arguments ha
    obtain ⟨hane, more, hmore, hmoreLevel⟩ := hargs.exists_level ha
    obtain ⟨hdne, part, hpart, hpartLevel⟩ := ih hmoreLevel hane
    have hinner : inner <:+: front ++ (inner ++ [last]) := ⟨front, [last], by simp⟩
    exact ⟨hdne, part, ((hpart.trans hmore).trans hinner).trans hown, hpartLevel⟩

end

/-! ## §5. Excerpts of a program. -/

/-- No malformed token is among those of a program. -/
theorem Parser.kind_ne_malformed {p : Parser} {tokens : List Token} {c : Option Chain}
    (h : (p.run tokens).result = .ok c) : ∀ t ∈ tokens, t.kind ≠ .malformed := by
  induction tokens generalizing p with
  | nil => simp
  | cons t tokens ih =>
    rw [Parser.run] at h
    split at h
    · rename_i q hstep
      refine List.forall_mem_cons.mpr ⟨fun hkind => ?_, ih h⟩
      simp [Parser.step, hkind] at hstep
    · cases h

/-- The text at the span, cut out of `s`, parses as the chain. -/
def Chain.ReadsAt (names : Interner) (s : String) (span : Span) (c : Chain) : Prop :=
  ∃ part, span.Marks s part
    ∧ ∃ c', (parse names part).result = .ok (some c') ∧ Chain.same c' c = true

/-- Spans of a chain, of its messages and of their arguments are as they should be. -/
structure Chain.Faithful (names : Interner) (s : String) (d : Chain) : Prop where
  /-- The text at the span of the chain parses as the chain. -/
  chain : Chain.ReadsAt names s (Chain.span d) d
  /-- The text at the span of a message parses as this message. -/
  message : ∀ m ∈ d, m.isSeparator = false → Chain.ReadsAt names s m.span [m]
  /-- No span is empty, -/
  nonempty : (Chain.span d).start < (Chain.span d).stop ∧ ∀ m ∈ d, m.span.start < m.span.stop
  /-- messages are apart and in order, -/
  messages : d.Pairwise fun m n => m.span.stop ≤ n.span.start
  /-- and so are the arguments of each of them, -/
  arguments : ∀ m ∈ d, m.args.Pairwise fun a b => (Chain.span a).stop ≤ (Chain.span b).start
  /-- which lie inside of the message. -/
  inside : ∀ m ∈ d, ∀ a ∈ m.args,
    m.span.start < (Chain.span a).start ∧ (Chain.span a).stop < m.span.stop

theorem inOrder_tokenize {s : String} (hs : s.utf8ByteSize < 2 ^ 32) : InOrder (tokenize s) :=
  ⟨start_lt_stop_of_mem_tokenize hs, (Tiles.tiles_tokenize s).ordered⟩

section

variable {names : Interner} (hv : names.Valid) {s : String} (hs : s.utf8ByteSize < 2 ^ 32)
  (hproper : ∀ t ∈ tokenize s, t.kind ≠ .malformed) {tokens : List Token}
  {messages : List Message} {d : Chain}

include hv hs hproper

/-- Neighbouring tokens that spell a chain mark a text that parses as the chain. -/
theorem Level.readsAt (h : Level (Message.Spelled names) tokens messages) (hne : messages ≠ [])
    (htokens : tokens <:+: tokenize s) {span : Span} (hframes : span.Frames tokens) :
    Chain.ReadsAt names s span messages.reverse := by
  obtain ⟨pre, post, htokens⟩ := htokens
  obtain ⟨first, last, hfirst, hlast, rfl⟩ := hframes
  rw [List.append_assoc] at htokens
  obtain ⟨part, hmarks, hkeys⟩ := tokenize_excerpt hs hproper htokens.symm hfirst hlast
  have hlevel : Level (Parser.Rereads names) tokens messages :=
    h.mono fun m _ more hm => Parser.rereads_of_spelled hm
  exact ⟨part, hmarks, parses_of_level hv hlevel hne hkeys⟩

/-- A chain that is spelled by neighbouring tokens has the right spans. -/
theorem Level.faithful (h : Level (Message.Spelled names) tokens d.reverse) (hne : d ≠ [])
    (htokens : tokens <:+: tokenize s) : Chain.Faithful names s d := by
  have horder : InOrder tokens := (inOrder_tokenize hs).sublist htokens.sublist
  have hne' : d.reverse ≠ [] := by simpa using hne
  have hmessage : ∀ m ∈ d, ∃ own, own <:+: tokens ∧ m.Spelled names own ∧ InOrder own := by
    intro m hm
    obtain ⟨own, hown, hspelled⟩ := h.exists_spelled (List.mem_reverse.mpr hm)
    exact ⟨own, hown, hspelled, horder.sublist hown.sublist⟩
  refine ⟨?_, fun m hm hsep => ?_, ⟨?_, fun m hm => ?_⟩, ?_, fun m hm => ?_, fun m hm a ha => ?_⟩
  · obtain ⟨lead, core, trail, rfl, hcore, -⟩ := h.core hne'
    have hpart : core <:+: lead ++ (core ++ trail) := ⟨lead, trail, by simp⟩
    have hframes := hcore.frames (horder.sublist hpart.sublist)
    have hreads := hcore.level.readsAt hv hs hproper hne' (hpart.trans htokens) hframes
    rwa [List.reverse_reverse] at hreads
  · obtain ⟨own, hown, hspelled, hownOrder⟩ := hmessage m hm
    have hlevel := hspelled.level fun h => by rw [hsep] at h; cases h
    exact hlevel.readsAt hv hs hproper (List.cons_ne_nil _ _) (hown.trans htokens)
      (hspelled.frames hownOrder)
  · have hspan := h.span_within horder hne'
    rw [List.reverse_reverse] at hspan
    exact hspan.lt horder
  · obtain ⟨own, -, hspelled, hownOrder⟩ := hmessage m hm
    exact (hspelled.frames hownOrder).lt hownOrder
  · have hordered := h.ordered horder
    rwa [List.reverse_reverse] at hordered
  · obtain ⟨own, -, hspelled, hownOrder⟩ := hmessage m hm
    exact hspelled.args_ordered hownOrder
  · obtain ⟨own, -, hspelled, hownOrder⟩ := hmessage m hm
    exact hspelled.inside hownOrder ha

end

/-- **Spans point at what they are spans of.**  Of a program in a text that offsets can count, read
with any table that a program can have, the chain and every argument in it can be read again from
the text at its span, with the names known by then, and so can every message that is no separator;
spans are apart where they should be, and inside of one another where they should be. -/
theorem faithful_parse (texts : List String) (s : String) (hs : s.utf8ByteSize < 2 ^ 32) (c : Chain)
    (h : (parse (Interner.new.internAll texts) s).result = .ok (some c)) (d : Chain)
    (hd : Chain.Inside c d) :
    Chain.Faithful (parse (Interner.new.internAll texts) s).names s d := by
  have hnames := Interner.valid_internAll texts
  have hlevel := level_of_parseTokens hnames (fun t ht => Lexer.shaped_of_mem_tokens ht) h
  obtain ⟨hne, tokens, htokens, hdlevel⟩ := hd.segment hlevel (wellFormed_of_parse hnames h).ne_nil
  exact hdlevel.faithful (valid_parse hnames s) hs (Parser.kind_ne_malformed h) hne htokens

/-- A program with separators at all places, and with characters of several bytes. -/
def spacedProgram : String := ";é (; a ;\n\"ü\" 0x1F, ; [x] ; (y) ; ) ; ; b"

theorem faithful_parse_spacedProgram :
    let parsed := parse (Interner.new.internAll []) spacedProgram
    spacedProgram.utf8ByteSize < 2 ^ 32
      ∧ ∃ c a, parsed.result = .ok (some c) ∧ Chain.Inside c a ∧ Chain.span a = ⟨24, 35⟩
        ∧ Chain.Faithful parsed.names spacedProgram a := by
  -- the last argument of the first message
  have hcheck : ((parse (Interner.new.internAll []) spacedProgram).result.toOption.join.bind
      fun c => c.head?.bind fun m => m.args.getLast?).map Chain.span = some ⟨24, 35⟩ := by
    decide +kernel
  obtain ⟨a, hcheck, hspan⟩ := Option.map_eq_some_iff.mp hcheck
  obtain ⟨c, hc, hcheck⟩ := Option.bind_eq_some_iff.mp hcheck
  obtain ⟨m, hm, ha⟩ := Option.bind_eq_some_iff.mp hcheck
  have hresult := Parsed.result_eq hc
  have hinside := Chain.Inside.arg (List.mem_of_head? hm) (List.mem_of_getLast? ha) (.self a)
  have hsize : spacedProgram.utf8ByteSize < 2 ^ 32 := by decide
  exact ⟨hsize, c, a, hresult, hinside, hspan, faithful_parse [] _ hsize c hresult a hinside⟩

end Prototalk
