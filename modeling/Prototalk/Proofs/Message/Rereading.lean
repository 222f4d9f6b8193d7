/-
  Prototalk.Proofs.Message.Rereading
  ────────────────────────────────
  **THE TEXT OF A PROGRAM READS AS THE PROGRAM, WITH THE SAME NAMES.**

  A program that is written and read again is the same program, but that
  says little about the names: the text may be read with the table that the
  program itself was read with, before the program added its names to it.

  The table after a parse depends on the identifiers alone, in the order in
  which they stand (`Parser.names_run`).  That order is the order of the names
  in the listing of the chain, brackets apart, whose names every parse knows
  from the start (`internAll_entryTexts`).  So a text and the text it is
  written as leave the same table, and a parse does not notice whether its
  names were known before (`Parser.run_of_knowing`).

  Main statement: `parse_toSource`.
-/
import Prototalk.Proofs.Message.Listing
import Prototalk.Proofs.Message.RoundTrip
import Prototalk.Proofs.Message.Unplaced

namespace Prototalk

/-! ## §1. The table after a parse. -/

/-- The texts of the identifiers among tokens. -/
def identifierTexts (tokens : List Token) : List String :=
  (tokens.filter (·.kind = .identifier)).map (·.value)

theorem identifierTexts_cons (t : Token) (tokens : List Token) :
    identifierTexts (t :: tokens) = identifierTexts [t] ++ identifierTexts tokens := by
  by_cases h : t.kind = .identifier <;> simp [identifierTexts, h]

namespace Parser

variable {p q : Parser} {t : Token} {tokens : List Token} {names larger : Interner}

theorem Taken.names_eq (h : Taken p t q) : q.names = p.names.internAll (identifierTexts [t]) := by
  cases h with
  | name hkind => simp [identifierTexts, hkind, push, Interner.internAll]
  | literal hkind hvalue =>
    have hnot : t.kind ≠ .identifier := TokenKind.ne_of_isLiteral hkind rfl
    simp [identifierTexts, hnot, push, past, Interner.internAll]
  | absorbed hkind | separator hkind | opening hkind | closing hkind | comma hkind =>
    simp [identifierTexts, hkind, push, past, openGroup, Interner.internAll]

/-- **The table after a parse**: the identifiers got names, in the order in which they stand. -/
theorem names_run {c : Option Chain} (h : (p.run tokens).result = .ok c) :
    (p.run tokens).names = p.names.internAll (identifierTexts tokens) := by
  induction tokens generalizing p with
  | nil => rfl
  | cons t tokens ih =>
    rw [Parser.run] at h ⊢
    split at h
    · rename_i q hstep
      rw [ih h, (step_eq_ok_iff.mp hstep).names_eq, ← Interner.internAll_append,
        ← identifierTexts_cons]
    · cases h

/-! ## §2. Names that are known before. -/

/-- A parser that knows the names to come takes a token as one that does not know them yet. -/
theorem Taken.of_knowing {q' : Parser} (h : Taken { p with names := larger } t q')
    (hlarger : larger.Valid)
    (hext : (p.names.internAll (identifierTexts [t])).Extends larger) :
    ∃ q, Taken p t q ∧ q' = { q with names := larger } := by
  cases h with
  | absorbed hkind hstart => exact ⟨_, .absorbed hkind hstart, rfl⟩
  | separator hkind hstart => exact ⟨_, .separator hkind hstart, rfl⟩
  | name hkind =>
    refine ⟨_, .name hkind, ?_⟩
    have hname : larger.intern t.value = ((p.names.intern t.value).1, larger) := by
      refine hlarger.intern_of_lookup? (hext _ _ ?_)
      simpa [identifierTexts, hkind, Interner.internAll] using p.names.lookup?_intern t.value
    simp [hname, push, past]
  | literal hkind hvalue => exact ⟨_, .literal hkind hvalue, rfl⟩
  | opening hkind => exact ⟨_, .opening hkind, rfl⟩
  | closing hkind hgroups hfit hfull => exact ⟨_, .closing hkind hgroups hfit hfull, rfl⟩
  | comma hkind hgroups hfull => exact ⟨_, .comma hkind hgroups hfull, rfl⟩

/-- **A parse that knows its names before is a parse that does not.** -/
theorem run_of_knowing {c : Option Chain} (hlarger : larger.Valid)
    (hext : (p.names.internAll (identifierTexts tokens)).Extends larger)
    (h : ({ p with names := larger }.run tokens).result = .ok c) :
    (p.run tokens).result = .ok c := by
  induction tokens generalizing p with
  | nil => exact h
  | cons t tokens ih =>
    rw [identifierTexts_cons, Interner.internAll_append] at hext
    rw [Parser.run] at h
    split at h
    · rename_i q' hstep
      obtain ⟨q, hq, rfl⟩ := (step_eq_ok_iff.mp hstep).of_knowing hlarger
        ((Interner.extends_internAll _ _).trans hext)
      rw [← hq.names_eq] at hext
      rw [Parser.run, step_eq_ok_iff.mpr hq]
      exact ih hext h
    · cases h

/-- A parse that knows its names before starts like one that does not. -/
theorem new_of_knowing (hv : names.Valid) (hlarger : larger.Valid)
    (hext : (new names).names.Extends larger) :
    new larger = { new names with names := larger } := by
  have hrooted := rooted_new hv
  have hsquare := hlarger.intern_of_lookup? (hext _ _ hrooted.square)
  have hcurly := hlarger.intern_of_lookup? (hext _ _ hrooted.curly)
  simp [new] at hsquare hcurly ⊢
  simp [hsquare, hcurly]

end Parser

/-! ## §3. The names in a listing. -/

/-- The text of the name that a symbol is. -/
def Symbol.nameText? (names : Interner) : Symbol → Option String
  | .ident n => some (names.text n)
  | _ => none

/-- The texts of the names in a listing, first to last. -/
def entryTexts (names : Interner) (entries : List Entry) : List String :=
  entries.filterMap fun e => e.2.1.nameText? names

/-- A table that a parse may have at its end: the names of brackets are known. -/
structure Interner.Settled (t : Interner) : Prop where
  valid : t.Valid
  square : t.Knows squareBrackets
  curly : t.Knows curlyBrackets

theorem Interner.Settled.mono {t t' : Interner} (h : t.Settled) (hv : t'.Valid)
    (hext : t.Extends t') : t'.Settled :=
  ⟨hv, h.square.mono hext, h.curly.mono hext⟩

theorem Interner.Settled.internAll {t : Interner} (h : t.Settled) (texts : List String) :
    (t.internAll texts).Settled :=
  h.mono (h.valid.internAll texts) (extends_internAll t texts)

/-- The names of brackets are known from the start of a parse. -/
theorem Parser.settled_new {names : Interner} (hv : names.Valid) : (new names).names.Settled where
  valid := (rooted_new hv).valid
  square := ⟨_, (rooted_new hv).square⟩
  curly := ⟨_, (rooted_new hv).curly⟩

/-- What names brackets. -/
def bracketTexts : List String := [squareBrackets, curlyBrackets, ""]

theorem Interner.Settled.internAll_bracketTexts {t : Interner} (h : t.Settled) {s : String}
    (hs : s ∈ bracketTexts) : (t.intern s).2 = t := by
  simp only [bracketTexts, List.mem_cons, List.not_mem_nil, or_false] at hs
  rcases hs with rfl | rfl | rfl
  · exact h.valid.intern_of_knows h.square
  · exact h.valid.intern_of_knows h.curly
  · exact h.valid.intern_of_knows ⟨_, h.valid.empty⟩

section

variable {names : Interner} (hnames : names.Settled)

include hnames

theorem lookup?_of_knows {s : String} (hs : names.Knows s) :
    names.lookup? (names.intern s).1 = some s := by
  obtain ⟨n, hn⟩ := hs
  rw [hnames.valid.intern_of_lookup? hn]
  exact hn

omit hnames in
theorem Token.literal?_ne_ident (t : Token) (n : Name) : t.literal? ≠ some (.ident n) := by
  unfold Token.literal?
  split <;> simp

/-- An identifier says its own name, and no other token says a name that is not a bracket's. -/
theorem Token.symbol?_cases (previous : Option Token) (t : Token)
    (ht : t.kind = .identifier → names.Knows t.value) :
    (t.kind = .identifier ∧ ∃ n, t.symbol? names previous = some (.ident n)
        ∧ names.lookup? n = some t.value)
      ∨ t.kind ≠ .identifier ∧ ∀ n, t.symbol? names previous = some (.ident n) →
        ∃ s ∈ bracketTexts, names.lookup? n = some s := by
  by_cases hkind : t.kind = .identifier
  · left
    exact ⟨hkind, _, by simp [Token.symbol?, hkind], lookup?_of_knows hnames (ht hkind)⟩
  · refine .inr ⟨hkind, fun n hn => ?_⟩
    have hliteral : t.literal? ≠ some (.ident n) := Token.literal?_ne_ident t n
    cases hkind' : t.kind with
    | identifier => exact absurd hkind' hkind
    | opening =>
      simp only [Token.symbol?, hkind'] at hn
      split at hn
      · cases hn
        exact ⟨_, by simp [bracketTexts], lookup?_of_knows hnames hnames.square⟩
      · split at hn
        · cases hn
          exact ⟨_, by simp [bracketTexts], lookup?_of_knows hnames hnames.curly⟩
        · split at hn
          · cases hn
          · cases hn
            exact ⟨_, by simp [bracketTexts], hnames.valid.empty⟩
    | _ => simp_all [Token.symbol?]

/-- **The names in a listing are the identifiers**, apart from names that are known anyhow. -/
theorem internAll_entryTexts (tokens before : List Token)
    (hknows : ∀ s ∈ identifierTexts tokens, names.Knows s) {t : Interner} (ht : t.Settled) :
    t.internAll (entryTexts names (readOff names before tokens))
      = t.internAll (identifierTexts tokens) := by
  induction tokens generalizing before t with
  | nil => rfl
  | cons u tokens ih =>
    rw [identifierTexts_cons] at hknows ⊢
    have hrest : ∀ s ∈ identifierTexts tokens, names.Knows s :=
      fun s hs => hknows s (List.mem_append_right _ hs)
    have hu : u.kind = .identifier → names.Knows u.value := by
      intro hkind
      exact hknows _ (List.mem_append_left _ (by simp [identifierTexts, hkind]))
    have hfirst : t.internAll (entryTexts names (u.entry? names before tokens).toList)
        = t.internAll (identifierTexts [u]) := by
      rcases u.symbol?_cases hnames before.getLast? hu with ⟨hkind, n, hn, htext⟩ | ⟨hkind, hn⟩
      · have htext' := Interner.text_of_lookup? htext
        simp [Token.entry?, hn, entryTexts, Symbol.nameText?, identifierTexts, hkind, htext']
      · cases hsymbol : u.symbol? names before.getLast? with
        | none => simp [Token.entry?, hsymbol, entryTexts, identifierTexts, hkind]
        | some symbol =>
          cases symbol with
          | ident n =>
            obtain ⟨s, hs, htext⟩ := hn n hsymbol
            have hsame := ht.internAll_bracketTexts hs
            have htext' := Interner.text_of_lookup? htext
            simp [Token.entry?, hsymbol, entryTexts, Symbol.nameText?, identifierTexts, hkind,
              htext', Interner.internAll, hsame]
          | _ => simp [Token.entry?, hsymbol, entryTexts, Symbol.nameText?, identifierTexts, hkind]
    have hsplit : entryTexts names (readOff names before (u :: tokens))
        = entryTexts names (u.entry? names before tokens).toList
          ++ entryTexts names (readOff names (before ++ [u]) tokens) := by
      rw [readOff, entryTexts, List.filterMap_append]
      rfl
    rw [hsplit, Interner.internAll_append, Interner.internAll_append, hfirst,
      ih _ hrest (ht.internAll _)]

/-- The names in a listing are known. -/
theorem exists_lookup?_of_mem_readOff (tokens before : List Token)
    (hknows : ∀ s ∈ identifierTexts tokens, names.Knows s) :
    ∀ e ∈ readOff names before tokens, ∀ n, e.2.1 = .ident n → ∃ s, names.lookup? n = some s := by
  induction tokens generalizing before with
  | nil => simp [readOff]
  | cons t tokens ih =>
    rw [identifierTexts_cons] at hknows
    intro e he n hn
    rcases List.mem_append.mp he with he | he
    · obtain ⟨symbol, hsymbol, rfl⟩ := Option.map_eq_some_iff.mp (Option.mem_toList.mp he)
      cases hn
      have ht : t.kind = .identifier → names.Knows t.value := by
        intro hkind
        exact hknows _ (List.mem_append_left _ (by simp [identifierTexts, hkind]))
      rcases t.symbol?_cases hnames before.getLast? ht with ⟨-, m, hm, htext⟩ | ⟨-, hall⟩
      · cases hm.symm.trans hsymbol
        exact ⟨_, htext⟩
      · exact (hall n hsymbol).imp fun s hs => hs.2
    · exact ih _ (fun s hs => hknows s (List.mem_append_right _ hs)) e he n hn

omit hnames in
/-- A larger table shows the same texts. -/
theorem entryTexts_of_extends {larger : Interner} (hext : names.Extends larger)
    {entries : List Entry}
    (h : ∀ e ∈ entries, ∀ n, e.2.1 = .ident n → ∃ s, names.lookup? n = some s) :
    entryTexts larger entries = entryTexts names entries := by
  refine List.filterMap_congr fun e he => ?_
  cases hsymbol : e.2.1 with
  | ident n =>
    obtain ⟨s, hs⟩ := h e he n hsymbol
    simp [Symbol.nameText?, Interner.text_of_lookup? hs, Interner.text_of_lookup? (hext _ _ hs)]
  | _ => rfl

end

/-! ## §4. Listings do not show spans. -/

theorem Chain.entries_cons (depth : Nat) (m : Message) (c : Chain) :
    Chain.entries depth (m :: c) = Chain.entries depth [m] ++ Chain.entries depth c :=
  Chain.entries_append [m] c

theorem Chain.entries_unplaced_of {c : Chain}
    (hc : ∀ m ∈ c, ∀ depth, Chain.entries depth [m.unplaced] = Chain.entries depth [m])
    (depth : Nat) : Chain.entries depth (Chain.unplaced c) = Chain.entries depth c := by
  induction c with
  | nil => rfl
  | cons m c ih =>
    obtain ⟨hm, hc⟩ := List.forall_mem_cons.mp hc
    rw [Chain.unplaced, Chain.entries_cons, hm, ih hc, ← Chain.entries_cons]

theorem Message.argEntries_unplaced_of {args : List Chain}
    (hargs : ∀ a ∈ args, ∀ m ∈ a, ∀ depth,
      Chain.entries depth [m.unplaced] = Chain.entries depth [m]) (depth : Nat) :
    Message.argEntries depth (Message.unplacedArgs args) = Message.argEntries depth args := by
  induction args with
  | nil => rfl
  | cons a args ih =>
    obtain ⟨ha, hargs⟩ := List.forall_mem_cons.mp hargs
    have hcons : ∀ a (args : List Chain), Message.argEntries depth (a :: args)
        = Chain.entries depth a ++ Message.argEntries depth args := by
      intro a args
      rw [← Message.argEntries_singleton, ← Message.argEntries_append, List.singleton_append]
    rw [Message.unplacedArgs, hcons, hcons, Chain.entries_unplaced_of ha, ih hargs]

theorem Message.entries_unplaced (m : Message) :
    ∀ depth, Chain.entries depth [m.unplaced] = Chain.entries depth [m] := by
  induction m using Message.induction with
  | step symbol args span ih =>
    intro depth
    rw [Message.unplaced, Chain.entries_singleton, Chain.entries_singleton,
      Message.argEntries_unplaced_of ih, Message.unplacedArgs_eq_map, List.length_map]

theorem Chain.entries_eq_of_unplaced {c d : Chain} (h : Chain.unplaced c = Chain.unplaced d)
    (depth : Nat) : Chain.entries depth c = Chain.entries depth d := by
  rw [← Chain.entries_unplaced_of (fun m _ => m.entries_unplaced) depth, h,
    Chain.entries_unplaced_of (fun m _ => m.entries_unplaced) depth]

/-! ## §5. Reading what was written. -/

section

variable {names : Interner} (hv : names.Valid)

include hv

/-- The listing of a program, with the names known at the end. -/
theorem Parser.entries_run {tokens : List Token} {c : Option Chain}
    (h : ((new names).run tokens).result = .ok c) :
    Chain.entries 0 (c.getD []) = readOff ((new names).run tokens).names [] tokens := by
  have hempty : (new names).listing [] tokens = [] := by
    simp [listing, latestEntries, openEntries, new]
  rw [(placed_new hv).run h, hempty, List.nil_append]

/-- The identifiers of a program are known at its end. -/
theorem Parser.settled_run {tokens : List Token} {c : Option Chain}
    (h : ((new names).run tokens).result = .ok c) :
    ((new names).run tokens).names.Settled
      ∧ ∀ s ∈ identifierTexts tokens, ((new names).run tokens).names.Knows s := by
  rw [names_run h]
  exact ⟨(settled_new hv).internAll _, fun s hs => Interner.knows_of_mem _ hs⟩

/-- The names in a program are those that its identifiers add to a table. -/
theorem Parser.internAll_identifierTexts {tokens : List Token} {c : Option Chain}
    (h : ((new names).run tokens).result = .ok c) {t : Interner} (ht : t.Settled) :
    t.internAll (identifierTexts tokens)
      = t.internAll (entryTexts ((new names).run tokens).names (Chain.entries 0 (c.getD []))) := by
  obtain ⟨hsettled, hknows⟩ := settled_run hv h
  rw [entries_run hv h, internAll_entryTexts hsettled tokens [] hknows ht]

/-- Tokens that read as a program, up to spans, once its names are known read so from the start,
and leave the same names. -/
theorem Parser.run_again {tokens again : List Token} {c d : Chain}
    (h : ((new names).run tokens).result = .ok (some c))
    (hd : ((new ((new names).run tokens).names).run again).result = .ok (some d))
    (hplaced : Chain.unplaced d = Chain.unplaced c) :
    ((new names).run again).result = .ok (some d)
      ∧ ((new names).run again).names = ((new names).run tokens).names := by
  have hsettled := settled_new hv
  obtain ⟨hfinal, hknows⟩ := settled_run hv h
  have hknown := exists_lookup?_of_mem_readOff hfinal tokens [] hknows
  have hentries := entries_run hv h
  have hidentifiers := internAll_identifierTexts hv h hsettled
  rw [← hentries] at hknown
  rw [← names_run h] at hidentifiers
  generalize ((new names).run tokens).names = final at *
  -- both chains name the same texts, in the same order
  have htexts : (new names).names.internAll (identifierTexts again) = final := by
    have hlarger := (extends_new final).trans ((rooted_new hfinal.valid).run again).2
    refine Eq.trans ?_ hidentifiers.symm
    rw [internAll_identifierTexts hfinal.valid hd hsettled, Option.getD_some,
      Chain.entries_eq_of_unplaced hplaced]
    exact congrArg _ (entryTexts_of_extends hlarger hknown)
  have hext : (new names).names.Extends final := by
    rw [← htexts]
    exact Interner.extends_internAll _ _
  have hrun : ((new names).run again).result = .ok (some d) := by
    refine run_of_knowing hfinal.valid (by rw [htexts]; exact .refl _) ?_
    rw [← new_of_knowing hv hfinal.valid hext]
    exact hd
  exact ⟨hrun, (names_run hrun).trans htexts⟩

/-- **The text of a program reads as the program, with the same names**, with the table that the
program was read with. -/
theorem parse_toSource {s : String} {c : Chain} (h : (parse names s).result = .ok (some c)) :
    ∃ d, (parse names (Chain.toSource (parse names s).names c)).result = .ok (some d)
      ∧ (parse names (Chain.toSource (parse names s).names c)).names = (parse names s).names
      ∧ Chain.unplaced d = Chain.unplaced c := by
  have hvalid := valid_parse hv s
  have hwf := wellFormed_of_parse hv h
  obtain ⟨d, hd, hsame⟩ := roundTrips hvalid hwf
  have hplaced := Chain.unplaced_eq_of_wellFormed (wellFormed_of_parse hvalid hd) hwf hsame
  obtain ⟨hrun, hnames⟩ := Parser.run_again hv h hd hplaced
  exact ⟨d, hrun, hnames, hplaced⟩

end

end Prototalk
