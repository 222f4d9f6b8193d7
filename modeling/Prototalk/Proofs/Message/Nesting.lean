/-
  Prototalk.Proofs.Message.Nesting
  ────────────────────────────────
  **WHICH TOKENS ARE A PROGRAM.**

  Brackets and commas alone decide it, once every token means something.
  `unclosed` lists the groups that are open behind some tokens, each with the
  segments into which commas divide what stands directly in it.

    • `Bracketed` says what brackets and commas have to be like, group by
      group;
    • `violation?` tells what is wrong with a token behind others, so
      `FirstError` is the error of the first token that makes it impossible
      to go on, or else that of the group left open;
    • tokens are `Bracketed` exactly if no token is wrong and no group is left
      open (`bracketed_iff`): an empty segment is seen where it ends, and it is
      still there where its group ends.
-/
import Mathlib.Data.List.Forall2
import Mathlib.Data.List.Induction
import Prototalk.Message.Parser

namespace Prototalk

/-! ## §1. Groups of tokens. -/

namespace Token

/-- The bracket that a token stands for; one without text counts as a round bracket. -/
def bracket (t : Token) : Char := t.bracket?.getD (if t.kind = .opening then '(' else ')')

/-- What a literal token stands for. -/
def literal? (t : Token) : Option Symbol :=
  match t.kind with
  | .number => (Literal.number t.value).toOption.map .number
  | .hexNumber => (Literal.hexNumber t.value).toOption.map .number
  | .string => (Literal.string t.value).toOption.map .text
  | .triQuote => (Literal.triQuote t.value).toOption.map .text
  | _ => none

end Token

/-- Whether tokens of this class write a value. -/
def TokenKind.isLiteral : TokenKind → Bool
  | .number | .hexNumber | .string | .triQuote => true
  | _ => false

theorem TokenKind.ne_of_isLiteral {kind kind' : TokenKind} (h : kind.isLiteral = true)
    (h' : kind'.isLiteral = false) : kind ≠ kind' := by
  rintro rfl
  rw [h] at h'
  cases h'

/-- A token that is not malformed, and that stands for a value if it is a literal. -/
structure Token.Readable (t : Token) : Prop where
  proper : t.kind ≠ .malformed
  decodes : t.kind.isLiteral = true → t.literal?.isSome = true

/-- Whether nothing but separators stands in a segment. -/
def isBlank (segment : List Token) : Bool := segment.all fun t => t.kind = .separator

/-- A bracket group up to the point that has been read. -/
structure TokenGroup where
  /-- The bracket that opened it. -/
  opening : Token
  /-- The segments that a comma has ended, each with the tokens that stand directly in it. -/
  ended : List (List Token)
  /-- The segment behind the last comma. -/
  last : List Token

namespace TokenGroup

/-- A group in which nothing stands yet. -/
def ofOpening (t : Token) : TokenGroup := ⟨t, [], []⟩

/-- The group with one more token directly in it. -/
def take (g : TokenGroup) (t : Token) : TokenGroup :=
  if t.kind = .comma then ⟨g.opening, g.ended ++ [g.last], []⟩
  else { g with last := g.last ++ [t] }

/-- What commas divide the group into. -/
def segments (g : TokenGroup) : List (List Token) := g.ended ++ [g.last]

end TokenGroup

/-- The open groups behind one more token. -/
def unclosedAfter (groups : List TokenGroup) (t : Token) : List TokenGroup :=
  match t.kind with
  | .opening => .ofOpening t :: groups.modifyHead (·.take t)
  | .closing => groups.tail
  | _ => groups.modifyHead (·.take t)

/-- The groups that are open behind some tokens, innermost first. -/
def unclosed (tokens : List Token) : List TokenGroup := tokens.foldl unclosedAfter []

@[simp] theorem unclosed_nil : unclosed [] = [] := rfl

@[simp] theorem unclosed_append_singleton (tokens : List Token) (t : Token) :
    unclosed (tokens ++ [t]) = unclosedAfter (unclosed tokens) t := by
  simp [unclosed]

theorem unclosed_opening (tokens : List Token) {t : Token} (hkind : t.kind = .opening) :
    unclosed (tokens ++ [t]) = .ofOpening t :: (unclosed tokens).modifyHead (·.take t) := by
  rw [unclosed_append_singleton, unclosedAfter, hkind]

theorem unclosed_closing (tokens : List Token) {t : Token} (hkind : t.kind = .closing) :
    unclosed (tokens ++ [t]) = (unclosed tokens).tail := by
  rw [unclosed_append_singleton, unclosedAfter, hkind]

/-- A token that is no bracket stands in the innermost group. -/
theorem unclosed_within (tokens : List Token) {t : Token} (hopening : t.kind ≠ .opening)
    (hclosing : t.kind ≠ .closing) :
    unclosed (tokens ++ [t]) = (unclosed tokens).modifyHead (·.take t) := by
  rw [unclosed_append_singleton, unclosedAfter]
  split
  · contradiction
  · contradiction
  · rfl

theorem isBlank_append_singleton (segment : List Token) (t : Token) :
    isBlank (segment ++ [t]) = (isBlank segment && decide (t.kind = .separator)) := by
  simp [isBlank]

/-! ## §2. The grammar. -/

/-- Tokens whose brackets match and whose groups have no empty argument. -/
structure Bracketed (tokens : List Token) : Prop where
  /-- A closing bracket fits the innermost open group. -/
  matched : ∀ before t after, tokens = before ++ t :: after → t.kind = .closing →
    ∃ g groups, unclosed before = g :: groups ∧ t.bracket = closerOf g.opening.bracket
  /-- Every group is closed. -/
  closed : unclosed tokens = []
  /-- No comma stands outside of all groups. -/
  commas : ∀ before t after, tokens = before ++ t :: after → t.kind = .comma →
    unclosed before ≠ []
  /-- In a group with a comma, something other than separators stands in each segment. -/
  segments : ∀ before t after, tokens = before ++ t :: after → t.kind = .closing →
    ∀ g groups, unclosed before = g :: groups → 1 < g.segments.length →
      ∀ segment ∈ g.segments, ∃ u ∈ segment, u.kind ≠ .separator

/-- What is wrong with a token behind others: a closing bracket that fits no open group or not the
innermost one, a comma outside of all groups, or the end of an empty segment. -/
def violation? (before : List Token) (t : Token) : Option ParseFault :=
  match t.kind, unclosed before with
  | .closing, [] => some (.unexpectedClose t.bracket)
  | .closing, g :: _ =>
      if t.bracket ≠ closerOf g.opening.bracket then
        some (.mismatchedBracket (closerOf g.opening.bracket) t.bracket)
      else if g.ended ≠ [] ∧ isBlank g.last then some .emptyArgument
      else none
  | .comma, [] => some .topLevelComma
  | .comma, g :: _ => if isBlank g.last then some .emptyArgument else none
  | _, _ => none

/-- No token is wrong behind those before it. -/
def Unviolated (tokens : List Token) : Prop :=
  ∀ before t after, tokens = before ++ t :: after → violation? before t = none

/-- The error of tokens that are no program: it is that of the first token that is wrong; if there
is none, that of the innermost open group, at the end of the last token. -/
inductive FirstError (tokens : List Token) : ParseError → Prop where
  | token {before : List Token} {t : Token} {after : List Token} {fault : ParseFault}
      (hsplit : tokens = before ++ t :: after) (hbefore : Unviolated before)
      (hfault : violation? before t = some fault) : FirstError tokens ⟨fault, t.span⟩
  | unclosed {g : TokenGroup} {groups : List TokenGroup} {last : Token}
      (hall : Unviolated tokens) (hopen : unclosed tokens = g :: groups)
      (hlast : tokens.getLast? = some last) :
      FirstError tokens
        ⟨.unclosedBracket (closerOf g.opening.bracket), .point last.span.stop⟩

/-! ## §3. Groups, and the tokens that are wrong. -/

section

variable {tokens before after : List Token} {t : Token} {g : TokenGroup}

theorem unviolated_nil : Unviolated [] := by
  intro before t after h
  simp at h

theorem unviolated_append_singleton :
    Unviolated (tokens ++ [t]) ↔ Unviolated tokens ∧ violation? tokens t = none := by
  constructor
  · intro h
    refine ⟨fun before u after heq => h before u (after ++ [t]) ?_, h tokens t [] rfl⟩
    rw [heq, List.append_assoc, List.cons_append]
  · rintro ⟨htokens, ht⟩ before u after heq
    rcases List.eq_nil_or_concat after with rfl | ⟨after, v, rfl⟩
    · obtain ⟨rfl, hu⟩ := List.append_inj' heq rfl
      cases hu
      exact ht
    -- the token stands before the last one
    · rw [List.concat_eq_append, ← List.cons_append, ← List.append_assoc] at heq
      exact htokens before u after (List.append_inj_left' heq rfl)

/-- The first token that is wrong, if there is one. -/
theorem unviolated_or_first (tokens : List Token) :
    Unviolated tokens ∨ ∃ before t after fault, tokens = before ++ t :: after
      ∧ Unviolated before ∧ violation? before t = some fault := by
  induction tokens using List.reverseRecOn with
  | nil => exact .inl unviolated_nil
  | append_singleton tokens t ih =>
    rcases ih with hall | ⟨before, u, after, fault, rfl, hbefore, hfault⟩
    · cases ht : violation? tokens t with
      | none => exact .inl (unviolated_append_singleton.mpr ⟨hall, ht⟩)
      | some fault => exact .inr ⟨tokens, t, [], fault, rfl, hall, ht⟩
    · exact .inr ⟨before, u, after ++ [t], fault, by simp, hbefore, hfault⟩

theorem TokenGroup.ended_subset_take (g : TokenGroup) (t : Token) :
    g.ended ⊆ (g.take t).ended := by
  unfold TokenGroup.take
  split
  · exact List.subset_append_left g.ended [g.last]
  · exact List.Subset.refl g.ended

/-- A comma ends a segment only if something stands in it. -/
theorem isBlank_ended (h : Unviolated tokens) (hg : g ∈ unclosed tokens) :
    ∀ segment ∈ g.ended, isBlank segment = false := by
  induction tokens using List.reverseRecOn generalizing g with
  | nil => cases hg
  | append_singleton tokens t ih =>
    obtain ⟨htokens, ht⟩ := unviolated_append_singleton.mp h
    -- the innermost group may have got the token, all others are as they were
    have hinner : g ∈ (unclosed tokens).modifyHead (·.take t) →
        ∀ segment ∈ g.ended, isBlank segment = false := by
      intro hg
      cases hgroups : unclosed tokens with
      | nil =>
        rw [hgroups] at hg
        cases hg
      | cons inner groups =>
        rw [hgroups, List.modifyHead_cons] at hg
        have hold := ih htokens (g := inner) (by rw [hgroups]; exact List.mem_cons_self)
        rcases List.mem_cons.mp hg with rfl | hg
        · unfold TokenGroup.take
          split
          · rename_i hcomma
            intro segment hsegment
            rcases List.mem_append.mp hsegment with hsegment | hsegment
            · exact hold segment hsegment
            · obtain rfl := List.mem_singleton.mp hsegment
              simpa [violation?, hcomma, hgroups] using ht
          · exact hold
        · exact ih htokens (by rw [hgroups]; exact List.mem_cons_of_mem _ hg)
    by_cases hopening : t.kind = .opening
    · rw [unclosed_opening _ hopening] at hg
      rcases List.mem_cons.mp hg with rfl | hg
      · simp [TokenGroup.ofOpening]
      · exact hinner hg
    · by_cases hclosing : t.kind = .closing
      · rw [unclosed_closing _ hclosing] at hg
        exact ih htokens (List.mem_of_mem_tail hg)
      · rw [unclosed_within _ hopening hclosing] at hg
        exact hinner hg

/-- A group that is open is closed later, if none is open at the end; no segment of it is lost. -/
theorem exists_closing {inner outer : List TokenGroup}
    (hopen : unclosed before = inner ++ g :: outer) (hclosed : unclosed (before ++ after) = []) :
    ∃ mid t rest g' groups, after = mid ++ t :: rest ∧ t.kind = .closing
      ∧ unclosed (before ++ mid) = g' :: groups ∧ g.ended ⊆ g'.ended := by
  induction after generalizing before inner g with
  | nil =>
    rw [List.append_nil, hopen] at hclosed
    simp at hclosed
  | cons t after ih =>
    rw [← List.singleton_append, ← List.append_assoc] at hclosed
    -- whatever the token adds, the group keeps its place above `outer`
    have hnext : ∀ inner' g', unclosed (before ++ [t]) = inner' ++ g' :: outer →
        g.ended ⊆ g'.ended → ∃ mid u rest g'' groups, t :: after = mid ++ u :: rest
          ∧ u.kind = .closing ∧ unclosed (before ++ mid) = g'' :: groups
          ∧ g.ended ⊆ g''.ended := by
      intro inner' g' hopen' hsub
      obtain ⟨mid, u, rest, g'', groups, rfl, hkind, hat, hsub'⟩ := ih hopen' hclosed
      exact ⟨t :: mid, u, rest, g'', groups, rfl, hkind, by simpa using hat,
        List.Subset.trans hsub hsub'⟩
    by_cases hclosing : t.kind = .closing
    · cases inner with
      | nil =>
        exact ⟨[], t, after, g, outer, rfl, hclosing, by simpa using hopen, List.Subset.refl _⟩
      | cons i inner =>
        refine hnext inner g ?_ (List.Subset.refl _)
        rw [unclosed_closing _ hclosing, hopen, List.cons_append, List.tail_cons]
    -- the group is the innermost one, which gets the token, or it is as it was
    · have hkept : ∃ inner' g', (unclosed before).modifyHead (·.take t) = inner' ++ g' :: outer
          ∧ g.ended ⊆ g'.ended := by
        rw [hopen]
        cases inner with
        | nil => exact ⟨[], g.take t, rfl, g.ended_subset_take t⟩
        | cons i inner => exact ⟨i.take t :: inner, g, rfl, List.Subset.refl _⟩
      obtain ⟨inner', g', hkept, hsub⟩ := hkept
      by_cases hopening : t.kind = .opening
      · refine hnext (.ofOpening t :: inner') g' ?_ hsub
        rw [unclosed_opening _ hopening, hkept, List.cons_append]
      · refine hnext inner' g' ?_ hsub
        rw [unclosed_within _ hopening hclosing, hkept]

theorem exists_kind_of_isBlank {segment : List Token} (h : isBlank segment = false) :
    ∃ u ∈ segment, u.kind ≠ .separator := by
  simpa [isBlank] using h

theorem Bracketed.unviolated (h : Bracketed tokens) : Unviolated tokens := by
  intro before t after heq
  unfold violation?
  split
  · rename_i hkind hgroups
    obtain ⟨g, groups, hopen, -⟩ := h.matched before t after heq hkind
    rw [hgroups] at hopen
    cases hopen
  · rename_i g groups hkind hgroups
    obtain ⟨g', groups', hopen, hfit⟩ := h.matched before t after heq hkind
    rw [hgroups] at hopen
    cases hopen
    rw [if_neg (not_not_intro hfit), if_neg]
    rintro ⟨hended, hblank⟩
    -- a segment behind a comma is a segment of a group with a comma
    have hlength : 1 < g.segments.length := by
      simpa [TokenGroup.segments, List.length_pos_iff] using hended
    obtain ⟨u, hu, hsep⟩ := h.segments before t after heq hkind g groups hgroups hlength g.last
      (by simp [TokenGroup.segments])
    exact hsep (by simpa using List.all_eq_true.mp hblank u hu)
  · rename_i hkind hgroups
    exact absurd hgroups (h.commas before t after heq hkind)
  · rename_i g groups hkind hgroups
    rw [if_neg]
    intro hblank
    -- the empty segment is still there when the group is closed
    have hopen : unclosed (before ++ [t]) = [] ++ g.take t :: groups := by
      rw [unclosed_within _ (by simp [hkind]) (by simp [hkind]), hgroups]
      rfl
    have hclosed := h.closed
    rw [heq, ← List.singleton_append, ← List.append_assoc] at hclosed
    obtain ⟨mid, u, rest, g', groups', rfl, hclosing, hat, hsub⟩ := exists_closing hopen hclosed
    have hmem : g.last ∈ g'.ended := hsub (by simp [TokenGroup.take, hkind])
    have hlength : 1 < g'.segments.length := by
      simpa [TokenGroup.segments] using List.length_pos_of_mem hmem
    obtain ⟨v, hv, hsep⟩ := h.segments (before ++ [t] ++ mid) u rest (by simp [heq]) hclosing g'
      groups' hat hlength g.last (List.mem_append_left _ hmem)
    exact hsep (by simpa using List.all_eq_true.mp hblank v hv)
  · rfl

theorem Unviolated.bracketed (hall : Unviolated tokens) (hclosed : unclosed tokens = []) :
    Bracketed tokens := by
  refine ⟨fun before t after heq hkind => ?_, hclosed, fun before t after heq hkind hgroups => ?_,
    fun before t after heq hkind g groups hgroups hlength segment hsegment => ?_⟩
  · have ht := hall before t after heq
    cases hgroups : unclosed before with
    | nil => simp [violation?, hkind, hgroups] at ht
    | cons g groups =>
      refine ⟨g, groups, rfl, ?_⟩
      by_contra hfit
      simp [violation?, hkind, hgroups, hfit] at ht
  · have ht := hall before t after heq
    simp [violation?, hkind, hgroups] at ht
  · refine exists_kind_of_isBlank ?_
    rcases List.mem_append.mp hsegment with hsegment | hsegment
    -- no token before the bracket is wrong either
    · have hbefore : Unviolated before := by
        intro earlier u later hsplit
        exact hall earlier u (later ++ t :: after) (by simp [heq, hsplit])
      exact isBlank_ended hbefore (hgroups ▸ List.mem_cons_self) segment hsegment
    · obtain rfl := List.mem_singleton.mp hsegment
      have hended : g.ended ≠ [] := by
        simpa [TokenGroup.segments, List.length_pos_iff] using hlength
      have ht := hall before t after heq
      by_contra hblank
      unfold violation? at ht
      rw [hkind, hgroups] at ht
      simp only [ite_not] at ht
      split at ht <;> simp_all

/-- **The grammar is that no token is wrong and that every group is closed.** -/
theorem bracketed_iff : Bracketed tokens ↔ Unviolated tokens ∧ unclosed tokens = [] :=
  ⟨fun h => ⟨h.unviolated, h.closed⟩, fun ⟨hall, hclosed⟩ => hall.bracketed hclosed⟩

end

end Prototalk
