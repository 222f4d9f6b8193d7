/-
  Prototalk.Proofs.Object.Delegation
  ────────────────────────────────
  **ONE SET OF VISITED OBJECTS HIDES NO SLOT.**

  `Heap.lookup?` searches every object at most once: the set of visited
  objects is shared by the whole search.  The meaning of delegation is
  `guarded`, which only refuses to enter an object that is already on the
  path to it and may search an object many times.  The two always agree.

  The reason is the invariant `Settled`: a visited object has not got the
  slot, and if it is off the current path then everything it delegates to
  is visited too.  From such an object the slot could only be found through
  an object of the path, which `guarded` does not enter either.

    • `search_append` — the search goes through a list of objects exactly
      as `guarded` does, and then through the rest with more objects settled,
    • `lookup?_eq_guarded` — the two searches agree, `lookup?` fails exactly
      if no object that is delegated to has the slot, and without circles no
      guard is needed at all.
-/
import Mathlib.Logic.Relation
import Mathlib.Order.RelClasses
import Prototalk.Object.Lookup
import Prototalk.Proofs.Object.Heap

namespace Prototalk.Heap

variable {h : Heap} {n : Name} {r : Ref} {path visited : List Ref}

/-! ## §1. The objects that are not visited yet. -/

/-- The objects that are not in a list. -/
def others (h : Heap) (visited : List Ref) : List Ref := h.refs.filter (· ∉ visited)

theorem others_cons_lt (hr : (h.get? r).isSome) (hv : r ∉ visited) :
    (h.others (r :: visited)).length < (h.others visited).length := by
  have hcons : h.others (r :: visited) = (h.others visited).filter (· ≠ r) := by
    simp only [others, List.filter_filter]
    refine List.filter_congr fun s _ => ?_
    simp [List.mem_cons, not_or]
  have hmem : r ∈ h.others visited := by
    simp [others, mem_refs, hr, hv]
  rw [hcons]
  exact List.length_filter_lt_length_iff_exists.mpr ⟨r, hmem, by simp⟩

/-! ## §2. The meaning of delegation. -/

/-- The object's own slot, else the first one found behind its protos in order.  An object that is
already on the path to it is not entered again; nothing else is remembered. -/
def guarded (h : Heap) (n : Name) (path : List Ref) (r : Ref) : Option Ref :=
  if _h : r ∈ path then none
  else
    match h.ownSlot? r n with
    | some v => some v
    | none => (h.protos r).attach.findSome? fun ⟨p, _hp⟩ => h.guarded n (r :: path) p
termination_by (h.others path).length
decreasing_by exact others_cons_lt (get?_isSome_of_mem_protos _hp) _h

/-- The same search without any guard, where no object leads back to itself. -/
def plain (h : Heap) (n : Name) (acyclic : WellFounded fun p r => p ∈ h.protos r) (r : Ref) :
    Option Ref :=
  match h.ownSlot? r n with
  | some v => some v
  | none => (h.protos r).attach.findSome? fun ⟨p, _hp⟩ => h.plain n acyclic p
termination_by acyclic.wrap r
decreasing_by exact _hp

/-- `s` is `r`, or one of the objects that `r` delegates to, directly or not. -/
def Delegates (h : Heap) : Ref → Ref → Prop := Relation.ReflTransGen fun r p => p ∈ h.protos r

theorem guarded_eq (h : Heap) (n : Name) (path : List Ref) (r : Ref) :
    h.guarded n path r = if r ∈ path then none
      else (h.ownSlot? r n).or ((h.protos r).findSome? (h.guarded n (r :: path))) := by
  rw [guarded]
  split
  · rfl
  · cases h.ownSlot? r n <;> simp

theorem guarded_of_mem (h : Heap) (n : Name) (hr : r ∈ path) : h.guarded n path r = none := by
  rw [guarded_eq, if_pos hr]

theorem guarded_of_not_mem (h : Heap) (n : Name) (hr : r ∉ path) :
    h.guarded n path r
      = (h.ownSlot? r n).or ((h.protos r).findSome? (h.guarded n (r :: path))) := by
  rw [guarded_eq, if_neg hr]

/-! ## §3. Settled objects. -/

/-- What a search knows about the objects it has visited, while it is behind the objects of
`path`. -/
structure Settled (h : Heap) (n : Name) (path visited : List Ref) : Prop where
  /-- The path is visited. -/
  path_visited : ∀ r ∈ path, r ∈ visited
  /-- No visited object has the slot. -/
  bare : ∀ r ∈ visited, h.ownSlot? r n = none
  /-- A visited object off the path delegates to visited objects and to objects that are gone. -/
  closed : ∀ r ∈ visited, r ∉ path → ∀ p ∈ h.protos r, p ∈ visited ∨ h.get? p = none

theorem settled_nil (h : Heap) (n : Name) : Settled h n [] [] :=
  ⟨fun _ hr => hr, fun _ hr => absurd hr List.not_mem_nil, fun _ hr => absurd hr List.not_mem_nil⟩

/-- An object that is being searched joins the path. -/
theorem Settled.enter (hs : Settled h n path visited) (hr : h.ownSlot? r n = none) :
    Settled h n (r :: path) (r :: visited) where
  path_visited := by
    intro s hs'
    rcases List.mem_cons.mp hs' with rfl | hs'
    · exact List.mem_cons_self
    · exact List.mem_cons_of_mem _ (hs.path_visited s hs')
  bare := by
    intro s hs'
    rcases List.mem_cons.mp hs' with rfl | hs'
    · exact hr
    · exact hs.bare s hs'
  closed := by
    intro s hs' hpath p hp
    rcases List.mem_cons.mp hs' with rfl | hs'
    · exact absurd List.mem_cons_self hpath
    · rcases hs.closed s hs' (fun hm => hpath (List.mem_cons_of_mem _ hm)) p hp with hv | hg
      · exact Or.inl (List.mem_cons_of_mem _ hv)
      · exact Or.inr hg

/-- An object all of whose protos are searched leaves the path. -/
theorem Settled.leave (hs : Settled h n (r :: path) visited)
    (hp : ∀ p ∈ h.protos r, p ∈ visited ∨ h.get? p = none) : Settled h n path visited where
  path_visited := fun s hs' => hs.path_visited s (List.mem_cons_of_mem _ hs')
  bare := hs.bare
  closed := by
    intro s hs' hpath p hp'
    by_cases hsr : s = r
    · subst hsr
      exact hp p hp'
    · exact hs.closed s hs' (by simp [hsr, hpath]) p hp'

/-- **Nothing is found behind a settled object**, however the path to it went on. -/
theorem Settled.guarded_eq_none (hs : Settled h n path visited) (path' : List Ref) (r : Ref)
    (hsub : ∀ s ∈ path, s ∈ path') (hr : r ∈ visited ∨ h.get? r = none) :
    h.guarded n path' r = none := by
  -- along the calls of the guarded search; its path only grows, so it keeps the objects of `path`
  fun_induction h.guarded n path' r with
  | case1 path' r hin => rfl
  | case2 path' r hin v hv =>
    rcases hr with hr | hr
    · rw [hs.bare r hr] at hv
      cases hv
    · simp [ownSlot?, hr] at hv
  | case3 path' r hin hv ih =>
    refine List.findSome?_eq_none_iff.mpr fun ⟨p, hp⟩ _ => ?_
    refine ih p hp (fun s hs' => List.mem_cons_of_mem _ (hsub s hs')) ?_
    rcases hr with hr | hr
    -- off the longer path is off `path`, so what `r` delegates to is settled as well
    · exact hs.closed r hr (fun hm => hin (hsub r hm)) p hp
    · simp [protos, hr] at hp

/-! ## §4. The search with one set of visited objects. -/

theorem search_cons_skip {rounds : Nat} {rest : List Ref} (hr : r ∈ visited ∨ h.get? r = none) :
    h.search n rounds visited (r :: rest) = h.search n rounds visited rest := by
  cases rounds with
  | zero => rfl
  | succ rounds =>
    have hskip : (visited.contains r || (h.get? r).isNone) = true := by
      rcases hr with hr | hr <;> simp [hr]
    rw [search, search, List.dropWhile_cons, if_pos hskip]

theorem search_cons_visit {rounds : Nat} {rest : List Ref} (hv : r ∉ visited)
    (hr : (h.get? r).isSome) :
    h.search n (rounds + 1) visited (r :: rest) = (h.ownSlot? r n).or
      (h.search n rounds (r :: visited) (h.protos r ++ rest)) := by
  have hstay : ¬ (visited.contains r || (h.get? r).isNone) = true := by
    obtain ⟨o, ho⟩ := Option.isSome_iff_exists.mp hr
    simp [hv, ho]
  rw [search, List.dropWhile_cons, if_neg hstay]
  cases hslot : h.ownSlot? r n <;> simp [hslot]

/-- What a search has gained when it is past the objects `todo` without having found the slot:
it has visited them all, with `rounds'` rounds left. -/
structure Passed (h : Heap) (n : Name) (path visited todo visited' : List Ref)
    (rounds rounds' : Nat) : Prop where
  /-- There are rounds left for every object that is not visited. -/
  enough : (h.others visited').length < rounds'
  /-- Rounds are only used up. -/
  rounds_le : rounds' ≤ rounds
  /-- What is visited is settled. -/
  settled : Settled h n path visited'
  /-- No visited object is forgotten. -/
  kept : ∀ r ∈ visited, r ∈ visited'
  /-- The objects themselves are visited or gone. -/
  passed : ∀ r ∈ todo, r ∈ visited' ∨ h.get? r = none

/-- **The search goes through a list of objects as the guarded one does**, and then through the
rest of its objects. -/
theorem search_append (h : Heap) (n : Name) (rounds : Nat) :
    ∀ (path visited todo rest : List Ref), Settled h n path visited →
      (h.others visited).length < rounds →
      ∃ rounds' visited',
        h.search n rounds visited (todo ++ rest)
          = (todo.findSome? (h.guarded n path)).or (h.search n rounds' visited' rest)
        ∧ (todo.findSome? (h.guarded n path) = none →
          Passed h n path visited todo visited' rounds rounds') := by
  -- every visit uses up a round; within one round the list gets shorter
  induction rounds using Nat.strongRecOn with
  | ind rounds ihRounds =>
    intro path visited todo rest hs hlt
    induction todo with
    | nil =>
      exact ⟨rounds, visited, rfl, fun _ =>
        ⟨hlt, Nat.le_refl _, hs, fun _ hr => hr, fun _ hr => absurd hr List.not_mem_nil⟩⟩
    | cons r todo ihTodo =>
      by_cases hskip : r ∈ visited ∨ h.get? r = none
      -- a settled object is passed over by the one search and fruitless for the other
      · have hnone : h.guarded n path r = none :=
          hs.guarded_eq_none path r (fun _ hp => hp) hskip
        obtain ⟨rounds', visited', heq, hpass⟩ := ihTodo
        refine ⟨rounds', visited', ?_, ?_⟩
        · rw [List.cons_append, search_cons_skip hskip, heq, List.findSome?_cons, hnone]
        · rw [List.findSome?_cons, hnone]
          intro hnothing
          have hp := hpass hnothing
          refine ⟨hp.enough, hp.rounds_le, hp.settled, hp.kept, ?_⟩
          intro s hs'
          rcases List.mem_cons.mp hs' with rfl | hs'
          · exact hskip.imp_left (hp.kept s)
          · exact hp.passed s hs'
      -- an object met for the first time; it is not on the path, or it would be visited
      · obtain ⟨hv, hlive⟩ := not_or.mp hskip
        rw [← ne_eq, ← Option.isSome_iff_ne_none] at hlive
        obtain ⟨k, rfl⟩ : ∃ k, rounds = k + 1 := ⟨rounds - 1, by omega⟩
        have hpath : r ∉ path := fun hp => hv (hs.path_visited r hp)
        rw [List.cons_append, search_cons_visit hv hlive, List.findSome?_cons,
          guarded_of_not_mem h n hpath]
        cases hslot : h.ownSlot? r n with
        | some v => exact ⟨0, [], rfl, fun hnothing => by cases hnothing⟩
        | none =>
          have hlt' : (h.others (r :: visited)).length < (h.others visited).length :=
            others_cons_lt hlive hv
          -- first everything behind `r`, with `r` on the path
          obtain ⟨k₁, visited₁, heq₁, hpass₁⟩ := ihRounds k (Nat.lt_succ_self k) (r :: path)
            (r :: visited) (h.protos r) (todo ++ rest) (hs.enter hslot) (by omega)
          rw [heq₁]
          cases hfind : (h.protos r).findSome? (h.guarded n (r :: path)) with
          | some v => exact ⟨0, [], rfl, fun hnothing => by cases hnothing⟩
          | none =>
            have hp₁ := hpass₁ hfind
            have hk := hp₁.rounds_le
            -- then the objects beside it, with `r` off the path
            obtain ⟨k₂, visited₂, heq₂, hpass₂⟩ := ihRounds k₁ (by omega) path visited₁ todo rest
              (hp₁.settled.leave hp₁.passed) hp₁.enough
            refine ⟨k₂, visited₂, heq₂, fun hnothing => ?_⟩
            have hp₂ := hpass₂ hnothing
            refine ⟨hp₂.enough, Nat.le_trans hp₂.rounds_le (by omega), hp₂.settled, ?_, ?_⟩
            · intro s hs'
              exact hp₂.kept s (hp₁.kept s (List.mem_cons_of_mem _ hs'))
            · intro s hs'
              rcases List.mem_cons.mp hs' with rfl | hs'
              · exact Or.inl (hp₂.kept s (hp₁.kept s List.mem_cons_self))
              · exact hp₂.passed s hs'

/-- The search from one object: what it finds, and what it knows if it finds nothing. -/
theorem lookup?_spec (h : Heap) (r : Ref) (n : Name) :
    h.lookup? r n = h.guarded n [] r ∧ (h.lookup? r n = none →
      ∃ visited, Settled h n [] visited ∧ (r ∈ visited ∨ h.get? r = none)) := by
  have henough : (h.others []).length < h.cells.size + 1 :=
    Nat.lt_succ_of_le (Nat.le_trans (List.length_filter_le ..) h.length_refs_le)
  obtain ⟨rounds', visited', heq, hpass⟩ :=
    search_append h n (h.cells.size + 1) [] [] [r] [] (settled_nil h n) henough
  -- with nothing left to search the rounds do not matter
  have hend : h.search n rounds' visited' [] = none := by
    cases rounds' <;> rfl
  have hlookup : h.lookup? r n = h.guarded n [] r := by
    rw [lookup?, ← List.append_nil [r], heq, hend]
    cases hg : h.guarded n [] r <;> simp [hg]
  refine ⟨hlookup, fun hnone => ?_⟩
  rw [hlookup] at hnone
  have hp := hpass (by simp [hnone])
  exact ⟨visited', hp.settled, hp.passed r List.mem_cons_self⟩

/-! ## §5. Where a slot is found. -/

theorem Settled.ownSlot?_eq_none (hs : Settled h n [] visited) (hr : r ∈ visited ∨ h.get? r = none)
    {s : Ref} (hd : h.Delegates r s) : h.ownSlot? s n = none := by
  have hseen : s ∈ visited ∨ h.get? s = none := by
    induction hd with
    | refl => exact hr
    | tail _ hp ih =>
      rcases ih with hv | hg
      · exact hs.closed _ hv List.not_mem_nil _ hp
      · simp [protos, hg] at hp
  rcases hseen with hv | hg
  · exact hs.bare s hv
  · simp [ownSlot?, hg]

theorem guarded_eq_none_of_forall (h : Heap) (n : Name) (path : List Ref) (r : Ref)
    (hall : ∀ s, h.Delegates r s → h.ownSlot? s n = none) : h.guarded n path r = none := by
  fun_induction h.guarded n path r with
  | case1 path r hin => rfl
  | case2 path r hin v hv =>
    rw [hall r Relation.ReflTransGen.refl] at hv
    cases hv
  | case3 path r hin hv ih =>
    refine List.findSome?_eq_none_iff.mpr fun ⟨p, hp⟩ _ => ih p hp fun s hs => ?_
    exact hall s (Relation.ReflTransGen.head hp hs)

/-- Where no object leads back to itself the path never stops the search. -/
theorem guarded_eq_plain (h : Heap) (n : Name) (acyclic : WellFounded fun p r => p ∈ h.protos r)
    (path : List Ref) (r : Ref)
    (hpath : ∀ s ∈ path, Relation.TransGen (fun p r => p ∈ h.protos r) r s) :
    h.guarded n path r = h.plain n acyclic r := by
  -- every object of the path leads to `r`: if `r` were one of them there would be a circle
  have hout : r ∉ path := by
    intro hr
    exact acyclic.transGen.asymmetric r r (hpath r hr) (hpath r hr)
  rw [guarded, plain, dif_neg hout]
  cases h.ownSlot? r n with
  | some v => rfl
  | none =>
    refine congrArg (fun f => (h.protos r).attach.findSome? f) (funext fun ⟨p, hp⟩ => ?_)
    refine guarded_eq_plain h n acyclic (r :: path) p fun s hs => ?_
    rcases List.mem_cons.mp hs with rfl | hs
    · exact Relation.TransGen.single hp
    · exact Relation.TransGen.head hp (hpath s hs)
termination_by acyclic.wrap r
decreasing_by exact hp

theorem lookup?_guarded (h : Heap) (r : Ref) (n : Name) : h.lookup? r n = h.guarded n [] r :=
  (h.lookup?_spec r n).1

/-- The first step of a search. -/
theorem lookup?_eq_or (h : Heap) (r : Ref) (n : Name) : h.lookup? r n
    = (h.ownSlot? r n).or ((h.protos r).findSome? (h.guarded n [r])) := by
  rw [lookup?_guarded, guarded_of_not_mem h n List.not_mem_nil]

/-- Nothing is found exactly if no object that is delegated to has the slot. -/
theorem lookup?_eq_none_iff :
    h.lookup? r n = none ↔ ∀ s, h.Delegates r s → h.ownSlot? s n = none := by
  constructor
  · intro hmiss s hd
    obtain ⟨visited, hs, hr⟩ := (h.lookup?_spec r n).2 hmiss
    exact hs.ownSlot?_eq_none hr hd
  · intro hall
    rw [lookup?_guarded]
    exact guarded_eq_none_of_forall h n [] r hall

/-- **The shared set of visited objects changes no result.**  Whatever circles, diamonds and
repetitions the protos form, the search that visits every object once finds what the search
guarded by its own path finds; it finds nothing exactly if no object that is delegated to has the
slot; and without circles it is the plain recursion. -/
theorem lookup?_eq_guarded (h : Heap) (r : Ref) (n : Name) :
    h.lookup? r n = h.guarded n [] r
    ∧ (h.lookup? r n = none ↔ ∀ s, h.Delegates r s → h.ownSlot? s n = none)
    ∧ ∀ acyclic : WellFounded fun p r => p ∈ h.protos r, h.lookup? r n = h.plain n acyclic r := by
  refine ⟨h.lookup?_guarded r n, lookup?_eq_none_iff, fun acyclic => ?_⟩
  rw [lookup?_guarded]
  exact guarded_eq_plain h n acyclic [] r fun _ hs => absurd hs List.not_mem_nil

/-- An object that delegates to two others, to the first of them twice, which both delegate to the
object that has the slot. -/
def diamond : Heap :=
  ⟨#[some ⟨.plain, [(⟨1⟩, ⟨0⟩)], []⟩, some (.new .plain [⟨0⟩]), some (.new .plain [⟨0⟩]),
    some (.new .plain [⟨1⟩, ⟨2⟩, ⟨1⟩])], 0, 0⟩

theorem acyclic_diamond : WellFounded fun p r => p ∈ diamond.protos r := by
  have holder : ∀ r, ∀ p ∈ diamond.protos r, p.index < r.index := by
    rintro ⟨i⟩
    match i with
    | 0 | 1 | 2 | 3 => decide
    | i + 4 => simp [protos, get?, diamond]
  exact Subrelation.wf (fun {p r} hp => holder r p hp) (measure Ref.index).wf

theorem lookup?_diamond :
    diamond.lookup? ⟨3⟩ ⟨1⟩ = some ⟨0⟩ ∧ diamond.guarded ⟨1⟩ [] ⟨3⟩ = some ⟨0⟩
      ∧ diamond.plain ⟨1⟩ acyclic_diamond ⟨3⟩ = some ⟨0⟩ := by
  have hfound : diamond.lookup? ⟨3⟩ ⟨1⟩ = some ⟨0⟩ := by decide
  obtain ⟨hguarded, -, hplain⟩ := lookup?_eq_guarded diamond ⟨3⟩ ⟨1⟩
  exact ⟨hfound, hguarded.symm.trans hfound, (hplain acyclic_diamond).symm.trans hfound⟩

end Prototalk.Heap
