/-
  Prototalk.Proofs.Image.Persistence
  ────────────────────────────────
  **SLOTS AND PROTOS NEVER DISAPPEAR.**

  A moment is a heap and what is in use in it.  Of two moments, the second
  `Endures` from the first if every object that is in use at both has kept
  the names of its slots, its protos in front of any newer ones, and what
  it is, but for the flag of a block (`Object.Persists`).

  This alone does not compose: an object could be out of use in between and
  lose its slots then.  So `Endures` also says that no object comes back
  into use (`back`).  With that it is transitive, and it holds between an
  image and

    • the image after effects that mention what is in use (`endures_after`),
    • the image after a collection (`Alike.endures`),
    • the same objects with less in use (`Endures.of_inUse`).

  Then a name that is found stays found (`Endures.isSome_lookup?`).
-/
import Prototalk.Proofs.Image.Alike

namespace Prototalk

/-! ## §1. Objects. -/

/-- What an object has, it still has as `o'`. -/
structure Object.Persists (o o' : Object) : Prop where
  /-- Its slots are there. -/
  slots : ∀ n, (o.slot? n).isSome → (o'.slot? n).isSome
  /-- Its protos come first. -/
  protos : o.protos <+: o'.protos
  /-- It is what it was; finding a block may run it or no longer run it. -/
  payload : ∃ flag, o'.payload = o.payload.setActivatable flag

theorem Payload.exists_setActivatable (p : Payload) : ∃ flag, p = p.setActivatable flag := by
  cases p with
  | block b => exact ⟨b.activatable, rfl⟩
  | _ => exact ⟨true, rfl⟩

theorem Payload.setActivatable_setActivatable (flag flag' : Bool) (p : Payload) :
    (p.setActivatable flag).setActivatable flag' = p.setActivatable flag' := by
  cases p <;> rfl

namespace Object

theorem Persists.refl (o : Object) : o.Persists o :=
  ⟨fun _ hn => hn, List.prefix_rfl, o.payload.exists_setActivatable⟩

theorem Persists.trans {o o' o'' : Object} (h : o.Persists o') (h' : o'.Persists o'') :
    o.Persists o'' := by
  obtain ⟨flag, hflag⟩ := h.payload
  obtain ⟨flag', hflag'⟩ := h'.payload
  refine ⟨fun n hn => h'.slots n (h.slots n hn), h.protos.trans h'.protos, flag', ?_⟩
  rw [hflag', hflag, Payload.setActivatable_setActivatable]

theorem isSome_lookup_putSlot {n m : Name} {v : Ref} {slots : List (Name × Ref)}
    (hm : (slots.lookup m).isSome) : ((putSlot n v slots).lookup m).isSome := by
  rw [lookup_putSlot]
  split
  · rfl
  · exact hm

theorem persists_setSlot (o : Object) (n : Name) (v : Ref) : o.Persists (o.setSlot n v) :=
  ⟨fun _ hm => isSome_lookup_putSlot hm, List.prefix_rfl, o.payload.exists_setActivatable⟩

theorem persists_appendProto (o : Object) (p : Ref) : o.Persists (o.appendProto p) :=
  ⟨fun _ hm => hm, List.prefix_append _ _, o.payload.exists_setActivatable⟩

theorem persists_setActivatable (o : Object) (flag : Bool) :
    o.Persists { o with payload := o.payload.setActivatable flag } :=
  ⟨fun _ hm => hm, List.prefix_rfl, flag, rfl⟩

end Object

/-! ## §2. Moments. -/

/-- Objects, and which of them are in use. -/
structure Moment where
  /-- The objects. -/
  objects : Heap
  /-- The objects that are in use. -/
  inUse : List Ref

namespace Moment

/-- What is in use, and whatever it leads to. -/
def reach (a : Moment) : Set Ref := {r | a.objects.Reaches a.inUse r}

/-- The second moment may come after the first: what is in use at both has persisted. -/
structure Endures (a b : Moment) : Prop where
  /-- What is in use is there. -/
  there : ∀ r ∈ a.reach, (a.objects.get? r).isSome
  /-- Numbers are not used again. -/
  size_le : a.objects.cells.size ≤ b.objects.cells.size
  /-- What is in use is new or was in use before. -/
  back : ∀ r ∈ b.reach, r.index < a.objects.cells.size → r ∈ a.reach
  /-- What is in use at both moments persists. -/
  persists : ∀ r ∈ a.reach, r ∈ b.reach → ∀ o, a.objects.get? r = some o →
    ∃ o', b.objects.get? r = some o' ∧ o.Persists o'

namespace Endures

variable {a b c : Moment} {r : Ref} {n : Name}

theorem trans (hab : a.Endures b) (hbc : b.Endures c) : a.Endures c where
  there := hab.there
  size_le := Nat.le_trans hab.size_le hbc.size_le
  back := fun r hr hlt => hab.back r (hbc.back r hr (Nat.lt_of_lt_of_le hlt hab.size_le)) hlt
  persists := by
    intro r ha hc o ho
    -- what is in use at both ends was in use in between
    have hlt : r.index < a.objects.cells.size := Heap.index_lt_of_get? ho
    have hb : r ∈ b.reach := hbc.back r hc (Nat.lt_of_lt_of_le hlt hab.size_le)
    obtain ⟨p, hp, hop⟩ := hab.persists r ha hb o ho
    obtain ⟨q, hq, hpq⟩ := hbc.persists r hb hc p hp
    exact ⟨q, hq, hop.trans hpq⟩

/-- The same objects, of which no others are in use. -/
theorem of_inUse (hthere : ∀ r ∈ a.reach, (a.objects.get? r).isSome)
    (hobjects : b.objects = a.objects) (hinUse : ∀ r ∈ b.inUse, r ∈ a.reach) : a.Endures b where
  there := hthere
  size_le := by rw [hobjects]
  back := by
    intro r hr _
    unfold reach at hr
    rw [hobjects] at hr
    exact hr.of_closed hinUse fun s o hs ho t ht => .refer hs ho ht
  persists := fun r _ _ o ho => ⟨o, by rw [hobjects]; exact ho, .refl o⟩

/-! ### Names that are found -/

variable (h : a.Endures b)

include h

/-- What a persisting object delegates to, it still delegates to. -/
theorem mem_protos (ha : r ∈ a.reach) (hb : r ∈ b.reach) {p : Ref} (hp : p ∈ a.objects.protos r) :
    p ∈ b.objects.protos r ∧ p ∈ a.reach ∧ p ∈ b.reach := by
  obtain ⟨o, ho⟩ := Option.isSome_iff_exists.mp (h.there r ha)
  obtain ⟨o', ho', hpersists⟩ := h.persists r ha hb o ho
  rw [Heap.protos_of_get? ho] at hp
  rw [Heap.protos_of_get? ho']
  have hp' : p ∈ o'.protos := hpersists.protos.subset hp
  exact ⟨hp', .refer ha ho (by simp [Object.refs, hp]), .refer hb ho' (by simp [Object.refs, hp'])⟩

theorem delegates (ha : r ∈ a.reach) (hb : r ∈ b.reach) {s : Ref} (hs : a.objects.Delegates r s) :
    b.objects.Delegates r s ∧ s ∈ a.reach ∧ s ∈ b.reach := by
  induction hs with
  | refl => exact ⟨.refl, ha, hb⟩
  | tail _ hp ih =>
    obtain ⟨hd, hsa, hsb⟩ := ih
    obtain ⟨hp', hpa, hpb⟩ := h.mem_protos hsa hsb hp
    exact ⟨hd.tail hp', hpa, hpb⟩

/-- **A name that is found on an object stays found**, as long as the object is in use. -/
theorem isSome_lookup? (ha : r ∈ a.reach) (hb : r ∈ b.reach)
    (hfound : (a.objects.lookup? r n).isSome) : (b.objects.lookup? r n).isSome := by
  -- some object that `r` delegates to has the slot, and has kept it
  by_contra hlost
  rw [Bool.not_eq_true, Option.isSome_eq_false_iff, Option.isNone_iff_eq_none] at hlost
  have hnone := Heap.lookup?_eq_none_iff.mp hlost
  refine Option.isSome_iff_ne_none.mp hfound (Heap.lookup?_eq_none_iff.mpr ?_)
  intro s hs
  obtain ⟨hs', hsa, hsb⟩ := h.delegates ha hb hs
  obtain ⟨o, ho⟩ := Option.isSome_iff_exists.mp (h.there s hsa)
  obtain ⟨o', ho', hpersists⟩ := h.persists s hsa hsb o ho
  have hslot' : o'.slot? n = none := by simpa [Heap.ownSlot?, ho'] using hnone s hs'
  have hslot : ¬ (o.slot? n).isSome := fun hn => by
    have hn' := hpersists.slots n hn
    rw [hslot'] at hn'
    cases hn'
  simpa [Heap.ownSlot?, ho] using hslot

end Endures

end Moment

/-! ## §3. Images. -/

namespace Image

/-- The objects of an image, of which a program uses `inUse`. -/
def moment (image : Image) (inUse : List Ref) : Moment := ⟨image.objects, inUse ++ image.handles⟩

variable {i j : Image} {known : Set Ref} {inUse inUse' : List Ref} {r : Ref} {e : Effect}
  {effects : List Effect} {o : Object}

theorem reach_moment (image : Image) (inUse : List Ref) :
    (image.moment inUse).reach = image.reach inUse := rfl

/-! ### Effects -/

theorem size_cells_le_apply (image : Image) (e : Effect) :
    image.objects.cells.size ≤ (e.apply image).objects.cells.size := by
  cases e with
  | make payload protos =>
    show _ ≤ (image.objects.alloc _).2.cells.size
    rw [Heap.size_cells_alloc]
    exact Nat.le_succ _
  | setSlot | appendProto | setActivatable => exact (Heap.size_cells_modify ..).ge
  | _ => exact Nat.le_refl _

theorem persists_modify {h : Heap} {f : Object → Object} (hf : ∀ o, Object.Persists o (f o))
    (s : Ref) (ho : h.get? r = some o) : ∃ o', (h.modify s f).get? r = some o' ∧ o.Persists o' := by
  rw [Heap.get?_modify]
  by_cases hrs : r = s
  · exact ⟨f o, by rw [if_pos hrs, ho]; rfl, hf o⟩
  · exact ⟨o, by rw [if_neg hrs, ho], .refl o⟩

/-- **No effect takes anything from an object.** -/
theorem persists_apply (image : Image) (e : Effect) (ho : image.objects.get? r = some o) :
    ∃ o', (e.apply image).objects.get? r = some o' ∧ o.Persists o' := by
  cases e with
  | make payload protos =>
    -- the new object is not one of those that were there
    have hne : r ≠ ⟨image.objects.cells.size⟩ := by
      rintro rfl
      exact Nat.lt_irrefl _ (Heap.index_lt_of_get? ho)
    refine ⟨o, ?_, .refl o⟩
    show (image.objects.alloc _).2.get? r = _
    rw [Heap.get?_alloc, if_neg hne, ho]
  | setSlot s n v => exact persists_modify (fun o => o.persists_setSlot n v) s ho
  | appendProto s p => exact persists_modify (fun o => o.persists_appendProto p) s ho
  | setActivatable s flag => exact persists_modify (fun o => o.persists_setActivatable flag) s ho
  | _ => exact ⟨o, ho, .refl o⟩

theorem size_cells_le_after (image : Image) (effects : List Effect) :
    image.objects.cells.size ≤ (image.after effects).objects.cells.size := by
  induction effects generalizing image with
  | nil => exact Nat.le_refl _
  | cons e effects ih => exact Nat.le_trans (size_cells_le_apply image e) (ih _)

theorem persists_after (image : Image) (effects : List Effect)
    (ho : image.objects.get? r = some o) :
    ∃ o', (image.after effects).objects.get? r = some o' ∧ o.Persists o' := by
  induction effects generalizing image o with
  | nil => exact ⟨o, ho, .refl o⟩
  | cons e effects ih =>
    obtain ⟨p, hp, hop⟩ := persists_apply image e ho
    obtain ⟨q, hq, hpq⟩ := ih (e.apply image) hp
    exact ⟨q, hq, hop.trans hpq⟩

/-- What effects make gets new numbers. -/
theorem mem_of_mem_knownAfter (hlt : r.index < i.objects.cells.size)
    (hr : r ∈ i.knownAfter known effects) : r ∈ known := by
  induction effects generalizing i known with
  | nil => exact hr
  | cons e effects ih =>
    refine (ih (Nat.lt_of_lt_of_le hlt (size_cells_le_apply i e)) hr).resolve_right fun hmade => ?_
    cases e with
    | make payload protos =>
      cases hmade
      exact Nat.lt_irrefl _ hlt
    | _ => cases hmade

/-- **Effects that mention what is in use.** -/
theorem endures_after (ha : Alike (i.reach inUse) i i) (hfits : i.Fits (i.reach inUse) effects)
    (hinUse : ∀ r ∈ inUse', r ∈ i.knownAfter (i.reach inUse) effects) :
    (i.moment inUse).Endures ((i.after effects).moment inUse') where
  there := ha.objects.there
  size_le := size_cells_le_after i effects
  back := by
    intro r hr hlt
    have hafter := ha.after hfits
    refine mem_of_mem_knownAfter hlt (Heap.mem_of_reaches hafter.objects (fun s hs => ?_) hr)
    exact (List.mem_append.mp hs).elim (hinUse s) (hafter.handled s)
  persists := fun r _ _ o ho => persists_after i effects ho

/-! ### Collections -/

/-- **A collection.** -/
theorem Alike.endures (ha : Alike (i.reach inUse) i j) :
    (i.moment inUse).Endures (j.moment inUse) where
  there := ha.objects.there
  size_le := ha.objects.size_cells.ge
  back := by
    intro r hr _
    rw [reach_moment, ha.reach_eq] at hr
    exact hr
  persists := fun r hr _ o ho => ⟨o, (ha.objects.same r hr).trans ho, .refl o⟩

end Image

end Prototalk
