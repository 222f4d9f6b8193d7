/-
  Prototalk.Proofs.Image.Alike
  ────────────────────────────────
  **IMAGES THAT CANNOT BE TOLD APART.**

  Two images are alike on a set of objects if they differ in their objects
  only, number their objects in the same way, and have the same objects in
  the set; the set holds the handles and whatever its members refer to.
  What either image has outside of the set does not matter: nothing that
  starts from the set leads out of it.

    • what is read from the objects of the set is the same in both images
      (`payload_eq`, `lookup?_eq`, `display_eq`),
    • the same effects keep images alike (`Alike.after`),
    • a collection gives an image that is like the one before (`Sound.collect`),
    • so twins stay twins, whenever they collect (`Twins.collectIfDue`).
-/
import Prototalk.Image.Display
import Prototalk.Object.Lookup
import Prototalk.Proofs.Image.Effect
import Prototalk.Proofs.Object.Collection
import Prototalk.Proofs.Object.Delegation

namespace Prototalk

/-! ## §1. Heaps. -/

namespace Heap

variable {h h' : Heap} {known : Set Ref} {r : Ref} {n : Name}

/-- Heaps that have the same objects in a set that nothing leads out of. -/
structure Alike (known : Set Ref) (h h' : Heap) : Prop where
  /-- Objects get the same numbers. -/
  size_cells : h'.cells.size = h.cells.size
  /-- The set holds objects. -/
  there : ∀ r ∈ known, (h.get? r).isSome
  /-- Nothing leads out of the set. -/
  closed : ∀ r ∈ known, ∀ o, h.get? r = some o → ∀ s ∈ o.refs, s ∈ known
  /-- The objects of the set are the same. -/
  same : ∀ r ∈ known, h'.get? r = h.get? r

theorem Alike.symm (ha : Alike known h h') : Alike known h' h where
  size_cells := ha.size_cells.symm
  there := fun r hr => by rw [ha.same r hr]; exact ha.there r hr
  closed := fun r hr o ho => ha.closed r hr o (by rw [← ha.same r hr]; exact ho)
  same := fun r hr => (ha.same r hr).symm

theorem Alike.trans {h'' : Heap} (ha : Alike known h h') (hb : Alike known h' h'') :
    Alike known h h'' where
  size_cells := hb.size_cells.trans ha.size_cells
  there := ha.there
  closed := ha.closed
  same := fun r hr => (hb.same r hr).trans (ha.same r hr)

theorem mem_of_reaches (ha : Alike known h h') {handles : List Ref}
    (hhandles : ∀ r ∈ handles, r ∈ known) (hr : h.Reaches handles r) : r ∈ known :=
  hr.of_closed hhandles fun r o hr ho => ha.closed r hr o ho

theorem Alike.ownSlot?_eq (ha : Alike known h h') (hr : r ∈ known) (n : Name) :
    h'.ownSlot? r n = h.ownSlot? r n := by
  rw [ownSlot?, ownSlot?, ha.same r hr]

theorem Alike.protos_eq (ha : Alike known h h') (hr : r ∈ known) : h'.protos r = h.protos r := by
  rw [protos, protos, ha.same r hr]

theorem Alike.mem_of_mem_protos (ha : Alike known h h') (hr : r ∈ known) {p : Ref}
    (hp : p ∈ h.protos r) : p ∈ known := by
  obtain ⟨o, ho⟩ := Option.isSome_iff_exists.mp (get?_isSome_of_mem_protos hp)
  rw [protos_of_get? ho] at hp
  refine ha.closed r hr o ho p ?_
  simp [Object.refs, hp]

theorem Alike.mem_of_ownSlot? (ha : Alike known h h') (hr : r ∈ known) {v : Ref}
    (hv : h.ownSlot? r n = some v) : v ∈ known := by
  obtain ⟨o, ho, hv⟩ := Option.bind_eq_some_iff.mp hv
  have hmem : (n, v) ∈ o.slots := by
    obtain ⟨before, after, hsplit, _⟩ := List.lookup_eq_some_iff.mp hv
    simp [hsplit]
  refine ha.closed r hr o ho v ?_
  simp only [Object.refs, List.mem_append, List.mem_map]
  exact Or.inl (Or.inl ⟨(n, v), hmem, rfl⟩)

/-- A search that starts in the set stays in it, in either heap. -/
theorem Alike.search_eq (ha : Alike known h h') (n : Name) (rounds : Nat)
    (visited todo : List Ref) (htodo : ∀ r ∈ todo, r ∈ known) :
    h'.search n rounds visited todo = h.search n rounds visited todo
      ∧ ∀ v, h.search n rounds visited todo = some v → v ∈ known := by
  induction rounds generalizing visited todo with
  | zero => exact ⟨rfl, fun v hv => by cases hv⟩
  | succ rounds ih =>
    induction todo with
    | nil => exact ⟨rfl, fun v hv => by cases hv⟩
    | cons r todo ihTodo =>
      have hr := htodo r List.mem_cons_self
      have hrest : ∀ s ∈ todo, s ∈ known := fun s hs => htodo s (List.mem_cons_of_mem _ hs)
      -- whether the object is skipped is seen alike in both heaps
      by_cases hskip : r ∈ visited ∨ h.get? r = none
      · rw [search_cons_skip hskip, search_cons_skip (by rwa [ha.same r hr])]
        exact ihTodo hrest
      · obtain ⟨hv, hlive⟩ := not_or.mp hskip
        rw [← ne_eq, ← Option.isSome_iff_ne_none] at hlive
        rw [search_cons_visit hv hlive, search_cons_visit hv (by rwa [ha.same r hr]),
          ha.ownSlot?_eq hr, ha.protos_eq hr]
        obtain ⟨heq, hmem⟩ := ih (r :: visited) (h.protos r ++ todo) fun s hs =>
          (List.mem_append.mp hs).elim (ha.mem_of_mem_protos hr) (hrest s)
        rw [heq]
        refine ⟨rfl, fun v hv => ?_⟩
        cases hslot : h.ownSlot? r n with
        | some w =>
          rw [hslot] at hv
          cases hv
          exact ha.mem_of_ownSlot? hr hslot
        | none =>
          rw [hslot] at hv
          exact hmem v hv

theorem Alike.lookup?_eq (ha : Alike known h h') (hr : r ∈ known) (n : Name) :
    h'.lookup? r n = h.lookup? r n := by
  rw [lookup?, lookup?, ha.size_cells]
  exact (ha.search_eq n _ [] [r] (by simpa using hr)).1

theorem Alike.mem_of_lookup? (ha : Alike known h h') (hr : r ∈ known) {v : Ref}
    (hv : h.lookup? r n = some v) : v ∈ known :=
  (ha.search_eq n _ [] [r] (by simpa using hr)).2 v hv

theorem Alike.alloc (ha : Alike known h h') {o : Object} (ho : ∀ s ∈ o.refs, s ∈ known) :
    Alike (known ∪ {⟨h.cells.size⟩}) (h.alloc o).2 (h'.alloc o).2 where
  size_cells := by simp [ha.size_cells]
  there := by
    rintro r (hr | rfl)
    · exact isSome_get?_alloc o (ha.there r hr)
    · simp [get?_alloc]
  closed := by
    intro r hr p hp s hs
    refine Or.inl ?_
    rw [get?_alloc] at hp
    split at hp
    · cases hp
      exact ho s hs
    · rename_i hne
      exact ha.closed r (hr.resolve_right hne) p hp s hs
  same := by
    intro r hr
    rw [get?_alloc, get?_alloc, ha.size_cells]
    split
    · rfl
    · rename_i hne
      exact ha.same r (hr.resolve_right hne)

theorem Alike.modify (ha : Alike known h h') {f : Object → Object}
    (hf : ∀ o, ∀ s ∈ (f o).refs, s ∈ o.refs ∨ s ∈ known) :
    Alike known (h.modify r f) (h'.modify r f) where
  size_cells := by simp [ha.size_cells]
  there := fun s hs => isSome_get?_modify.mpr (ha.there s hs)
  closed := by
    intro s hs o ho t ht
    rw [get?_modify] at ho
    split at ho
    · obtain ⟨o', ho', rfl⟩ := Option.map_eq_some_iff.mp ho
      exact (hf o' t ht).elim (ha.closed s hs o' ho' t) id
    · exact ha.closed s hs o ho t ht
  same := by
    intro s hs
    rw [get?_modify, get?_modify, ha.same s hs]

end Heap

/-! ## §2. Images. -/

namespace Image

variable {i j : Image} {known : Set Ref} {r : Ref} {e : Effect} {effects : List Effect}

/-- Images that differ only in objects outside of the set. -/
structure Alike (known : Set Ref) (i j : Image) : Prop where
  /-- They differ in their objects only. -/
  rest : j = { i with objects := j.objects }
  /-- The set holds the handles. -/
  handled : ∀ r ∈ i.handles, r ∈ known
  /-- Their objects are alike on the set. -/
  objects : Heap.Alike known i.objects j.objects

theorem mem_handles_builtin (image : Image) (b : Builtin) : b.ref ∈ image.handles := by
  refine List.mem_append_left _ (List.mem_append_left _ ?_)
  cases b <;> simp [Builtin.all]

namespace Alike

variable (ha : Alike known i j)

include ha

theorem names_eq : j.names = i.names := by rw [ha.rest]
theorem selfName_eq : j.selfName = i.selfName := by rw [ha.rest]
theorem callName_eq : j.callName = i.callName := by rw [ha.rest]
theorem forwardName_eq : j.forwardName = i.forwardName := by rw [ha.rest]
theorem literals_eq : j.literals = i.literals := by rw [ha.rest]
theorem output_eq : j.output = i.output := by rw [ha.rest]
theorem depth_eq : j.depth = i.depth := by rw [ha.rest]
theorem maxDepth_eq : j.maxDepth = i.maxDepth := by rw [ha.rest]
theorem lexMode_eq : j.lexMode = i.lexMode := by rw [ha.rest]
theorem handles_eq : j.handles = i.handles := by rw [ha.rest]; rfl

theorem mem_builtin (b : Builtin) : b.ref ∈ known :=
  ha.handled _ (i.mem_handles_builtin b)

theorem mem_literal {c : Constant} (hr : i.literals.lookup c = some r) : r ∈ known := by
  refine ha.handled r (List.mem_append_left _ (List.mem_append_right _ ?_))
  obtain ⟨before, after, hsplit, _⟩ := List.lookup_eq_some_iff.mp hr
  simp [hsplit]

theorem payload_eq (hr : r ∈ known) : j.payload r = i.payload r := by
  rw [payload, payload, Heap.payload, Heap.payload, ha.objects.same r hr]

theorem mem_of_mem_payload_refs (hr : r ∈ known) {s : Ref} (hs : s ∈ (i.payload r).refs) :
    s ∈ known := by
  obtain ⟨o, ho⟩ := Option.isSome_iff_exists.mp (ha.objects.there r hr)
  rw [payload_eq_of_get? ho] at hs
  refine ha.objects.closed r hr o ho s ?_
  simp [Object.refs, hs]

theorem lookup?_eq (hr : r ∈ known) (n : Name) : j.lookup? r n = i.lookup? r n :=
  ha.objects.lookup?_eq hr n

theorem mem_of_lookup? (hr : r ∈ known) {n : Name} {v : Ref} (hv : i.lookup? r n = some v) :
    v ∈ known :=
  ha.objects.mem_of_lookup? hr hv

theorem display_eq (hr : r ∈ known) : j.display r = i.display r := by
  rw [display, display, ha.payload_eq hr, ha.names_eq]

/-- **The same effect keeps images alike.** -/
theorem apply (hrefs : ∀ r ∈ e.refs, r ∈ known) :
    Alike (known ∪ e.made i) (e.apply i) (e.apply j) := by
  have hrest := ha.rest
  cases e with
  | make payload protos =>
    refine ⟨?_, fun r hr => Or.inl (ha.handled r hr), ha.objects.alloc fun s hs => hrefs s ?_⟩
    · rw [hrest]; rfl
    · simp only [Object.refs, Object.new, List.map_nil, List.nil_append, List.mem_append] at hs
      exact List.mem_append.mpr hs.symm
  | setSlot r n v =>
    simp only [Effect.made, Set.union_empty]
    refine ⟨by rw [hrest]; rfl, ha.handled, ha.objects.modify fun o s hs => ?_⟩
    exact (Object.mem_refs_setSlot hs).imp_right fun hs => hrefs s (by simp [Effect.refs, hs])
  | appendProto r p =>
    simp only [Effect.made, Set.union_empty]
    refine ⟨by rw [hrest]; rfl, ha.handled, ha.objects.modify fun o s hs => ?_⟩
    exact (Object.mem_refs_appendProto hs).imp_right fun hs => hrefs s (by simp [Effect.refs, hs])
  | setActivatable r flag =>
    simp only [Effect.made, Set.union_empty]
    refine ⟨by rw [hrest]; rfl, ha.handled, ha.objects.modify fun o s hs => Or.inl ?_⟩
    simpa [Object.refs] using hs
  | remember c r =>
    simp only [Effect.made, Set.union_empty]
    refine ⟨by rw [hrest]; rfl, fun s hs => ?_, ha.objects⟩
    simp only [handles, Effect.apply, List.map_cons, List.mem_append, List.mem_cons] at hs
    rcases hs with (hs | rfl | hs) | hs
    · exact ha.handled s (List.mem_append_left _ (List.mem_append_left _ hs))
    · exact hrefs s (by simp [Effect.refs])
    · exact ha.handled s (List.mem_append_left _ (List.mem_append_right _ hs))
    · exact ha.handled s (List.mem_append_right _ hs)
  | _ =>
    simp only [Effect.made, Set.union_empty]
    exact ⟨by rw [hrest]; rfl, ha.handled, ha.objects⟩

/-- **The same effects keep images alike.** -/
theorem after (hfits : i.Fits known effects) :
    Alike (i.knownAfter known effects) (i.after effects) (j.after effects) := by
  induction effects generalizing i j known with
  | nil => exact ha
  | cons e effects ih => exact ih (ha.apply hfits.1) hfits.2

/-- Effects that fit an image fit one that is like it. -/
theorem fits (hfits : i.Fits known effects) : j.Fits known effects := by
  induction effects generalizing i j known with
  | nil => exact hfits
  | cons e effects ih =>
    -- a new object gets the same number in both images
    have hmade : e.made j = e.made i := by
      cases e <;> simp [Effect.made, ha.objects.size_cells]
    refine ⟨hfits.1, ?_⟩
    rw [hmade]
    exact ih (ha.apply hfits.1) hfits.2

theorem symm : Alike known j i where
  rest := by rw [ha.rest]
  handled := fun r hr => ha.handled r (by rwa [← ha.handles_eq])
  objects := ha.objects.symm

theorem trans {k : Image} (hb : Alike known j k) : Alike known i k where
  rest := by rw [hb.rest, ha.rest]
  handled := ha.handled
  objects := ha.objects.trans hb.objects

end Alike

/-! ## §3. What is in use. -/

/-- The objects that an image and a program that holds `inUse` lead to. -/
def reach (image : Image) (inUse : List Ref) : Set Ref :=
  {r | image.objects.Reaches (inUse ++ image.handles) r}

variable {inUse : List Ref}

/-- Alike images are alike on what is in use. -/
theorem Alike.reach (ha : Alike known i j) (hinUse : ∀ r ∈ inUse, r ∈ known) :
    Alike (i.reach inUse) i j := by
  have hsub : ∀ r ∈ i.reach inUse, r ∈ known := fun r hr =>
    Heap.mem_of_reaches ha.objects
      (fun s hs => (List.mem_append.mp hs).elim (hinUse s) (ha.handled s)) hr
  refine ⟨ha.rest, fun r hr => .handle (List.mem_append_right _ hr), ha.objects.size_cells,
    fun r hr => ha.objects.there r (hsub r hr), fun r hr o ho s hs => .refer hr ho hs,
    fun r hr => ha.objects.same r (hsub r hr)⟩

theorem Alike.reach_eq (ha : Alike (i.reach inUse) i j) : j.reach inUse = i.reach inUse := by
  refine Set.ext fun r => ?_
  show j.objects.Reaches (inUse ++ j.handles) r ↔ _
  rw [ha.handles_eq]
  exact Heap.reaches_iff_of_get?_eq (fun r hr => ha.objects.same r hr) r

/-! ## §4. Collections. -/

section

variable (hsound : i.Sound) (hinUse : ∀ r ∈ inUse, (i.objects.get? r).isSome)

include hsound hinUse

theorem Sound.of_inUse : i.objects.Sound (inUse ++ i.handles) :=
  Heap.Sound.of_held hsound fun r hr =>
    (List.mem_append.mp hr).elim (hinUse r) (hsound.held r)

/-- A sound image is like itself on what is in use. -/
theorem Sound.alike : Alike (i.reach inUse) i i := by
  have hheld := hsound.of_inUse hinUse
  exact ⟨rfl, fun r hr => .handle (List.mem_append_right _ hr), rfl,
    fun r hr => hheld.isSome_of_reaches hr, fun r hr o ho s hs => .refer hr ho hs, fun _ _ => rfl⟩

/-- A collection leaves a sound image, which is like the one before on what is in use. -/
theorem Sound.collect :
    (i.collect inUse).2.Sound ∧ Alike (i.reach inUse) i (i.collect inUse).2 := by
  have hself := hsound.alike hinUse
  have hheld := hsound.of_inUse hinUse
  have hafter := Heap.sound_collect hheld
  refine ⟨Heap.Sound.of_held hafter fun r hr => hafter.held r (List.mem_append_right _ hr), ?_⟩
  exact ⟨rfl, hself.handled, Heap.size_cells_collect hheld, hself.objects.there,
    hself.objects.closed, fun r hr => Heap.get?_collect_of_reaches hheld hr⟩

theorem Sound.collectIfDue :
    (i.collectIfDue inUse).Sound ∧ Alike (i.reach inUse) i (i.collectIfDue inUse) := by
  unfold Image.collectIfDue
  split
  · exact hsound.collect hinUse
  · exact ⟨hsound, hsound.alike hinUse⟩

end

theorem held_collectIfDue (image : Image) (inUse : List Ref) :
    (image.collectIfDue inUse).held = image.held := by
  unfold Image.collectIfDue
  split <;> rfl

/-! ## §5. Twins. -/

/-- Two sound images that are alike on a set. -/
structure Twins (known : Set Ref) (i j : Image) : Prop where
  /-- They are alike. -/
  alike : Alike known i j
  /-- The first is sound. -/
  left : i.Sound
  /-- The second is sound. -/
  right : j.Sound

namespace Twins

variable (ht : Twins known i j)

include ht

/-- The same effects keep twins. -/
theorem after (hfits : i.Fits known effects) :
    Twins (i.knownAfter known effects) (i.after effects) (j.after effects) where
  alike := ht.alike.after hfits
  left := ht.left.after ht.alike.objects.there hfits
  right := ht.right.after ht.alike.symm.objects.there (ht.alike.fits hfits)

/-- What a known block has captured does not change. -/
theorem captured?_eq (effects : List Effect) (hr : r ∈ known) :
    ((i.after effects).payload r).captured? = (i.payload r).captured? :=
  captured?_after i effects (ht.alike.objects.there r hr)

theorem there_left (hinUse : ∀ r ∈ inUse, r ∈ known) : ∀ r ∈ inUse, (i.objects.get? r).isSome :=
  fun r hr => ht.alike.objects.there r (hinUse r hr)

theorem there_right (hinUse : ∀ r ∈ inUse, r ∈ known) : ∀ r ∈ inUse, (j.objects.get? r).isSome :=
  fun r hr => ht.alike.symm.objects.there r (hinUse r hr)

/-- Sound images that are like one of two twins each, on what is in use, are twins. -/
theorem of_alike {i' j' : Image} (hinUse : ∀ r ∈ inUse, r ∈ known)
    (hi : i'.Sound ∧ Alike (i.reach inUse) i i') (hj : j'.Sound ∧ Alike (j.reach inUse) j j') :
    Twins (i.reach inUse) i' j' := by
  have hreach := ht.alike.reach hinUse
  have hright := hj.2
  rw [hreach.reach_eq] at hright
  exact ⟨hi.2.symm.trans (hreach.trans hright), hi.1, hj.1⟩

/-- Collections keep twins. -/
theorem collect (hinUse : ∀ r ∈ inUse, r ∈ known) :
    Twins (i.reach inUse) (i.collect inUse).2 (j.collect inUse).2 :=
  ht.of_alike hinUse (ht.left.collect (ht.there_left hinUse))
    (ht.right.collect (ht.there_right hinUse))

/-- **Collections keep twins, whether or not they are due in either.** -/
theorem collectIfDue (hinUse : ∀ r ∈ inUse, r ∈ known) :
    Twins (i.reach inUse) (i.collectIfDue inUse) (j.collectIfDue inUse) :=
  ht.of_alike hinUse (ht.left.collectIfDue (ht.there_left hinUse))
    (ht.right.collectIfDue (ht.there_right hinUse))

/-- One effect that makes nothing. -/
theorem apply (e : Effect) (hrefs : ∀ r ∈ e.refs, r ∈ known) (hmade : e.made i = ∅) :
    Twins known (e.apply i) (e.apply j) := by
  have hknown : i.knownAfter known [e] = known := by simp [knownAfter, hmade]
  exact hknown ▸ ht.after ⟨hrefs, trivial⟩

theorem know (names : Interner) :
    Twins known { i with names := names } { j with names := names } :=
  ht.apply (.know names) (by simp [Effect.refs]) rfl

theorem setSlot {v : Ref} (hr : r ∈ known) (n : Name) (hv : v ∈ known) :
    Twins known (i.setSlot r n v) (j.setSlot r n v) :=
  ht.apply (.setSlot r n v) (by simp [Effect.refs, hr, hv]) rfl

/-- Whatever is known may be held from outside. -/
theorem hold {held : List Ref} (hheld : ∀ r ∈ held, r ∈ known) :
    Twins known { i with held := held } { j with held := held } := by
  obtain ⟨ha, hi, hj⟩ := ht
  have hhandles : ∀ r ∈ Image.handles { i with held := held }, r ∈ known := by
    intro r hr
    rcases List.mem_append.mp hr with hr | hr
    · exact ha.handled r (List.mem_append_left _ hr)
    · exact hheld r hr
  refine ⟨⟨by rw [ha.rest], hhandles, ha.objects⟩, ?_, ?_⟩
  · exact Heap.Sound.of_held hi fun r hr => ha.objects.there r (hhandles r hr)
  · refine Heap.Sound.of_held hj fun r hr => ha.symm.objects.there r (hhandles r ?_)
    simpa [Image.handles, ha.literals_eq] using hr

end Twins

end Image

end Prototalk
