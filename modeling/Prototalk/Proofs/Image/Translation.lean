/-
  Prototalk.Proofs.Image.Translation
  ────────────────────────────────
  **IMAGES WITH OTHER NAMES.**

  Two images are translations of each other if each knows the names of one
  side of a dictionary and all else in them is the same up to these names.
  Whatever is done to one can be done to the other:

    • new objects get the same number (`Made`), and collections remove the
      same (`collect`, `live_eq`),
    • a text that is given a name in both makes a pair, and no pair is lost
      (`intern`, `withNames`),
    • no text shows a name's index (`display_eq`, `debugText_eq`),
    • new images that start with different names are translations of each
      other (`exists_translates_new`).
-/
import Prototalk.Image.Display
import Prototalk.Proofs.Image.Genesis
import Prototalk.Proofs.Object.Translation

namespace Prototalk

/-- The images are the same but for the names; each has the names of one side of the
dictionary. -/
structure Image.Translates (d : Dictionary) (i j : Image) : Prop where
  left : i.names = d.left
  right : j.names = d.right
  selfName : d.Pairs i.selfName j.selfName
  callName : d.Pairs i.callName j.callName
  forwardName : d.Pairs i.forwardName j.forwardName
  objects : i.objects.Translates d j.objects
  literals_eq : j.literals = i.literals
  output_eq : j.output = i.output
  depth_eq : j.depth = i.depth
  maxDepth_eq : j.maxDepth = i.maxDepth
  lexMode_eq : j.lexMode = i.lexMode
  held_eq : j.held = i.held

/-- The same object, in images that are translations of each other. -/
structure Made (d : Dictionary) (x y : Ref × Image) : Prop where
  ref_eq : y.1 = x.1
  image : x.2.Translates d y.2

variable {d d' : Dictionary} {i j : Image}

/-! ## §1. Texts. -/

theorem map_text_eq {ns ks : List Name} (h : List.Forall₂ d.Pairs ns ks) :
    ks.map d.right.text = ns.map d.left.text := by
  induction h with
  | nil => rfl
  | cons hn _ ih => rw [List.map_cons, List.map_cons, hn.text_eq, ih]

theorem Block.Translates.blockText_eq {b b' : Block} (h : b.Translates d b') :
    Image.blockText d.right b' = Image.blockText d.left b := by
  have hbody := h.body
  unfold Image.blockText
  dsimp only
  rw [h.isMethod_eq, map_text_eq h.params, isEmpty_eq h.params]
  generalize b.body = x, b'.body = y at hbody ⊢
  cases hbody with
  | none => rfl
  | some hc =>
    dsimp only
    rw [Chain.Translates.toSource_eq hc]

namespace Image.Translates

variable (h : i.Translates d j)

include h

theorem payload (r : Ref) : (i.payload r).Translates d (j.payload r) := h.objects.payload r

/-- **What programs write for an object does not show the index of a name.** -/
theorem display_eq (r : Ref) : j.display r = i.display r := by
  have hpayload := h.payload r
  unfold display
  rw [h.left, h.right]
  generalize i.payload r = p, j.payload r = p' at hpayload ⊢
  cases hpayload with
  | block hb => exact hb.blockText_eq
  | message hs => exact hs.message.toSource_eq
  | _ => rfl

theorem debugText_eq (r : Ref) : j.debugText r = i.debugText r := by
  have hpayload := h.payload r
  unfold debugText
  generalize i.payload r = p, j.payload r = p' at hpayload ⊢
  cases hpayload with
  | block hb =>
    dsimp only
    rw [hb.isMethod_eq]
  | _ => rfl

/-! ## §2. Objects. -/

theorem lookup?_eq (r : Ref) {n k : Name} (hnk : d.Pairs n k) : j.lookup? r k = i.lookup? r n :=
  h.objects.lookup?_eq r hnk

/-- The images with other objects. -/
theorem withObjects {o o' : Heap} (ho : o.Translates d o') :
    Image.Translates d { i with objects := o } { j with objects := o' } :=
  { h with objects := ho }

theorem alloc {p p' : Payload} (hp : p.Translates d p') (protos : List Ref) :
    Made d (i.alloc p protos) (j.alloc p' protos) := by
  have hnew : (Object.new p protos).Translates d (.new p' protos) := ⟨hp, .nil, rfl⟩
  obtain ⟨href, hobjects⟩ := h.objects.alloc hnew
  exact ⟨href, h.withObjects hobjects⟩

theorem cloneOf (proto : Ref) : Made d (i.cloneOf proto) (j.cloneOf proto) := h.alloc .plain _

theorem number (x : Binary64) : Made d (i.number x) (j.number x) := h.alloc (.number x) _

theorem string (s : String) : Made d (i.string s) (j.string s) := h.alloc (.text s) _

theorem message {s s' : Site} (hs : s.Translates d s') : Made d (i.message s) (j.message s') :=
  h.alloc (.message hs) _

theorem block {b b' : Block} (hb : b.Translates d b') : Made d (i.block b) (j.block b') :=
  h.alloc (.block hb) _

theorem literal (c : Constant) : Made d (i.literal c) (j.literal c) := by
  have hremember {x y : Ref × Image} (hmade : Made d x y) :
      Made d (x.1, { x.2 with literals := (c, x.1) :: x.2.literals })
        (y.1, { y.2 with literals := (c, y.1) :: y.2.literals }) := by
    refine ⟨hmade.ref_eq, { hmade.image with literals_eq := ?_ }⟩
    dsimp only
    rw [hmade.ref_eq, hmade.image.literals_eq]
  unfold Image.literal
  rw [h.literals_eq]
  cases i.literals.lookup c with
  | some r => exact ⟨rfl, h⟩
  | none =>
    cases c with
    | number bits => exact hremember (h.number ⟨bits⟩)
    | text s => exact hremember (h.string s)

theorem setSlot (r : Ref) {n k : Name} (hnk : d.Pairs n k) (v : Ref) :
    (i.setSlot r n v).Translates d (j.setSlot r k v) :=
  h.withObjects (h.objects.setSlot r hnk v)

theorem appendProto (r p : Ref) : (i.appendProto r p).Translates d (j.appendProto r p) :=
  h.withObjects (h.objects.appendProto r p)

theorem setActivatable (r : Ref) (flag : Bool) :
    (i.setActivatable r flag).Translates d (j.setActivatable r flag) :=
  h.withObjects (h.objects.modify r fun ho =>
    ⟨ho.payload.setActivatable flag, ho.slots, ho.protos_eq⟩)

theorem withDepth (depth : Nat) :
    Image.Translates d { i with depth := depth } { j with depth := depth } :=
  { h with depth_eq := rfl }

theorem withOutput (output : Output) :
    Image.Translates d { i with output := output } { j with output := output } :=
  { h with output_eq := rfl }

theorem print (text : String) : (i.print text).Translates d (j.print text) := by
  unfold Image.print
  rw [h.output_eq]
  exact h.withOutput _

theorem println (text : String) : (i.println text).Translates d (j.println text) := by
  unfold Image.println
  rw [h.output_eq]
  exact h.withOutput _

/-! ## §3. Names. -/

/-- The images with the names of a larger dictionary. -/
theorem withNames (hext : d.Extends d') :
    Image.Translates d' { i with names := d'.left } { j with names := d'.right } :=
  { h with
    left := rfl
    right := rfl
    selfName := h.selfName.mono hext
    callName := h.callName.mono hext
    forwardName := h.forwardName.mono hext
    objects := h.objects.mono hext }

theorem intern (s : String) : (i.intern s).2.Translates (d.intern s) (j.intern s).2 := by
  unfold Image.intern
  rw [h.left, h.right]
  exact h.withNames (d.extends_intern s)

theorem pairs_intern (s : String) : (d.intern s).Pairs (i.intern s).1 (j.intern s).1 := by
  unfold Image.intern
  rw [h.left, h.right]
  exact d.pairs_intern s

/-! ## §4. Collection. -/

theorem handles_eq : j.handles = i.handles := by
  rw [handles, handles, h.literals_eq, h.held_eq]

theorem live_eq : j.live = i.live := by
  rw [live, live, h.handles_eq, h.objects.live_eq]

theorem collect (inUse : List Ref) :
    (j.collect inUse).1 = (i.collect inUse).1
      ∧ (i.collect inUse).2.Translates d (j.collect inUse).2 := by
  obtain ⟨hcount, hobjects⟩ := h.objects.collect (inUse ++ i.handles)
  unfold Image.collect
  rw [h.handles_eq]
  exact ⟨hcount, h.withObjects hobjects⟩

theorem collectIfDue (inUse : List Ref) :
    (i.collectIfDue inUse).Translates d (j.collectIfDue inUse) := by
  have hdue : j.objects.isDue = i.objects.isDue := by
    rw [Heap.isDue, Heap.isDue, h.objects.threshold_eq, h.objects.fresh_eq]
  unfold Image.collectIfDue
  rw [hdue]
  split
  · exact (h.collect inUse).2
  · exact h

end Image.Translates

/-! ## §5. New images. -/

namespace Image

theorem void_translates (d : Dictionary) (config : Config) :
    ∃ d', d.Extends d' ∧ (void { config with names := d.left }).Translates d'
      (void { config with names := d.right }) := by
  -- the three names that every image knows are paired one after another
  let d₁ := d.intern "self"
  let d₂ := d₁.intern "call"
  have hself := d.extends_intern "self"
  have hcall := d₁.extends_intern "call"
  have hforward := d₂.extends_intern "forward"
  refine ⟨d₂.intern "forward", (hself.trans hcall).trans hforward, rfl, rfl, ?_, ?_,
    d₂.pairs_intern "forward", ?_, rfl, rfl, rfl, rfl, rfl, rfl⟩
  · exact (d.pairs_intern "self").mono (hcall.trans hforward)
  · exact (d₁.pairs_intern "call").mono hforward
  · exact ⟨rfl, rfl, rfl, fun _ => .none⟩

theorem Translates.addBuiltin (h : i.Translates d j) (b : Builtin) :
    (i.addBuiltin b).Translates d (j.addBuiltin b) := by
  have hpayload : (builtinPayload b).Translates d (builtinPayload b) := by
    cases b with
    | nil => exact .nil
    | yes => exact .boolean true
    | no => exact .boolean false
    | _ => exact .plain
  exact (h.alloc hpayload _).image

theorem Translates.nameBuiltin (h : i.Translates d j) (b : Builtin) :
    (i.nameBuiltin b).Translates (d.intern b.name) (j.nameBuiltin b) :=
  (h.intern b.name).setSlot _ (h.pairs_intern b.name) _

theorem Translates.addNative (h : i.Translates d j) (op : Native) :
    (i.addNative op).Translates (d.intern op.name) (j.addNative op) := by
  have hmade := h.alloc (.native op) []
  have hslot := (hmade.image.intern op.name).setSlot op.owner.ref
    (hmade.image.pairs_intern op.name) (i.alloc (.native op) []).1
  unfold Image.addNative
  dsimp only
  rw [hmade.ref_eq]
  exact hslot

/-- What one step of building an image keeps, all steps together keep. -/
theorem exists_translates_foldl {α : Type} {f : Image → α → Image}
    (hf : ∀ {d : Dictionary} {i j : Image} (x : α), i.Translates d j →
      ∃ d', d.Extends d' ∧ (f i x).Translates d' (f j x))
    (xs : List α) (h : i.Translates d j) :
    ∃ d', d.Extends d' ∧ (xs.foldl f i).Translates d' (xs.foldl f j) := by
  induction xs generalizing d i j with
  | nil => exact ⟨d, .refl d, h⟩
  | cons x xs ih =>
    obtain ⟨d₁, hext₁, hnext⟩ := hf x h
    obtain ⟨d₂, hext₂, hlast⟩ := ih hnext
    exact ⟨d₂, hext₁.trans hext₂, hlast⟩

/-- **New images that start with different names are translations of each other.** -/
theorem exists_translates_new (d : Dictionary) (config : Config) :
    ∃ d', d.Extends d' ∧ (new { config with names := d.left }).Translates d'
      (new { config with names := d.right }) := by
  rw [new_eq, new_eq, seed, seed]
  obtain ⟨d₁, hext₁, hvoid⟩ := void_translates d config
  obtain ⟨d₂, hext₂, hseed⟩ :=
    exists_translates_foldl (fun b h => ⟨_, .refl _, h.addBuiltin b⟩) Builtin.all hvoid
  obtain ⟨d₃, hext₃, hnamed⟩ := exists_translates_foldl
    (fun b h => ⟨_, Dictionary.extends_intern _ _, h.nameBuiltin b⟩) Builtin.all hseed
  obtain ⟨d₄, hext₄, hnew⟩ := exists_translates_foldl
    (fun op h => ⟨_, Dictionary.extends_intern _ _, h.addNative op⟩) Native.all hnamed
  exact ⟨d₄, ((hext₁.trans hext₂).trans hext₃).trans hext₄, hnew⟩

end Image

end Prototalk
