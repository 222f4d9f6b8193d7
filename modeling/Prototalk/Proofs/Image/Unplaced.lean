/-
  Prototalk.Proofs.Image.Unplaced
  ────────────────────────────────
  **IMAGES UP TO WHERE MESSAGES STAND.**

  Blocks, calls and messages keep code, and code knows where it stood.  In
  `Image.unplaced` it stands nowhere; all else is as it was.  Whatever is
  done with the objects of an image does not look at the places:

    • what refers to what is the same, so slots are found and collections
      remove the same (`lookup?_unplaced`, `collectIfDue_unplaced`,
      `live_unplaced`),
    • what is made or changed is the same up to places,
    • no text shows them (`display_unplaced`, `debugText_unplaced`).

  All equations move `unplaced` outwards.
-/
import Prototalk.Image.Display
import Prototalk.Proofs.Message.Unplaced
import Prototalk.Proofs.Object.Heap

namespace Prototalk

/-! ## §1. Objects. -/

/-- The block without the places in the source. -/
def Block.unplaced (b : Block) : Block := { b with body := b.body.map Chain.unplaced }

/-- The call without the places in the source. -/
def CallRecord.unplaced (c : CallRecord) : CallRecord := { c with site := c.site.unplaced }

namespace Payload

/-- What an object is, without the places in the source. -/
def unplaced : Payload → Payload
  | .block b => .block b.unplaced
  | .call c => .call c.unplaced
  | .message site => .message site.unplaced
  | p => p

@[simp] theorem refs_unplaced (p : Payload) : p.unplaced.refs = p.refs := by
  cases p <;> rfl

@[simp] theorem isTruthy_unplaced (p : Payload) : p.unplaced.isTruthy = p.isTruthy := by
  cases p <;> rfl

theorem setActivatable_unplaced (flag : Bool) (p : Payload) :
    p.unplaced.setActivatable flag = (p.setActivatable flag).unplaced := by
  cases p <;> rfl

end Payload

namespace Object

/-- The object without the places in the source. -/
def unplaced (o : Object) : Object := { o with payload := o.payload.unplaced }

@[simp] theorem refs_unplaced (o : Object) : o.unplaced.refs = o.refs := by
  simp [refs, unplaced]

end Object

/-! ## §2. Heaps. -/

namespace Heap

variable (h : Heap)

/-- The heap without the places in the source. -/
def unplaced : Heap := { h with cells := h.cells.map (Option.map Object.unplaced) }

@[simp] theorem size_cells_unplaced : h.unplaced.cells.size = h.cells.size := by
  simp [unplaced]

@[simp] theorem get?_unplaced (r : Ref) :
    h.unplaced.get? r = (h.get? r).map Object.unplaced := by
  simp only [get?, unplaced, Array.getElem?_map]
  cases h.cells[r.index]? <;> simp

theorem payload_unplaced (r : Ref) : h.unplaced.payload r = (h.payload r).unplaced := by
  rw [payload, payload, get?_unplaced]
  cases h.get? r <;> rfl

@[simp] theorem protos_unplaced (r : Ref) : h.unplaced.protos r = h.protos r := by
  rw [protos, protos, get?_unplaced]
  cases h.get? r <;> rfl

@[simp] theorem ownSlot?_unplaced (r : Ref) (n : Name) :
    h.unplaced.ownSlot? r n = h.ownSlot? r n := by
  rw [ownSlot?, ownSlot?, get?_unplaced]
  cases h.get? r <;> rfl

@[simp] theorem refs_unplaced : h.unplaced.refs = h.refs := by
  simp [refs]

@[simp] theorem size_unplaced : h.unplaced.size = h.size := by
  simp [size, unplaced, Array.countP_map, Function.comp_def]

/-! ### Making, changing and removing -/

theorem alloc_unplaced (o : Object) :
    h.unplaced.alloc o.unplaced = ((h.alloc o).1, (h.alloc o).2.unplaced) := by
  simp [alloc, unplaced]

theorem modify_unplaced (r : Ref) {f g : Object → Object}
    (hfg : ∀ o : Object, g o.unplaced = (f o).unplaced) :
    h.unplaced.modify r g = (h.modify r f).unplaced := by
  have hcells : (h.cells.map (Option.map Object.unplaced)).modify r.index (Option.map g)
      = (h.cells.modify r.index (Option.map f)).map (Option.map Object.unplaced) := by
    refine Array.ext_getElem? fun i => ?_
    simp only [Array.getElem?_modify, Array.getElem?_map]
    by_cases hi : r.index = i
    · rw [if_pos hi, if_pos hi]
      rcases h.cells[i]? with _ | _ | o
      · rfl
      · rfl
      · simp [hfg]
    · rw [if_neg hi, if_neg hi]
  simp [modify, unplaced, hcells]

theorem erase_unplaced (r : Ref) : h.unplaced.erase r = (h.erase r).unplaced := by
  simp [erase, unplaced, Array.map_setIfInBounds]

/-! ### Slots -/

theorem search_unplaced (n : Name) (rounds : Nat) (visited todo : List Ref) :
    h.unplaced.search n rounds visited todo = h.search n rounds visited todo := by
  induction rounds generalizing visited todo with
  | zero => rfl
  | succ rounds ih =>
    simp only [search, get?_unplaced, Option.isNone_map, ownSlot?_unplaced, protos_unplaced, ih]

@[simp] theorem lookup?_unplaced (r : Ref) (n : Name) :
    h.unplaced.lookup? r n = h.lookup? r n := by
  simp [lookup?, search_unplaced]

/-! ### Collection -/

@[simp] theorem tally_unplaced (handles : List Ref) :
    h.unplaced.tally handles = h.tally handles := by
  have hcell : ∀ (counts : Array Nat) (cell : Option Object),
      countCell counts (cell.map Object.unplaced) = countCell counts cell := by
    intro counts cell
    cases cell <;> simp [countCell]
  rw [tally, tally, ← Array.foldl_toList, ← Array.foldl_toList, size_cells_unplaced, unplaced,
    Array.toList_map, List.foldl_map]
  simp only [hcell]

theorem releaseFrom_unplaced (rounds : Nat) (counts : Array Nat) (todo : List Ref) :
    releaseFrom rounds counts todo h.unplaced = (releaseFrom rounds counts todo h).unplaced := by
  induction rounds generalizing counts todo h with
  | zero => rfl
  | succ rounds ih =>
    cases todo with
    | nil => rfl
    | cons r todo =>
      rw [releaseFrom, releaseFrom, get?_unplaced]
      cases hr : h.get? r with
      | none => exact ih h counts todo
      | some o =>
        simp only [Option.map_some, Object.refs_unplaced, erase_unplaced]
        exact ih (h.erase r) _ _

theorem release_unplaced (handles : List Ref) :
    h.unplaced.release handles = (h.release handles).unplaced := by
  simp [release, releaseFrom_unplaced]

@[simp] theorem live_unplaced (handles : List Ref) :
    h.unplaced.live handles = h.live handles := by
  simp [live, release_unplaced]

theorem markFrom_unplaced (rounds : Nat) (marked : Array Bool) (pending : List Ref) :
    h.unplaced.markFrom rounds marked pending = h.markFrom rounds marked pending := by
  induction rounds generalizing marked pending with
  | zero => rfl
  | succ rounds ih =>
    cases pending with
    | nil => rfl
    | cons r pending =>
      rw [markFrom, markFrom, get?_unplaced]
      cases h.get? r with
      | none => exact ih _ _
      | some o =>
        simp only [Option.map_some, Object.refs_unplaced]
        exact ih _ _

@[simp] theorem garbage_unplaced (handles : List Ref) :
    h.unplaced.garbage handles = h.garbage handles := by
  simp [garbage, mark, roots, markFrom_unplaced]

theorem clear_unplaced (refs : List Ref) : h.unplaced.clear refs = (h.clear refs).unplaced := by
  induction refs generalizing h with
  | nil => rfl
  | cons r refs ih =>
    show (h.unplaced.modify r Object.cleared).clear refs = _
    rw [h.modify_unplaced r (f := Object.cleared) fun _ => rfl, ih]
    rfl

theorem collect_unplaced (handles : List Ref) :
    h.unplaced.collect handles = ((h.collect handles).1, (h.collect handles).2.unplaced) := by
  simp only [collect, release_unplaced, garbage_unplaced, clear_unplaced]
  rfl

end Heap

/-! ## §3. Images. -/

namespace Image

variable (i : Image)

/-- The image without the places in the source. -/
def unplaced : Image := { i with objects := i.objects.unplaced }

theorem payload_unplaced (r : Ref) : i.unplaced.payload r = (i.payload r).unplaced :=
  i.objects.payload_unplaced r

@[simp] theorem lookup?_unplaced (r : Ref) (n : Name) : i.unplaced.lookup? r n = i.lookup? r n :=
  i.objects.lookup?_unplaced r n

/-! ### Making and changing objects -/

theorem alloc_unplaced (payload : Payload) (protos : List Ref) :
    i.unplaced.alloc payload.unplaced protos
      = ((i.alloc payload protos).1, (i.alloc payload protos).2.unplaced) := by
  have hobjects := i.objects.alloc_unplaced (.new payload protos)
  simp only [alloc, unplaced]
  rw [show Object.new payload.unplaced protos = (Object.new payload protos).unplaced from rfl,
    hobjects]

theorem cloneOf_unplaced (proto : Ref) :
    i.unplaced.cloneOf proto = ((i.cloneOf proto).1, (i.cloneOf proto).2.unplaced) :=
  i.alloc_unplaced .plain [proto]

theorem number_unplaced (x : Binary64) :
    i.unplaced.number x = ((i.number x).1, (i.number x).2.unplaced) :=
  i.alloc_unplaced (.number x) _

theorem string_unplaced (s : String) :
    i.unplaced.string s = ((i.string s).1, (i.string s).2.unplaced) :=
  i.alloc_unplaced (.text s) _

theorem message_unplaced (site : Site) :
    i.unplaced.message site.unplaced = ((i.message site).1, (i.message site).2.unplaced) :=
  i.alloc_unplaced (.message site) _

theorem block_unplaced (b : Block) :
    i.unplaced.block b.unplaced = ((i.block b).1, (i.block b).2.unplaced) :=
  i.alloc_unplaced (.block b) _

theorem literal_unplaced (c : Constant) :
    i.unplaced.literal c = ((i.literal c).1, (i.literal c).2.unplaced) := by
  have hliterals : i.unplaced.literals = i.literals := rfl
  unfold literal
  rw [hliterals]
  cases i.literals.lookup c with
  | some r => rfl
  | none =>
    cases c with
    | number bits => simp only [number_unplaced]; rfl
    | text s => simp only [string_unplaced]; rfl

theorem setSlot_unplaced (r : Ref) (n : Name) (v : Ref) :
    i.unplaced.setSlot r n v = (i.setSlot r n v).unplaced := by
  have hobjects := i.objects.modify_unplaced r (f := (·.setSlot n v)) (g := (·.setSlot n v))
    fun _ => rfl
  simp only [setSlot, unplaced, Heap.setSlot, hobjects]

theorem appendProto_unplaced (r p : Ref) :
    i.unplaced.appendProto r p = (i.appendProto r p).unplaced := by
  have hobjects := i.objects.modify_unplaced r (f := (·.appendProto p)) (g := (·.appendProto p))
    fun _ => rfl
  simp only [appendProto, unplaced, Heap.appendProto, hobjects]

theorem setActivatable_unplaced (r : Ref) (flag : Bool) :
    i.unplaced.setActivatable r flag = (i.setActivatable r flag).unplaced := by
  have hobjects := i.objects.modify_unplaced r
    (f := fun o => { o with payload := o.payload.setActivatable flag })
    (g := fun o => { o with payload := o.payload.setActivatable flag })
    fun o => by simp [Object.unplaced, Payload.setActivatable_unplaced]
  simp only [setActivatable, unplaced, hobjects]

/-! ### Collection -/

@[simp] theorem live_unplaced : i.unplaced.live = i.live :=
  i.objects.live_unplaced i.handles

theorem collectIfDue_unplaced (inUse : List Ref) :
    i.unplaced.collectIfDue inUse = (i.collectIfDue inUse).unplaced := by
  have hdue : i.unplaced.objects.isDue = i.objects.isDue := rfl
  have hcollect := i.objects.collect_unplaced (inUse ++ i.handles)
  rw [collectIfDue, collectIfDue, hdue]
  cases i.objects.isDue with
  | false => rfl
  | true =>
    show { i with objects := (i.objects.unplaced.collect (inUse ++ i.handles)).2 } = _
    rw [hcollect]
    rfl

/-! ### Texts -/

@[simp] theorem blockText_unplaced (names : Interner) (b : Block) :
    blockText names b.unplaced = blockText names b := by
  unfold blockText
  cases hbody : b.body <;> simp [Block.unplaced, Block.isMethod, hbody]

/-- **What programs write for an object does not show where code stands.** -/
@[simp] theorem display_unplaced (r : Ref) : i.unplaced.display r = i.display r := by
  have hnames : i.unplaced.names = i.names := rfl
  rw [display, display, payload_unplaced, hnames]
  cases i.payload r <;> simp [Payload.unplaced, Site.unplaced]

@[simp] theorem debugText_unplaced (r : Ref) : i.unplaced.debugText r = i.debugText r := by
  rw [debugText, debugText, payload_unplaced]
  cases i.payload r <;> simp [Payload.unplaced, Block.unplaced, Block.isMethod]

end Image

end Prototalk
