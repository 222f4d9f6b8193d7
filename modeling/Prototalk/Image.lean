/-
  Prototalk.Image
  ────────────────────────────────
  **ALL THAT A RUNNING SYSTEM CONSISTS OF.**

  The names, the objects, the objects of literals, the output, the depth of
  activations, and what is held from outside.
-/
import Prototalk.Object.Collection
import Prototalk.Object.Lookup
import Prototalk.Output
import Prototalk.Token.Handoff

namespace Prototalk

/-- The value of a literal; each has one object. -/
inductive Constant where
  /-- A number, by its pattern. -/
  | number (bits : UInt64)
  /-- A string. -/
  | text (s : String)
  deriving DecidableEq

/-- The state of a running system. -/
structure Image where
  /-- The names. -/
  names : Interner
  /-- The slot that holds the receiver of an activation. -/
  selfName : Name
  /-- The slot that holds the call of an activation. -/
  callName : Name
  /-- The slot that stands in for one that is not found. -/
  forwardName : Name
  /-- The objects. -/
  objects : Heap
  /-- The objects of literals, newest first. -/
  literals : List (Constant × Ref)
  /-- Where programs write to. -/
  output : Output
  /-- Number of activations inside each other. -/
  depth : Nat
  /-- Greatest number of activations inside each other. -/
  maxDepth : Nat
  /-- How sources are lexed. -/
  lexMode : LexMode
  /-- The objects that are held from outside. -/
  held : List Ref

namespace Image

/-! ## §1. Objects. -/

/-- Make an object. -/
def alloc (image : Image) (payload : Payload) (protos : List Ref) : Ref × Image :=
  let (r, objects) := image.objects.alloc (.new payload protos)
  (r, { image with objects := objects })

/-- Make a plain object that delegates to another. -/
def cloneOf (image : Image) (proto : Ref) : Ref × Image := image.alloc .plain [proto]

/-- Make a number. -/
def number (image : Image) (x : Binary64) : Ref × Image :=
  image.alloc (.number x) [Builtin.number.ref]

/-- Make a string. -/
def string (image : Image) (s : String) : Ref × Image := image.alloc (.text s) [Builtin.string.ref]

/-- Make an object for a message. -/
def message (image : Image) (site : Site) : Ref × Image :=
  image.alloc (.message site) [Builtin.message.ref]

/-- Make a block. -/
def block (image : Image) (b : Block) : Ref × Image := image.alloc (.block b) [Builtin.block.ref]

/-- The object of a truth value. -/
def boolean (b : Bool) : Ref := if b then Builtin.yes.ref else Builtin.no.ref

/-- The object of a literal, which is made when the literal is met first. -/
def literal (image : Image) (c : Constant) : Ref × Image :=
  match image.literals.lookup c with
  | some r => (r, image)
  | none =>
      let (r, image) := match c with
        | .number bits => image.number ⟨bits⟩
        | .text s => image.string s
      (r, { image with literals := (c, r) :: image.literals })

/-- What an object is. -/
def payload (image : Image) (r : Ref) : Payload := image.objects.payload r

/-- The value of a slot of an object or of what it delegates to. -/
def lookup? (image : Image) (r : Ref) (n : Name) : Option Ref := image.objects.lookup? r n

/-- Set a slot. -/
def setSlot (image : Image) (r : Ref) (n : Name) (v : Ref) : Image :=
  { image with objects := image.objects.setSlot r n v }

/-- Let an object delegate to one more. -/
def appendProto (image : Image) (r p : Ref) : Image :=
  { image with objects := image.objects.appendProto r p }

/-- Tell a block whether finding it runs it. -/
def setActivatable (image : Image) (r : Ref) (flag : Bool) : Image :=
  { image with
    objects := image.objects.modify r fun o => { o with payload := o.payload.setActivatable flag } }

/-- Give a text a name. -/
def intern (image : Image) (text : String) : Name × Image :=
  let (n, names) := image.names.intern text
  (n, { image with names := names })

/-- Write a text. -/
def print (image : Image) (text : String) : Image :=
  { image with output := image.output.print text }

/-- Write a text and end the line. -/
def println (image : Image) (text : String) : Image :=
  { image with output := image.output.println text }

/-! ## §2. Collection. -/

/-- The objects that are in use whatever a program does. -/
def handles (image : Image) : List Ref :=
  Builtin.all.map Builtin.ref ++ image.literals.map (·.2) ++ image.held

/-- Number of objects that are there, while no program runs. -/
def live (image : Image) : Nat := image.objects.live image.handles

/-- Remove objects that neither the image nor a running program, which holds `inUse`, refers to;
also their number. -/
def collect (image : Image) (inUse : List Ref) : Nat × Image :=
  let handles := inUse ++ image.handles
  let (n, objects) := image.objects.collect handles
  (n, { image with objects := objects })

/-- Collect, if it is time to. -/
@[macro_inline] def collectIfDue (image : Image) (inUse : List Ref) : Image :=
  if image.objects.isDue then (image.collect inUse).2 else image

end Image

end Prototalk
