/-
  Prototalk.Image.Genesis
  ────────────────────────────────
  **NEW IMAGES.**

  A new image has ten objects, and twenty-nine operations in their slots.
-/
import Prototalk.Image

namespace Prototalk

/-- What can be chosen about a new image. -/
structure Config where
  /-- Names that are known from the start. -/
  names : Interner := .new
  /-- Greatest number of activations inside each other. -/
  maxDepth : Nat := 10000
  /-- Number of new objects after which a collection is due. -/
  threshold : Nat := 10000
  /-- Where programs write to. -/
  output : Output := .standard ""
  /-- How sources are lexed. -/
  lexMode : LexMode := .inline

namespace Image

/-- What a built-in object is. -/
def builtinPayload : Builtin → Payload
  | .nil => .nil
  | .yes => .boolean true
  | .no => .boolean false
  | _ => .plain

/-- Make a built-in object; all but the first delegate to the first. -/
def addBuiltin (image : Image) (b : Builtin) : Image :=
  (image.alloc (builtinPayload b) (if b = .object then [] else [Builtin.object.ref])).2

/-- Put a built-in object into the slot in which programs find it. -/
def nameBuiltin (image : Image) (b : Builtin) : Image :=
  let (n, image) := image.intern b.name
  image.setSlot Builtin.object.ref n b.ref

/-- Put an operation into its slot. -/
def addNative (image : Image) (op : Native) : Image :=
  let (r, image) := image.alloc (.native op) []
  let (n, image) := image.intern op.name
  image.setSlot op.owner.ref n r

/-- An image in which no program has run. -/
def new (config : Config) : Image :=
  let (selfName, names) := config.names.intern "self"
  let (callName, names) := names.intern "call"
  let (forwardName, names) := names.intern "forward"
  let bare : Image :=
    ⟨names, selfName, callName, forwardName, .new config.threshold, [], config.output, 0,
      config.maxDepth, config.lexMode, []⟩
  Native.all.foldl addNative (Builtin.all.foldl nameBuiltin (Builtin.all.foldl addBuiltin bare))

end Image

end Prototalk
