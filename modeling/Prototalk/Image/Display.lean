/-
  Prototalk.Image.Display
  ────────────────────────────────
  **OBJECTS AS TEXT.**

  `display` is what programs write for an object, `debugText` what shows its
  kind.  The text of an object is not its identity: all plain objects but two
  have the same.
-/
import Prototalk.Image
import Prototalk.Message.Printer
import Prototalk.Text.Visible

namespace Prototalk

namespace Image

/-- The text of a plain object; objects have no name of their own. -/
def anonymousText : String := "Object(@)"

/-- The parameters and the body of a block, as source text. -/
def blockText (names : Interner) (b : Block) : String :=
  let head := if b.isMethod then "method(" else "block("
  let params := String.intercalate ", " (b.params.map names.text)
  let comma := if b.params.isEmpty then "" else ","
  let body := match b.body with
    | some body => Chain.toSource names body
    | none => ""
  head ++ params ++ comma ++ "\n" ++ body ++ "\n)"

/-- The text that programs write for an object. -/
def display (image : Image) (r : Ref) : String :=
  match image.payload r with
  | .nil => "nil"
  | .boolean b => if b then "true" else "false"
  | .number x => x.text
  | .text s => s
  | .block b => blockText image.names b
  | .message site => site.message.toSource image.names
  | .native op => "Native(" ++ op.name ++ ")"
  | .call _ => "Call"
  | .plain =>
      if r = Builtin.lobby.ref then "Lobby"
      else if r = Builtin.object.ref then "Object"
      else anonymousText

/-- The text that shows what an object is made of. -/
def debugText (image : Image) (r : Ref) : String :=
  match image.payload r with
  | .plain => anonymousText
  | .nil => "nil"
  | .boolean b => if b then "true" else "false"
  | .number x => "Number(" ++ x.text ++ ")"
  | .text s => "Str(" ++ Visible.string s ++ ")"
  | .block b => if b.isMethod then "Method" else "Block"
  | .native op => "Native(" ++ op.name ++ ")"
  | .call _ => "Call"
  | .message _ => "Message"

end Image

end Prototalk
