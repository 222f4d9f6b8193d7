/-
  Prototalk.Host.Draft
  ────────────────────────────────
  **WHAT A HOST PUTS TOGETHER ITSELF.**

  A host may build code and objects of its own instead of having them read
  from a text.  Before it does, it gives names to the texts that it needs,
  so a draft comes with these texts: a name in the draft is a position among
  them.  In the same way a reference in a draft is a position among objects
  that the host knows.

    • `Draft.code` — the code, in the names of a table,
    • `Draft.payload` — the payload, in the names of a table and for given
      objects.
-/
import Prototalk.Object

namespace Prototalk

/-! ## §1. Other names. -/

/-- The symbol with another name. -/
def Symbol.rename (f : Name → Name) : Symbol → Symbol
  | .ident n => .ident (f n)
  | s => s

mutual

/-- The message, its arguments included, with other names. -/
def Message.rename (f : Name → Name) : Message → Message
  | ⟨symbol, args, span⟩ => ⟨symbol.rename f, Message.renameArgs f args, span⟩

/-- The chain with other names. -/
def Chain.rename (f : Name → Name) : List Message → List Message
  | [] => []
  | m :: rest => m.rename f :: Chain.rename f rest

/-- Argument chains with other names. -/
def Message.renameArgs (f : Name → Name) : List (List Message) → List (List Message)
  | [] => []
  | a :: rest => Chain.rename f a :: Message.renameArgs f rest

end

/-- The position with other names. -/
def Site.rename (f : Name → Name) (s : Site) : Site :=
  ⟨Chain.rename f s.before, s.message.rename f, Chain.rename f s.after⟩

/-- The block with other names and for another object. -/
def Block.rename (f : Name → Name) (g : Ref → Ref) (b : Block) : Block :=
  ⟨b.body.map (Chain.rename f), b.captured.map g, b.params.map f, b.activatable⟩

/-- The call with other names and for other objects. -/
def CallRecord.rename (f : Name → Name) (g : Ref → Ref) (c : CallRecord) : CallRecord :=
  ⟨g c.sender, g c.target, g c.activated, c.site.rename f⟩

/-- The payload with other names and for other objects. -/
def Payload.rename (f : Name → Name) (g : Ref → Ref) : Payload → Payload
  | .block b => .block (b.rename f g)
  | .call c => .call (c.rename f g)
  | .message site => .message (site.rename f)
  | p => p

/-! ## §2. Drafts. -/

/-- Something with names in it that are positions in a list of texts. -/
structure Draft (α : Type) where
  /-- The texts of the names. -/
  texts : List String
  /-- What the draft is of. -/
  content : α

namespace Draft

/-- The name that a table has for a position; a position that has no text means the empty name. -/
def name {α : Type} (draft : Draft α) (names : Interner) (n : Name) : Name :=
  ((draft.texts[n.index]?).bind names.get?).getD .empty

/-- The code, in the names of a table. -/
def code (draft : Draft Chain) (names : Interner) : Chain :=
  Chain.rename (draft.name names) draft.content

/-- The payload, in the names of a table and for the objects `refs`; a position that has no object
means `nil`. -/
def payload (draft : Draft Payload) (names : Interner) (refs : List Ref) : Payload :=
  draft.content.rename (draft.name names) fun r => refs.getD r.index Builtin.nil.ref

end Draft

end Prototalk
