/-
  Prototalk.Proofs.Host.Draft
  ────────────────────────────────
  **DRAFTS IN TWO TABLES OF NAMES.**

  A draft refers to the objects it is given and to no others
  (`Draft.mem_of_mem_refs_payload`).  In two tables that know its texts it
  becomes the same code and the same payload in other names
  (`Draft.translates_code`, `Draft.translates_payload`).
-/
import Prototalk.Host.Draft
import Prototalk.Proofs.Object.Translation

namespace Prototalk

variable {f f' : Name → Name} {g : Ref → Ref} {d : Dictionary}

/-! ## §1. Other names. -/

theorem Chain.rename_eq_map (f : Name → Name) (c : Chain) :
    Chain.rename f c = c.map (Message.rename f) := by
  induction c with
  | nil => rfl
  | cons m c ih => rw [Chain.rename, ih, List.map_cons]

theorem Message.renameArgs_eq_map (f : Name → Name) (args : List Chain) :
    Message.renameArgs f args = args.map (List.map (Message.rename f)) := by
  induction args with
  | nil => rfl
  | cons a args ih => rw [Message.renameArgs, ih, Chain.rename_eq_map, List.map_cons]

theorem Payload.refs_rename (f : Name → Name) (g : Ref → Ref) (p : Payload) :
    (p.rename f g).refs = p.refs.map g := by
  cases p with
  | block b => obtain ⟨_, _ | r, _, _⟩ := b <;> rfl
  | _ => rfl

/-! ## §2. Translations. -/

/-- Names of the one table and of the other, for the same names. -/
theorem Message.translates_rename (hff' : ∀ n, d.Pairs (f n) (f' n)) (m : Message) :
    (m.rename f).Translates d (m.rename f') := by
  induction m using Message.induction with
  | step symbol args span ih =>
    rw [Message.rename, Message.rename, Message.renameArgs_eq_map, Message.renameArgs_eq_map]
    refine .mk ?_ ?_
    · cases symbol with
      | ident n => exact .ident (hff' n)
      | number x => exact .number x
      | text s => exact .text s
      | separator mark => exact .separator mark
    · simp only [List.forall₂_map_left_iff, List.forall₂_map_right_iff, List.forall₂_same]
      exact ih

theorem Chain.translates_rename (hff' : ∀ n, d.Pairs (f n) (f' n)) (c : Chain) :
    Chain.Translates d (Chain.rename f c) (Chain.rename f' c) := by
  simp only [Chain.rename_eq_map, Chain.Translates, List.forall₂_map_left_iff,
    List.forall₂_map_right_iff, List.forall₂_same]
  exact fun m _ => m.translates_rename hff'

theorem Site.translates_rename (hff' : ∀ n, d.Pairs (f n) (f' n)) (s : Site) :
    (s.rename f).Translates d (s.rename f') :=
  ⟨Chain.translates_rename hff' _, s.message.translates_rename hff',
    Chain.translates_rename hff' _⟩

theorem Block.translates_rename (hff' : ∀ n, d.Pairs (f n) (f' n)) (g : Ref → Ref) (b : Block) :
    (b.rename f g).Translates d (b.rename f' g) where
  body := by
    obtain ⟨_ | c, _, _, _⟩ := b
    · exact .none
    · exact .some (Chain.translates_rename hff' c)
  captured_eq := rfl
  params := by
    simp only [Block.rename, List.forall₂_map_left_iff, List.forall₂_map_right_iff,
      List.forall₂_same]
    exact fun n _ => hff' n
  activatable_eq := rfl

theorem Payload.translates_rename (hff' : ∀ n, d.Pairs (f n) (f' n)) (g : Ref → Ref)
    (p : Payload) : (p.rename f g).Translates d (p.rename f' g) := by
  cases p with
  | plain => exact .plain
  | nil => exact .nil
  | boolean b => exact .boolean b
  | number x => exact .number x
  | text s => exact .text s
  | native op => exact .native op
  | block b => exact .block (b.translates_rename hff' g)
  | call c => exact .call ⟨rfl, rfl, rfl, c.site.translates_rename hff'⟩
  | message s => exact .message (s.translates_rename hff')

/-! ## §3. Drafts. -/

namespace Draft

/-- A draft refers to `nil` and to the objects it is given. -/
theorem mem_of_mem_refs_payload {draft : Draft Payload} {names : Interner} {refs : List Ref}
    {r : Ref} (hr : r ∈ (draft.payload names refs).refs) : r ∈ Builtin.nil.ref :: refs := by
  rw [payload, Payload.refs_rename] at hr
  obtain ⟨s, -, rfl⟩ := List.mem_map.mp hr
  rw [List.getD_eq_getElem?_getD]
  cases hs : refs[s.index]? with
  | none => exact List.mem_cons_self
  | some r => exact List.mem_cons_of_mem _ (List.mem_of_getElem? hs)

/-- The names of a draft in two tables that know its texts. -/
theorem pairs_name {α : Type} (draft : Draft α)
    (hknows : ∀ s ∈ draft.texts, d.left.Knows s ∧ d.right.Knows s) (n : Name) :
    d.Pairs (draft.name d.left n) (draft.name d.right n) := by
  unfold name
  cases hs : draft.texts[n.index]? with
  | none => exact d.pairs_empty
  | some s =>
    obtain ⟨⟨k, hk⟩, ⟨k', hk'⟩⟩ := hknows s (List.mem_of_getElem? hs)
    rw [Option.bind_some, Option.bind_some, d.leftValid.get?_eq_some_iff.mpr hk,
      d.rightValid.get?_eq_some_iff.mpr hk']
    exact ⟨s, hk, hk'⟩

theorem translates_code (draft : Draft Chain)
    (hknows : ∀ s ∈ draft.texts, d.left.Knows s ∧ d.right.Knows s) :
    Chain.Translates d (draft.code d.left) (draft.code d.right) :=
  Chain.translates_rename (draft.pairs_name hknows) _

theorem translates_payload (draft : Draft Payload)
    (hknows : ∀ s ∈ draft.texts, d.left.Knows s ∧ d.right.Knows s) (refs : List Ref) :
    (draft.payload d.left refs).Translates d (draft.payload d.right refs) :=
  Payload.translates_rename (draft.pairs_name hknows) _ _

end Draft

end Prototalk
