/-
  Prototalk.Proofs.Evaluation.Formatting
  ────────────────────────────────
  **WRITING A PROGRAM IN ITS FIXED LAYOUT DOES NOT CHANGE WHAT IT DOES.**

  The text of a program reads as the program up to spans, with the same
  names, and evaluation does not look at spans.  So the program and its text
  give the same value, write the same, fail for the same reason, and leave
  images that are equal up to spans (`Ran.SameButPlaces`).
-/
import Prototalk.Proofs.Evaluation.Program
import Prototalk.Proofs.Evaluation.Unplaced
import Prototalk.Proofs.Message.Rereading

namespace Prototalk

/-! ## §1. Runs that differ in places only. -/

/-- Runs that nothing but the places of messages and errors tells apart. -/
structure Ran.SameButPlaces (x y : Ran) : Prop where
  /-- The same value, or the same fault. -/
  result : y.result.mapError (·.fault) = x.result.mapError (·.fault)
  /-- Objects are the same up to places. -/
  payload : ∀ r, (y.image.payload r).unplaced = (x.image.payload r).unplaced
  /-- Objects have the same texts. -/
  display : ∀ r, y.image.display r = x.image.display r
  debugText : ∀ r, y.image.debugText r = x.image.debugText r
  /-- The same was written. -/
  output : y.image.output = x.image.output
  /-- As many objects are there. -/
  live : y.image.live = x.image.live
  /-- All else is the same, too. -/
  image : y.image.unplaced = x.image.unplaced

theorem Ran.sameButPlaces_of_unplaced {x y : Ran} (h : x.unplaced = y.unplaced) :
    Ran.SameButPlaces x y := by
  have himage : y.image.unplaced = x.image.unplaced := (congrArg Ran.image h).symm
  have hresult : x.result.mapError EvalError.unplaced = y.result.mapError EvalError.unplaced :=
    congrArg Ran.result h
  -- the fault is what is left of an error
  have hfault : ∀ result : Except EvalError Ref,
      (result.mapError EvalError.unplaced).mapError (·.fault) = result.mapError (·.fault) := by
    intro result
    cases result <;> rfl
  refine ⟨?_, fun r => ?_, fun r => ?_, fun r => ?_, ?_, ?_, himage⟩
  · rw [← hfault, ← hresult, hfault]
  · rw [← Image.payload_unplaced, himage, Image.payload_unplaced]
  · rw [← Image.display_unplaced, himage, Image.display_unplaced]
  · rw [← Image.debugText_unplaced, himage, Image.debugText_unplaced]
  · show y.image.unplaced.output = x.image.unplaced.output
    rw [himage]
  · rw [← Image.live_unplaced, himage, Image.live_unplaced]

/-- Runs that are equal without places, or neither of which ends in time. -/
theorem rel_of_map_unplaced {x y : Option Ran} (h : x.map Ran.unplaced = y.map Ran.unplaced) :
    Option.Rel Ran.SameButPlaces x y := by
  cases x with
  | none =>
    cases y with
    | none => exact .none
    | some b => cases h
  | some a =>
    cases y with
    | none => cases h
    | some b => exact .some (Ran.sameButPlaces_of_unplaced (Option.some.inj h))

/-! ## §2. Programs. -/

namespace Image

variable {i j : Image} {c d : Chain}

/-- Chains that are equal up to spans evaluate to the same, in images that are. -/
theorem rel_evaluate (himage : j.unplaced = i.unplaced)
    (hchain : Chain.unplaced d = Chain.unplaced c) (fuel : Nat) (locals : Ref) :
    Option.Rel Ran.SameButPlaces (i.evaluate fuel c locals) (j.evaluate fuel d locals) := by
  refine rel_of_map_unplaced ?_
  rw [← evaluate_unplaced, ← evaluate_unplaced, himage, hchain]

theorem rel_runChain (himage : j.unplaced = i.unplaced)
    (hchain : Chain.unplaced d = Chain.unplaced c) (fuel : Nat) :
    Option.Rel Ran.SameButPlaces (i.runChain fuel (some c)) (j.runChain fuel (some d)) := by
  refine rel_of_map_unplaced ?_
  rw [← runChain_unplaced, ← runChain_unplaced, himage, hchain]

theorem unplaced_know (himage : j.unplaced = i.unplaced) (names : Interner) :
    { j with names := names }.unplaced = { i with names := names }.unplaced :=
  congrArg (fun k : Image => { k with names := names }) himage

theorem doString_of_parse {s : String} (h : (parse i.names s).result = .ok (some c)) (fuel : Nat) :
    i.doString fuel s
      = { i with names := (parse i.names s).names }.runChain fuel (some c) := by
  simp only [doString, runParsed, h]

/-- **The fixed layout keeps the meaning of a program.**  A program and its text do the same, up to
places, in two images that are the same up to places, whatever names a program can have left there.
More generally, chains that are the same and whose numbers have the same bits do. -/
theorem doString_toSource (texts : List String) (fuel : Nat) :
    (∀ (i j : Image) (s : String) (c : Chain), i.names = Interner.new.internAll texts →
      j.unplaced = i.unplaced → (parse i.names s).result = .ok (some c) →
      Option.Rel Ran.SameButPlaces (i.doString fuel s)
        (j.doString fuel (Chain.toSource (parse i.names s).names c)))
    ∧ ∀ (i j : Image) (c d : Chain) (locals : Ref), j.unplaced = i.unplaced →
      Chain.same c d = true → Chain.numbers c = Chain.numbers d →
      Option.Rel Ran.SameButPlaces (i.evaluate fuel c locals) (j.evaluate fuel d locals) := by
  refine ⟨fun i j s c hi himage hc => ?_, fun i j c d locals himage hsame hnumbers => ?_⟩
  · have hv : i.names.Valid := hi ▸ Interner.valid_internAll texts
    have hnames : j.names = i.names := by
      show j.unplaced.names = i.unplaced.names
      rw [himage]
    obtain ⟨d, hd, hafter, hplaced⟩ := parse_toSource hv hc
    rw [doString_of_parse hc]
    generalize Chain.toSource (parse i.names s).names c = text at *
    generalize (parse i.names s).names = final at *
    rw [← hnames] at hd hafter
    rw [doString_of_parse hd, hafter]
    exact rel_runChain (unplaced_know himage final) hplaced fuel
  · exact rel_evaluate himage (Chain.unplaced_eq_of_same hsame hnumbers).symm fuel locals

/-- A program that writes the message that it was sent with, in a layout of its own. -/
def unevenProgram : String :=
  "setSlot( \"m\" ,method( x,call message ) ) ;;\tm(1.50 ,[ ])print"

theorem doString_toSource_unevenProgram :
    ∃ c, (parse (Image.new {}).names unevenProgram).result = .ok (some c)
      ∧ Chain.toSource (parse (Image.new {}).names unevenProgram).names c
        = "setSlot(\"m\", method(x, call message)) ; m(1.5, []) print"
      ∧ Chain.same c (Chain.unplaced c) = true
      ∧ (∀ fuel, Option.Rel Ran.SameButPlaces ((Image.new {}).doString fuel unevenProgram)
        ((Image.new {}).doString fuel "setSlot(\"m\", method(x, call message)) ; m(1.5, []) print"))
      ∧ ∀ fuel, Option.Rel Ran.SameButPlaces
        ((Image.new {}).evaluate fuel c Builtin.lobby.ref)
        ((Image.new {}).evaluate fuel (Chain.unplaced c) Builtin.lobby.ref) := by
  let texts := "self" :: "call" :: "forward"
    :: (Builtin.all.map Builtin.name ++ Native.all.map Native.name)
  have hnames : (Image.new {}).names = Interner.new.internAll texts := by
    have htable : (Image.new {}).names.toInternTable
        = (Interner.new.internAll texts).toInternTable := by
      decide +kernel
    exact Interner.toInternTable_inj htable
  have hcheck : ((parse (Image.new {}).names unevenProgram).result.toOption.join.any fun c =>
      Chain.same c (Chain.unplaced c) && Chain.numbers c == Chain.numbers (Chain.unplaced c)
        && Chain.toSource (parse (Image.new {}).names unevenProgram).names c
          == "setSlot(\"m\", method(x, call message)) ; m(1.5, []) print") = true := by
    decide +kernel
  obtain ⟨c, hresult, hcheck⟩ := (Option.any_eq_true ..).mp hcheck
  have hc := Parsed.result_eq hresult
  simp only [Bool.and_eq_true, beq_iff_eq] at hcheck
  obtain ⟨⟨hsame, hnumbers⟩, hsource⟩ := hcheck
  refine ⟨c, hc, hsource, hsame, fun fuel => ?_, fun fuel => ?_⟩
  · rw [← hsource]
    exact (doString_toSource texts fuel).1 _ _ _ c hnames rfl hc
  · exact (doString_toSource texts fuel).2 _ _ c _ _ rfl hsame hnumbers

end Image

end Prototalk
