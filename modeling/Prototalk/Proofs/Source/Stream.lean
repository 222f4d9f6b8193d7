/-
  Prototalk.Proofs.Source.Stream
  ────────────────────────────────
  **READING BYTES AS TEXT.**

  `Reader.Delivers r bytes` says which bytes a buffered reader hands out
  before its input ends.  A source over the reader takes them one after the
  other (`readByte_cons`), wherever the buffer had to be filled and however
  often a read was interrupted.  So it reads the characters of the longest
  part of the bytes that is UTF-8, and then finds the end of the input or an
  error where that part ends (`nextChars_eq`).

  Bytes that are UTF-8 throughout are read as the text they encode, so they
  have its tokens, its chain and its run (`ofReader_agrees`).
-/
import Mathlib.Data.List.TakeDrop
import Prototalk.Evaluation.Program
import Prototalk.Proofs.Source.Utf8
import Prototalk.Proofs.Token.Handoff
import Prototalk.Proofs.Token.Interruption

namespace Prototalk

/-! ## §1. The bytes of a reader and the text in them. -/

/-- The bytes that a reader hands out up to the end of its input. -/
inductive Reader.Delivers : Reader → List UInt8 → Prop where
  /-- Nothing is left. -/
  | ended : Delivers ⟨[], []⟩ []
  /-- Nothing came, which is the end of the input, whatever would come later. -/
  | empty {coming : List StreamEvent} : Delivers ⟨[], .bytes [] :: coming⟩ []
  /-- An interrupted read is repeated. -/
  | interrupted {coming : List StreamEvent} {bytes : List UInt8} (h : Delivers ⟨[], coming⟩ bytes) :
      Delivers ⟨[], .interrupted :: coming⟩ bytes
  /-- Bytes come into the buffer. -/
  | filled {b : UInt8} {chunk bytes : List UInt8} {coming : List StreamEvent}
      (h : Delivers ⟨b :: chunk, coming⟩ bytes) : Delivers ⟨[], .bytes (b :: chunk) :: coming⟩ bytes
  /-- The first byte in the buffer is handed out. -/
  | byte {b : UInt8} {buffer bytes : List UInt8} {coming : List StreamEvent}
      (h : Delivers ⟨buffer, coming⟩ bytes) : Delivers ⟨b :: buffer, coming⟩ (b :: bytes)

/-- The bytes of one event. -/
def StreamEvent.delivered : StreamEvent → List UInt8
  | .bytes chunk => chunk
  | .interrupted => []
  | .failed _ => []

/-- Whatever is in the buffer is handed out first. -/
theorem Reader.Delivers.append {coming : List StreamEvent} {bytes : List UInt8}
    (h : Delivers ⟨[], coming⟩ bytes) (buffer : List UInt8) :
    Delivers ⟨buffer, coming⟩ (buffer ++ bytes) := by
  induction buffer with
  | nil => exact h
  | cons b buffer ih => exact .byte ih

/-- Chunks of any size, with interruptions anywhere between them. -/
theorem Reader.delivers_chunks {events : List StreamEvent}
    (hfailed : ∀ reason, .failed reason ∉ events) (hempty : .bytes [] ∉ events) :
    Delivers ⟨[], events⟩ (events.flatMap StreamEvent.delivered) := by
  induction events with
  | nil => exact .ended
  | cons e events ih =>
    have hrest := ih (fun reason hmem => hfailed reason (List.mem_cons_of_mem _ hmem))
      (fun hmem => hempty (List.mem_cons_of_mem _ hmem))
    cases e with
    | bytes chunk =>
      cases chunk with
      | nil => exact absurd List.mem_cons_self hempty
      | cons b chunk => exact .filled (hrest.append (b :: chunk))
    | interrupted => exact .interrupted hrest
    | failed reason => exact absurd List.mem_cons_self (hfailed reason)

namespace Utf8

/-- The UTF-8 encoding of a text. -/
def encode (text : List Char) : List UInt8 := text.flatMap String.utf8EncodeChar

/-- `text` is what the longest prefix of the bytes that is UTF-8 encodes. -/
structure Longest (bytes : List UInt8) (text : List Char) : Prop where
  /-- Its encoding is a prefix, -/
  encoded : encode text <+: bytes
  /-- and every other encoding that is one is a part of it. -/
  longest : ∀ text', encode text' <+: bytes → text' <+: text

@[simp] theorem encode_nil : encode [] = [] := rfl

@[simp] theorem encode_cons (c : Char) (text : List Char) :
    encode (c :: text) = String.utf8EncodeChar c ++ encode text := rfl

theorem utf8EncodeChar_ne_nil (c : Char) : String.utf8EncodeChar c ≠ [] := by
  rw [utf8EncodeChar_eq]
  repeat' split
  all_goals exact List.cons_ne_nil _ _

/-- The bytes of a string are the encoding of its characters. -/
theorem toUTF8_toList (s : String) : s.toUTF8.data.toList = encode s.toList := by
  have h : (String.ofList s.toList).toByteArray = s.toList.utf8Encode := String.toByteArray_ofList
  rw [String.ofList_toList] at h
  rw [String.toUTF8_eq_toByteArray, h, List.utf8Encode, List.data_toByteArray]
  rfl

end Utf8

/-! ## §2. One byte after another. -/

namespace ReaderSource

open Utf8

variable {r : Reader} {n : Nat} {b : UInt8} {bytes rest : List UInt8} {c : Char} {text : List Char}

theorem readByte_cons (h : r.Delivers (b :: bytes)) (o : Nat) :
    ∃ r', readByte ⟨r, o⟩ = (.ok (some b), ⟨r', o + 1⟩) ∧ r'.Delivers bytes := by
  generalize hall : b :: bytes = all at h
  induction h with
  | ended => cases hall
  | empty => cases hall
  | interrupted _ ih =>
    obtain ⟨r', hread, hr'⟩ := ih hall
    refine ⟨r', ?_, hr'⟩
    rw [readByte]
    exact hread
  | filled h =>
    cases h with
    | byte h =>
      cases hall
      refine ⟨_, ?_, h⟩
      rw [readByte]
      rfl
  | byte h =>
    cases hall
    refine ⟨_, ?_, h⟩
    rw [readByte]
    rfl

theorem readByte_nil (h : r.Delivers []) (o : Nat) : ∃ s, readByte ⟨r, o⟩ = (.ok none, s) := by
  generalize hall : ([] : List UInt8) = all at h
  induction h with
  | ended =>
    refine ⟨⟨⟨[], []⟩, o⟩, ?_⟩
    rw [readByte]
    rfl
  | @empty coming =>
    refine ⟨⟨⟨[], coming⟩, o⟩, ?_⟩
    rw [readByte]
    rfl
  | interrupted _ ih =>
    obtain ⟨s, hread⟩ := ih hall
    refine ⟨s, ?_⟩
    rw [readByte]
    exact hread
  | filled h =>
    cases h with
    | byte => cases hall
  | byte => cases hall

theorem continuation_of_le (h : r.Delivers bytes) (hn : n ≤ bytes.length) (start : Nat)
    (taken : List UInt8) (o : Nat) :
    ∃ r', continuation start n taken ⟨r, o⟩ = (.ok (taken.reverse ++ bytes.take n), ⟨r', o + n⟩)
      ∧ r'.Delivers (bytes.drop n) := by
  induction n generalizing taken o bytes r with
  | zero => exact ⟨r, by simp [continuation], h⟩
  | succ n ih =>
    cases bytes with
    | nil => simp at hn
    | cons b bytes =>
      obtain ⟨r₁, hread, hr₁⟩ := readByte_cons h o
      obtain ⟨r₂, hmore, hr₂⟩ := ih hr₁ (by simpa using hn) (b :: taken) (o + 1)
      refine ⟨r₂, ?_, hr₂⟩
      rw [continuation, hread]
      simp only [hmore, List.reverse_cons, List.append_assoc, List.singleton_append,
        List.take_succ_cons, Nat.add_assoc, Nat.add_comm 1 n]

theorem continuation_of_lt (h : r.Delivers bytes) (hn : bytes.length < n) (start : Nat)
    (taken : List UInt8) (o : Nat) :
    ∃ s, continuation start n taken ⟨r, o⟩ = (.error (.invalidUtf8 start), s) := by
  induction n generalizing taken o bytes r with
  | zero => simp at hn
  | succ n ih =>
    cases bytes with
    | nil =>
      obtain ⟨s, hread⟩ := readByte_nil h o
      exact ⟨s, by rw [continuation, hread]⟩
    | cons b bytes =>
      obtain ⟨r₁, hread, hr₁⟩ := readByte_cons h o
      obtain ⟨s, hmore⟩ := ih hr₁ (by simpa using hn) (b :: taken) (o + 1)
      exact ⟨s, by rw [continuation, hread]; exact hmore⟩

/-! ## §3. One character after another. -/

/-- A character that is encoded here is read. -/
theorem nextChar_of_encoded (h : r.Delivers (String.utf8EncodeChar c ++ rest)) (o : Nat) :
    ∃ r', nextChar ⟨r, o⟩ = (.char c, ⟨r', o + (String.utf8EncodeChar c).length⟩)
      ∧ r'.Delivers rest := by
  cases hc : String.utf8EncodeChar c with
  | nil => exact absurd hc (utf8EncodeChar_ne_nil c)
  | cons lead more =>
    rw [hc, List.cons_append] at h
    obtain ⟨hwidth, hscalar⟩ := width?_scalar?_iff.mpr hc.symm
    obtain ⟨r₁, hread, hr₁⟩ := readByte_cons h o
    obtain ⟨r₂, htail, hr₂⟩ :=
      continuation_of_le hr₁ (by simp : more.length ≤ (more ++ rest).length) o [lead] (o + 1)
    rw [List.take_left, List.reverse_singleton, List.singleton_append] at htail
    rw [List.drop_left] at hr₂
    refine ⟨r₂, ?_, hr₂⟩
    simp only [nextChar, hread, hwidth, List.length_cons, Nat.add_sub_cancel, htail, hscalar,
      Nat.add_assoc, Nat.add_comm 1]

/-- Where bytes encode no character there is an error. -/
theorem nextChar_of_not_encoded (h : r.Delivers bytes) (hne : bytes ≠ [])
    (hnot : ∀ c rest, bytes ≠ String.utf8EncodeChar c ++ rest) (o : Nat) :
    ∃ s, nextChar ⟨r, o⟩ = (.failed (.invalidUtf8 o), s) := by
  cases bytes with
  | nil => exact absurd rfl hne
  | cons lead bytes =>
    obtain ⟨r₁, hread, hr₁⟩ := readByte_cons h o
    cases hwidth : width? lead with
    | none => exact ⟨⟨r₁, o + 1⟩, by simp only [nextChar, hread, hwidth]⟩
    | some n =>
      have hn : 1 ≤ n := by
        rw [width?_eq_some_iff] at hwidth
        omega
      rcases Nat.lt_or_ge bytes.length (n - 1) with hshort | hlong
      · obtain ⟨s, htail⟩ := continuation_of_lt hr₁ hshort o [lead] (o + 1)
        exact ⟨s, by simp only [nextChar, hread, hwidth, htail]⟩
      · obtain ⟨r₂, htail, -⟩ := continuation_of_le hr₁ hlong o [lead] (o + 1)
        rw [List.reverse_singleton, List.singleton_append] at htail
        cases hscalar : scalar? (lead :: bytes.take (n - 1)) with
        | none =>
          exact ⟨⟨r₂, o + 1 + (n - 1)⟩, by simp only [nextChar, hread, hwidth, htail, hscalar]⟩
        | some c =>
          -- bytes that pass are the encoding of a character
          have hlength : n = (lead :: bytes.take (n - 1)).length := by
            rw [List.length_cons, List.length_take]
            omega
          have hencoded := width?_scalar?_iff.mp ⟨hlength ▸ hwidth, hscalar⟩
          refine absurd ?_ (hnot c (bytes.drop (n - 1)))
          rw [← hencoded, List.cons_append, List.take_append_drop]

theorem nextChar_nil (h : r.Delivers []) (o : Nat) : ∃ s, nextChar ⟨r, o⟩ = (.endOfInput, s) := by
  obtain ⟨s, hread⟩ := readByte_nil h o
  exact ⟨s, by simp only [nextChar, hread]⟩

/-- Two encoded characters at one place are the same. -/
theorem encoded_unique {c' : Char} {rest' : List UInt8}
    (h : String.utf8EncodeChar c ++ rest = String.utf8EncodeChar c' ++ rest') :
    c = c' ∧ rest = rest' := by
  -- a reader of these bytes answers with the one character and with the other
  have hbytes := Reader.Delivers.ended.append (String.utf8EncodeChar c ++ rest)
  rw [List.append_nil] at hbytes
  obtain ⟨_, hfirst, -⟩ := nextChar_of_encoded hbytes 0
  obtain ⟨_, hsecond, -⟩ := nextChar_of_encoded (h ▸ hbytes) 0
  rw [← h, hfirst] at hsecond
  obtain rfl : c = c' := by
    injection (Prod.mk.inj hsecond).1
  exact ⟨rfl, List.append_cancel_left h⟩

theorem longest_cons (h : Longest rest text) :
    Longest (String.utf8EncodeChar c ++ rest) (c :: text) where
  encoded := by
    rw [encode_cons]
    exact (List.prefix_append_right_inj _).mpr h.encoded
  longest := by
    intro text' htext'
    cases text' with
    | nil => exact List.nil_prefix
    | cons c' text' =>
      obtain ⟨more, hmore⟩ := htext'
      rw [encode_cons, List.append_assoc] at hmore
      obtain ⟨rfl, hrest⟩ := encoded_unique hmore
      exact List.cons_prefix_cons.mpr ⟨rfl, h.longest text' ⟨more, hrest⟩⟩

theorem longest_nil (hnot : ∀ c rest, bytes ≠ String.utf8EncodeChar c ++ rest) :
    Longest bytes [] where
  encoded := List.nil_prefix
  longest := by
    intro text' htext'
    cases text' with
    | nil => exact List.nil_prefix
    | cons c' text' =>
      obtain ⟨more, hmore⟩ := htext'
      rw [encode_cons, List.append_assoc] at hmore
      exact absurd hmore.symm (hnot c' _)

/-- **The longest prefix that is UTF-8 is read**, and behind it the end of the input or an error. -/
theorem nextChars_eq (h : r.Delivers bytes) (o : Nat) : ∃ text, Longest bytes text
    ∧ nextChars (text.length + 1) ⟨r, o⟩ = text.map Read.char
      ++ [if encode text = bytes then .endOfInput
        else .failed (.invalidUtf8 (o + (encode text).length))] := by
  -- a character takes several bytes at once, so the induction is on how many are left
  induction hlength : bytes.length using Nat.strongRecOn generalizing bytes r o with
  | ind n ih =>
    by_cases hfirst : ∃ c rest, bytes = String.utf8EncodeChar c ++ rest
    · obtain ⟨c, rest, rfl⟩ := hfirst
      have hlt : rest.length < n := by
        have := List.length_pos_iff.mpr (utf8EncodeChar_ne_nil c)
        rw [← hlength, List.length_append]
        omega
      obtain ⟨r', hread, hr'⟩ := nextChar_of_encoded h o
      obtain ⟨text, hlongest, hreading⟩ := ih _ hlt hr' (o + (String.utf8EncodeChar c).length) rfl
      refine ⟨c :: text, longest_cons hlongest, ?_⟩
      rw [List.length_cons, nextChars, hread]
      simp only [hreading, List.map_cons, List.cons_append, encode_cons, List.length_append,
        Nat.add_assoc, List.append_cancel_left_eq]
    · have hnot : ∀ c rest, bytes ≠ String.utf8EncodeChar c ++ rest :=
        fun c rest heq => hfirst ⟨c, rest, heq⟩
      refine ⟨[], longest_nil hnot, ?_⟩
      by_cases hne : bytes = []
      · subst hne
        obtain ⟨s, hread⟩ := nextChar_nil h o
        rw [List.length_nil, nextChars, hread]
        rfl
      · obtain ⟨s, hread⟩ := nextChar_of_not_encoded h hne hnot o
        rw [List.length_nil, nextChars, hread, encode_nil, if_neg (Ne.symm hne)]
        rfl

/-! ## §4. Readers as sources. -/

theorem nextChar_of_isSpent {s : ReaderSource} (h : s.inner.isSpent = true) :
    s.nextChar = (.endOfInput, s) := by
  obtain ⟨⟨buffer, coming⟩, o⟩ := s
  simp only [Reader.isSpent, Bool.and_eq_true, List.isEmpty_iff] at h
  obtain ⟨rfl, rfl⟩ := h
  have hread : readByte ⟨⟨[], []⟩, o⟩ = (.ok none, ⟨⟨[], []⟩, o⟩) := by
    rw [readByte]
    rfl
  simp only [nextChar, hread]

theorem nextChars_of_isSpent {s : ReaderSource} (h : s.inner.isSpent = true) (n : Nat) :
    nextChars n s = List.replicate n .endOfInput := by
  induction n with
  | zero => rfl
  | succ n ih =>
    rw [nextChars, nextChar_of_isSpent h, List.replicate_succ]
    exact congrArg (.endOfInput :: ·) ih

theorem answers_eq_append (s : ReaderSource) (given : List Read) :
    s.answers given = given.reverse ++ s.answers [] := by
  induction hleft : s.inner.remaining using Nat.strongRecOn generalizing s given with
  | ind n ih =>
    rw [answers, answers]
    cases hnext : s.nextChar with
    | mk answer s' =>
      dsimp only
      split
      · simp
      · rename_i hlast
        have hlt := (remaining_nextChar hnext).resolve_right hlast
        rw [ih _ (hleft ▸ hlt) s' (answer :: given) rfl, ih _ (hleft ▸ hlt) s' [answer] rfl]
        simp

/-- **The list of answers is what reading over and over gives.** -/
theorem takeD_answers (n : Nat) (s : ReaderSource) :
    (s.answers []).takeD n .endOfInput = nextChars n s := by
  induction n generalizing s with
  | zero => rfl
  | succ n ih =>
    rw [answers, nextChars]
    cases hnext : s.nextChar with
    | mk answer s' =>
      dsimp only
      split
      · rename_i hlast
        rw [nextChars_of_isSpent hlast.2, hlast.1, List.reverse_nil, List.takeD_nil,
          List.replicate_succ]
      · rw [answers_eq_append, List.reverse_singleton, List.singleton_append]
        exact congrArg (answer :: ·) (ih s')

end ReaderSource

namespace Source

variable {r : Reader} {text : List Char}

/-- Only the end of the input can follow a text that ends. -/
theorem eq_or_stops {source : Source}
    (h : source.takeD (text.length + 1) .endOfInput = text.map Read.char ++ [.endOfInput]) :
    source = ofChars text ∨ ∃ later, source = ofChars text ++ .endOfInput :: later := by
  induction text generalizing source with
  | nil =>
    cases source with
    | nil => exact .inl rfl
    | cons answer later =>
      obtain rfl : answer = .endOfInput := (List.cons.inj h).1
      exact .inr ⟨later, rfl⟩
  | cons c text ih =>
    cases source with
    | nil => cases (List.cons.inj h).1
    | cons answer source =>
      obtain ⟨rfl, htail⟩ := List.cons.inj h
      rcases ih htail with rfl | ⟨later, rfl⟩
      · exact .inl rfl
      · exact .inr ⟨later, rfl⟩

/-- The bytes of a text are read as the text, up to the end of the input. -/
theorem ofReader_of_encoded (h : r.Delivers (Utf8.encode text)) :
    ofReader r = ofChars text ∨ ∃ later, ofReader r = ofChars text ++ .endOfInput :: later := by
  obtain ⟨text', ⟨⟨more, hmore⟩, hlongest⟩, hreading⟩ := ReaderSource.nextChars_eq h 0
  -- nothing is longer than the whole text
  obtain ⟨extra, rfl⟩ := hlongest text List.prefix_rfl
  have hextra : extra = [] := by
    cases extra with
    | nil => rfl
    | cons c extra =>
      have hlength := congrArg List.length hmore
      have hpos := List.length_pos_iff.mpr (Utf8.utf8EncodeChar_ne_nil c)
      simp only [Utf8.encode, List.flatMap_append, List.flatMap_cons, List.length_append] at hlength
      omega
  rw [hextra, List.append_nil, if_pos rfl, ← ReaderSource.takeD_answers] at hreading
  exact eq_or_stops hreading

/-- What would be answered behind the end of the input makes no difference to the tokens. -/
theorem tokens_ofReader (h : r.Delivers (Utf8.encode text)) :
    (ofReader r).tokens = (ofChars text).tokens := by
  rcases ofReader_of_encoded h with heq | ⟨later, heq⟩
  · rw [heq]
  · have hstop : Read.endOfInput.isStop = true := rfl
    have hends := interrupted_tokens text hstop later
    rw [← heq] at hends
    generalize (ofChars text).tokens = tokens, (ofReader r).tokens = read at hends ⊢
    cases hends with
    | ended => rfl
    | shielded => rfl
    | added hfault => cases hfault
    | displaced hfault => cases hfault

/-- **Byte streams and strings agree.**  Over a reader that does not fail, one read after another
answers with the characters of the longest prefix of its bytes that is UTF-8, and then with the end
of the input, or with an error where the prefix ends.  If its bytes are those of a string, it has
the tokens of the string, is parsed and runs as the string does. -/
theorem ofReader_agrees (r : Reader) (bytes : List UInt8) (h : r.Delivers bytes) :
    (∃ text, Utf8.Longest bytes text ∧ ReaderSource.nextChars (text.length + 1) ⟨r, 0⟩
      = text.map Read.char ++ [if Utf8.encode text = bytes then .endOfInput
        else .failed (.invalidUtf8 (Utf8.encode text).length)])
    ∧ ∀ s : String, bytes = s.toUTF8.data.toList →
      (∀ mode, (ofReader r).tokensBy mode = tokenize s)
        ∧ (∀ names mode, parseSource names mode (ofReader r) = parse names s)
        ∧ ∀ (image : Image) fuel, image.doSource fuel (ofReader r) = image.doString fuel s := by
  constructor
  · simpa only [Nat.zero_add] using ReaderSource.nextChars_eq h 0
  · rintro s rfl
    rw [Utf8.toUTF8_toList] at h
    have htokens : ∀ mode, (ofReader r).tokensBy mode = tokenize s := by
      intro mode
      rw [tokensBy_eq, tokens_ofReader h]
      rfl
    have hparse : ∀ names mode, parseSource names mode (ofReader r) = parse names s := by
      intro names mode
      rw [parse, parseSource, parseSource, htokens, tokensBy_eq]
      rfl
    refine ⟨htokens, hparse, fun image fuel => ?_⟩
    rw [Image.doSource, Image.doString, hparse]

/-- A character whose bytes come in two chunks, with an interruption between them. -/
theorem ofReader_agrees_split :
    let r : Reader := ⟨[], [.bytes [0x61, 0xc3], .interrupted, .bytes [0xa9]]⟩
    r.Delivers [0x61, 0xc3, 0xa9] ∧ [0x61, 0xc3, 0xa9] = "aé".toUTF8.data.toList
      ∧ ∀ mode, (ofReader r).tokensBy mode = tokenize "aé" :=
  have h : Reader.Delivers ⟨[], [.bytes [0x61, 0xc3], .interrupted, .bytes [0xa9]]⟩
      [0x61, 0xc3, 0xa9] :=
    Reader.delivers_chunks (by simp) (by simp)
  ⟨h, by decide, ((ofReader_agrees _ _ h).2 "aé" (by decide)).1⟩

end Source

end Prototalk
