import Comp30023.Interface.DecimalText
import Comp30023.Interface.ReceiveMessage
import Comp30023.Interface.Transcript
import Comp30023.Model.Client

/-!
# Messages on both sides of the connection

What `send_gp_message` composes, the client finds by the header, as long as a payload comes
with the types of message that have one, fits into the buffer and has no zero in it. All
messages of a session are like that.
-/

set_option autoImplicit false

namespace Comp30023.Interface

open Comp30023.Library Comp30023.Model

/-- The buffer with a message in it. -/
def encodeGpMessage (message : GpMessage) : List UInt8 := composeGpMessage message.1 message.2

/-- What the client makes of the message in its buffer: its type, and its payload if it is of
a type whose payload is printed; `none` when no header fits.
SOURCE: client.c:86-122 -/
def decodeGpMessage (buffer : List UInt8) : Option GpMessage :=
  (headerType buffer).map fun msgType =>
    (msgType, if msgType = .dispMsg ∨ msgType = .guessFbk then
      some (cString (buffer.drop gpHeaderSize)) else none)

/-- A text of at most so many bytes, none of them zero. -/
def IsText (n : ℕ) (bytes : List UInt8) : Prop := 0 ∉ bytes ∧ bytes.length ≤ n

instance decidableIsText (n : ℕ) (bytes : List UInt8) : Decidable (IsText n bytes) :=
  inferInstanceAs (Decidable (_ ∧ _))

theorem IsText.append {m n : ℕ} {bytes bytes' : List UInt8} (h : IsText m bytes)
    (h' : IsText n bytes') : IsText (m + n) (bytes ++ bytes') := by
  refine ⟨?_, ?_⟩
  · rw [List.mem_append, not_or]
    exact ⟨h.1, h'.1⟩
  · rw [List.length_append]
    exact Nat.add_le_add h.2 h'.2

/-- The longest payload that leaves room for a terminator. -/
def maxPayload : ℕ := gpSize - gpHeaderSize - 1

/-- The payload is there if and only if the type has one, and is a text that fits. -/
def WellFormed (message : GpMessage) : Prop :=
  if message.1 = .dispMsg ∨ message.1 = .guessFbk then
    ∃ text, message.2 = some text ∧ IsText maxPayload text
  else message.2 = none

/-- INTERNAL: the headers, byte by byte. -/
theorem length_header (msgType : GpMessageType) : msgType.header.length = gpHeaderSize := by
  cases msgType <;> decide

/-- INTERNAL: a text and the zeros behind it. -/
theorem composeGpMessage_eq (msgType : GpMessageType) (msgPayload : Option (List UInt8)) :
    composeGpMessage msgType msgPayload = gpMessageText msgType msgPayload ++
      List.replicate (gpSize - (gpMessageText msgType msgPayload).length) 0 := by
  simp [composeGpMessage, store]

/-- INTERNAL: the text of a message ends at the first zero. -/
theorem cString_append_zeros {text : List UInt8} (h : 0 ∉ text) (n : ℕ) :
    cString (text ++ List.replicate n 0) = text := by
  have htext : ∀ c ∈ text, decide (c ≠ 0) = true := by
    intro c hc
    simp only [decide_eq_true_eq]
    rintro rfl
    exact h hc
  unfold cString
  rw [List.takeWhile_append_of_pos htext]
  cases n <;> simp [List.replicate_succ]

/-- INTERNAL: the client finds the type by the header, whatever comes after it.
SOURCE: client.c:86-118 -/
theorem headerType_header (msgType : GpMessageType) (rest : List UInt8) :
    headerType (msgType.header ++ rest) = some msgType := by
  cases msgType <;> rfl

/-- INTERNAL: the text of a message that is well formed. -/
theorem WellFormed.text {message : GpMessage} (h : WellFormed message) :
    ∃ text, gpMessageText message.1 message.2 = message.1.header ++ text ∧
      IsText maxPayload text ∧ message.2 = if message.1 = .dispMsg ∨ message.1 = .guessFbk then some text else none := by
  obtain ⟨msgType, msgPayload⟩ := message
  unfold WellFormed at h
  split_ifs at h with htype
  · obtain ⟨text, rfl, htext⟩ := h
    refine ⟨text, ?_, htext, by rw [if_pos htype]⟩
    simp only [gpMessageText]
    rw [if_neg]
    rintro ⟨hdisp, hfbk⟩
    exact htype.elim hdisp hfbk
  · simp only at h htype
    subst h
    exact ⟨[], by simp [gpMessageText], by decide, by rw [if_neg htype]⟩

/-- The client decodes what the server has encoded.
SOURCE: server.c:200-212, client.c:86-122 -/
theorem decode_encode {message : GpMessage} (h : WellFormed message) :
    decodeGpMessage (encodeGpMessage message) = some message ∧
      (encodeGpMessage message).length = gpSize := by
  obtain ⟨text, htext, ⟨hzero, hlength⟩, hpayload⟩ := h.text
  have hheader := length_header message.1
  have hencode : encodeGpMessage message =
      message.1.header ++ (text ++ List.replicate (gpSize - (gpHeaderSize + text.length)) 0) := by
    unfold encodeGpMessage
    rw [composeGpMessage_eq, htext, List.append_assoc, List.length_append, hheader]
  rw [hencode]
  constructor
  · unfold decodeGpMessage
    rw [headerType_header, List.drop_left' hheader, cString_append_zeros hzero]
    obtain ⟨msgType, msgPayload⟩ := message
    simp only [Option.map_some, Option.some.injEq, Prod.mk.injEq, true_and]
    exact hpayload.symm
  · have hroom : gpHeaderSize + maxPayload ≤ gpSize := by decide
    simp only [List.length_append, List.length_replicate, hheader]
    omega

/-- INTERNAL: the payload of a message ends within the buffer.
SOURCE: server.c:200-212 -/
theorem ends_encode {message : GpMessage} (h : WellFormed message) :
    0 ∈ (encodeGpMessage message).drop gpHeaderSize := by
  obtain ⟨text, htext, ⟨-, hlength⟩, -⟩ := h.text
  have hheader := length_header message.1
  have hroom : gpHeaderSize + maxPayload < gpSize := by decide
  have hzeros : gpSize - (gpHeaderSize + text.length) ≠ 0 := by omega
  unfold encodeGpMessage
  rw [composeGpMessage_eq, htext, List.append_assoc, List.length_append, hheader,
    List.drop_left' hheader]
  exact List.mem_append_right _ (List.mem_replicate.mpr ⟨hzeros, rfl⟩)

/-! ## Guesses -/

/-- The text in the buffer has an end or a line break in it. -/
def HasLineEnd (buffer : List UInt8) : Prop := ∃ c ∈ buffer, c = 0 ∨ c ∈ ascii "\r\n"

/-- INTERNAL: `strcspn` stays within the buffer exactly if there is such an end.
SOURCE: client.c:94, 101 -/
theorem strcspn_lt_iff (buffer : List UInt8) :
    strcspn buffer (ascii "\r\n") < buffer.length ↔ HasLineEnd buffer := by
  have hle := (List.takeWhile_prefix (l := cString buffer) (· ∉ ascii "\r\n")).length_le.trans
    (List.takeWhile_prefix (l := buffer) (· ≠ 0)).length_le
  rw [← not_iff_not, Nat.not_lt]
  have hwhole : buffer.length ≤ strcspn buffer (ascii "\r\n") ↔
      (buffer.takeWhile (· ≠ 0)).takeWhile (· ∉ ascii "\r\n") = buffer := by
    constructor
    · intro h
      exact ((List.takeWhile_prefix _).trans (List.takeWhile_prefix _)).eq_of_length
        (Nat.le_antisymm hle h)
    · intro h
      exact (congrArg List.length h).ge
  rw [hwhole, List.takeWhile_takeWhile, List.takeWhile_eq_self_iff]
  simp only [HasLineEnd, not_exists, not_and, not_or, decide_eq_true_eq, and_comm]

/-- INTERNAL: the buffer with a line in it, whatever it held.
SOURCE: client.c:93-94, 100-101 -/
theorem readGuess_ok (stdin : List UInt8) {buffer : List UInt8} (hbuffer : buffer.length = gpSize)
    (h : stdin ≠ [] ∨ HasLineEnd buffer) :
    ∃ guess, guess.length = gpSize ∧
      readGuess stdin buffer = .ok (guess, ((fgets gpSize stdin).map Prod.snd).getD stdin) := by
  have hcut : ∀ b : List UInt8, HasLineEnd b → b.length = gpSize →
      ∃ guess, guess.length = gpSize ∧ cutLineBreak b = .ok guess := by
    intro b hb hlength
    exact ⟨_, List.length_set.trans hlength, if_pos ((strcspn_lt_iff b).mpr hb)⟩
  cases hfgets : fgets gpSize stdin with
  | none =>
    have hnil : stdin = [] := by
      unfold fgets at hfgets
      split at hfgets
      case isTrue hnil => exact hnil
      case isFalse => cases hfgets
    obtain ⟨guess, hlength, hok⟩ := hcut buffer (h.resolve_left fun hne => hne hnil) hbuffer
    refine ⟨guess, hlength, ?_⟩
    simp only [readGuess, hfgets, hok, bind, Except.bind]
    rfl
  | some read =>
    obtain ⟨line, rest⟩ := read
    have hline : line.length ≤ gpSize - 1 := by
      unfold fgets at hfgets
      split at hfgets
      · cases hfgets
      · have hfirst := congrArg Prod.fst (Option.some.inj hfgets)
        dsimp only at hfirst
        rw [← hfirst]
        exact length_takeLine_le _ _ _
    have hroom : 0 < gpSize := by decide
    have hstored : (store buffer 0 (line ++ [0])).length = gpSize := by
      rw [length_store, hbuffer]
      rw [List.length_append, List.length_singleton]
      omega
    obtain ⟨guess, hlength, hok⟩ := hcut (store buffer 0 (line ++ [0]))
      ⟨0, by simp [store], Or.inl rfl⟩ hstored
    refine ⟨guess, hlength, ?_⟩
    simp only [readGuess, hfgets, hok, bind, Except.bind]
    rfl

/-- INTERNAL: behind the end of standard input the message itself is taken for the line.
SOURCE: client.c:93-94, 100-101 -/
theorem readGuess_error {buffer : List UInt8} (h : ¬ HasLineEnd buffer) :
    readGuess [] buffer = .error .indexOutOfRange := by
  have hcut : cutLineBreak buffer = .error .indexOutOfRange :=
    if_neg (mt (strcspn_lt_iff buffer).mp h)
  simp only [readGuess, fgets, if_true, hcut, bind, Except.bind]

/-! ## The messages of a session -/

/-- INTERNAL: the digits of a number below one hundred. -/
theorem isText_toString {n : ℕ} (h : n < 100) : IsText 2 (ascii (toString n)) := by
  refine ⟨?_, length_ascii_toString (by decide) h⟩
  intro hzero
  exact absurd (isDigit_of_mem hzero) (by decide)

/-- The texts at the beginning of a session.
SOURCE: server.c:489-495 -/
theorem wellFormed_greeting {text : List UInt8} (h : text ∈ greetings) :
    WellFormed (.dispMsg, some text) := by
  have hwelcome : IsText 38 welcomeMessage := by decide +kernel
  have hfirst : IsText (76 + 77) instructions1Message := by
    unfold instructions1Message
    rw [ascii_append]
    refine IsText.append ?_ ?_
    all_goals decide +kernel
  have hsecond : IsText (78 + 34) instructions2Message := by
    unfold instructions2Message
    rw [ascii_append]
    refine IsText.append ?_ ?_
    all_goals decide +kernel
  refine ⟨text, rfl, ?_⟩
  rw [greetings, List.mem_cons, List.mem_cons, List.mem_singleton] at h
  rcases h with h | h | h
  · rw [h]
    exact ⟨hwelcome.1, hwelcome.2.trans (by decide)⟩
  · rw [h]
    exact ⟨hfirst.1, hfirst.2.trans (by decide)⟩
  · rw [h]
    exact ⟨hsecond.1, hsecond.2.trans (by decide)⟩

/-- The feedback on a guess.
SOURCE: server.c:571-577 -/
theorem wellFormed_feedback {n positions colors : ℕ} (hn : n < 100) (hpositions : positions < 100)
    (hcolors : colors < 100) :
    WellFormed (.guessFbk, some (feedbackMessage n positions colors)) := by
  refine ⟨_, rfl, ?_⟩
  have htext : IsText (7 + 2 + 22 + 2 + 2 + (17 + 2 + 2)) (feedbackMessage n positions colors) := by
    unfold feedbackMessage
    simp only [ascii_append]
    refine IsText.append (IsText.append (IsText.append (IsText.append (IsText.append ?_
      (isText_toString hn)) ?_) (isText_toString hpositions)) ?_)
      (IsText.append (IsText.append ?_ (isText_toString hcolors)) ?_)
    all_goals decide +kernel
  exact ⟨htext.1, htext.2.trans (by decide)⟩

/-- A message that has no payload. -/
theorem wellFormed_none {msgType : GpMessageType} (h : msgType ≠ .dispMsg ∧ msgType ≠ .guessFbk) :
    WellFormed (msgType, none) := by
  unfold WellFormed
  rw [if_neg (not_or.mpr h)]

end Comp30023.Interface
