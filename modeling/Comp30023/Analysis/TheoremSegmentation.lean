import Comp30023.Interface.MessageSession

/-!
# Segmentation of the stream of guesses

The client sends messages of `GP_SIZE` bytes; the server reads a stream of bytes, cut up as
the network pleases. The guesses a session scores, its replies and its verdict should only
depend on the messages. They do for the ways of cutting in which no message is spread over
more than `READ_ATTEMPTS_MAX_COUNT` reads, and for no other: `receive_message` gives up
after that many reads, `pthread_routine` does not look at its result, and what is left of
the message is taken for the beginning of the next one.
-/

set_option autoImplicit false

namespace Comp30023.Analysis

open Comp30023.Library Comp30023.Model Comp30023.Interface

/-- Whatever the `k` messages are, and whatever else the session gets from outside: cut into
chunks of these sizes, they are checked one after the other, all of them unless the session
ends before, and the session comes to the same stop, with the same trace, as when every
message arrives in one piece. -/
def SegmentationIndependent (k : ℕ) (sizes : List ℕ) : Prop :=
  ∀ (input : SessionInput) (frames chunks : List (List UInt8)), frames.length = k →
    (∀ frame ∈ frames, frame.length = gpSize) → chunks.map List.length = sizes →
    chunks.flatten = frames.flatten →
    ∃ stop, SessionStops { input with reads := chunks.map .data } stop ∧
      SessionStops { input with reads := frames.map .data } stop ∧
      checked stop.session.conn.trace <+: frames ∧
      ∀ s, stop = .waiting s → checked s.conn.trace = frames

/-! ## Few enough reads -/

/-- INTERNAL: the session on messages checks them one after the other. -/
theorem checked_messageSession (input : SessionInput) (frames : List (List UInt8)) :
    checked (messageSession input frames).session.conn.trace <+: frames ∧
      ∀ s, messageSession input frames = .waiting s → checked s.conn.trace = frames := by
  have hstart := checked_startSession input
  unfold messageSession
  cases hs : startSession input with
  | error s =>
    rw [hs] at hstart
    refine ⟨?_, fun t ht => by cases ht⟩
    show checked s.conn.trace <+: frames
    rw [show checked s.conn.trace = [] from hstart]
    exact List.nil_prefix
  | ok s =>
    rw [hs] at hstart
    obtain ⟨rest, heq, hwaiting⟩ := checked_playMessages frames s
    rw [show checked s.conn.trace = [] from hstart, List.nil_append] at heq
    refine ⟨⟨rest, heq.symm⟩, fun t ht => ?_⟩
    have hnil := hwaiting t ht
    have hplay : playMessages frames s = .waiting t := ht
    rw [hnil, List.append_nil, hplay] at heq
    exact heq.symm

/-- INTERNAL: messages that arrive in one piece each. -/
theorem spreadWithin_frames {frames : List (List UInt8)}
    (hframes : ∀ frame ∈ frames, frame.length = gpSize) :
    SpreadWithin gpSize readAttemptsMaxCount frames.length (frames.map List.length) := by
  have hsizes : frames.map List.length = List.replicate frames.length gpSize := by
    rw [List.eq_replicate_iff]
    refine ⟨List.length_map _, fun n hn => ?_⟩
    obtain ⟨frame, hframe, rfl⟩ := List.mem_map.mp hn
    exact hframes frame hframe
  rw [hsizes]
  exact spreadWithin_replicate (by decide) frames.length

/-- INTERNAL: the condition is enough. -/
theorem segmentationIndependent_of_spreadWithin {k : ℕ} {sizes : List ℕ}
    (hpos : ∀ n ∈ sizes, 0 < n) (hspread : SpreadWithin gpSize readAttemptsMaxCount k sizes) :
    SegmentationIndependent k sizes := by
  rintro input frames chunks rfl hframes rfl hflatten
  have hchunks : ∀ c ∈ chunks, c ≠ [] := fun c hc =>
    List.length_pos_iff.mp (hpos c.length (List.mem_map_of_mem hc))
  have hwhole : ∀ frame ∈ frames, frame ≠ [] := by
    intro frame hframe hnil
    have hlen := hframes frame hframe
    rw [hnil] at hlen
    cases hlen
  refine ⟨messageSession input frames, ?_, ?_, checked_messageSession input frames⟩
  · exact sessionStops_messageSession rfl hframes hchunks hflatten hspread
  · exact sessionStops_messageSession rfl hframes hwhole rfl (spreadWithin_frames hframes)

/-! ## Too many reads

Messages of one repeated letter that is no colour show it: none of them ends the game, and
a buffer that was not filled still ends in a zero of the last prompt. -/

/-- INTERNAL: what is in the buffer when `receive_message` stops short of a message ends in
a zero. -/
theorem getLast_of_exceeded {s : Session} (hs : Prompted s) {chunks : List (List UInt8)}
    (hspread : readAttemptsMaxCount < spread gpSize (chunks.map List.length)) :
    ∃ r, receiveMessage s.conn.buffer gpSize (chunks.map .data) = some r ∧
      r.buf.getLast? = some 0 := by
  have hexceeded : ∃ r, receiveMessage s.conn.buffer gpSize (chunks.map .data) = some r ∧
      r.rcvdMsgSize < gpSize := receiveLoop_exceeded (by decide) hspread
  obtain ⟨r, hr, hshort⟩ := hexceeded
  obtain ⟨bytes, -, hbuf, hlen, -⟩ := receiveMessage_consumes hr hs.length.ge
  refine ⟨r, hr, ?_⟩
  have hmissing : ¬ s.conn.buffer.length ≤ bytes.length := by
    rw [hs.length]
    omega
  rw [hbuf, List.getLast?_append, List.getLast?_drop, if_neg hmissing, hs.getLast]
  rfl

/-- INTERNAL: a session on messages of one letter that only checks buffers that end in it
reads each message in few enough reads. -/
theorem spreadWithin_of_uniform {z : UInt8} (hz : z ≠ 0)
    (hinvalid : isValidSecretCode (List.replicate gpSize z) = false) {k : ℕ} {s : Session}
    {chunks : List (List UInt8)} {stop : Stop} (hs : Prompted s) (hwrites : s.conn.writes = [])
    (hflatten : chunks.flatten = List.replicate (gpSize * k) z)
    (hstop : Faults guessPass (s, chunks.map .data) stop)
    (hchecked : ∀ buffer ∈ checked stop.session.conn.trace, buffer.getLast? = some z) :
    SpreadWithin gpSize readAttemptsMaxCount k (chunks.map List.length) := by
  induction k generalizing s chunks with
  | zero => trivial
  | succ k ih =>
    by_cases hspread : spread gpSize (chunks.map List.length) ≤ readAttemptsMaxCount
    · -- the message is received, and the session goes on with the next one
      refine ⟨hspread, ?_⟩
      have hsplit : chunks.flatten =
          List.replicate gpSize z ++ List.replicate (gpSize * k) z := by
        rw [hflatten, List.replicate_append_replicate, Nat.mul_succ, Nat.add_comm]
      have hreceive := receiveMessage_message hs List.length_replicate hsplit hspread
      obtain ⟨t, ht, hnil⟩ := checkGuess_of_invalid hwrites hinvalid
      rcases faults_received hstop hreceive with ⟨u, hu, -⟩ | ⟨u, hu, hgo⟩
      · rw [ht] at hu
        cases hu
      · rw [ht, Except.ok.injEq] at hu
        subst hu
        rw [← map_length_chunksAfter]
        apply ih (prompted_of_checkGuess ht) hnil ?_ hgo
        rw [flatten_chunksAfter, hsplit]
        exact List.drop_left' List.length_replicate
    · -- the buffer that is checked ends in a zero, and stays among those checked
      obtain ⟨r, hr, hzero⟩ := getLast_of_exceeded hs (Nat.lt_of_not_le hspread)
      have hlast := hchecked r.buf (buf_mem_checked hstop hr)
      rw [hzero, Option.some.injEq] at hlast
      exact absurd hlast.symm hz

/-- INTERNAL: the condition is needed. -/
theorem spreadWithin_of_segmentationIndependent {k : ℕ} {sizes : List ℕ}
    (hsum : sizes.sum = gpSize * k) (h : SegmentationIndependent k sizes) :
    SpreadWithin gpSize readAttemptsMaxCount k sizes := by
  let z : UInt8 := 90
  have hflatten : (uniformChunks z sizes).flatten = List.replicate (gpSize * k) z := by
    rw [flatten_uniformChunks, hsum]
  obtain ⟨stop, hstop, -, hpre, -⟩ :=
    h ⟨[], [], fun _ => 0, [], []⟩ (List.replicate k (List.replicate gpSize z))
      (uniformChunks z sizes) List.length_replicate
      (fun frame hframe => by rw [List.eq_of_mem_replicate hframe, List.length_replicate])
      (map_length_uniformChunks z sizes)
      (by rw [hflatten, List.flatten_replicate_replicate, Nat.mul_comm])
  obtain ⟨s, hs, hwrites⟩ := startSession_of_nil
    (rfl : (⟨[], [], fun _ => 0, (uniformChunks z sizes).map .data, []⟩ : SessionInput).writes = [])
  rw [← map_length_uniformChunks z sizes]
  apply spreadWithin_of_uniform (by decide : z ≠ 0) (by decide) (prompted_of_startSession hs)
    hwrites hflatten ((sessionStops_iff hs stop).mp hstop)
  intro buffer hbuffer
  rw [List.eq_of_mem_replicate (hpre.subset hbuffer)]
  rfl

/-- **The stream of guesses may be cut up in a given way, whatever the guesses are, exactly
if no message is then spread over more than `READ_ATTEMPTS_MAX_COUNT` reads.** -/
theorem segmentation_independent_iff (k : ℕ) (sizes : List ℕ) (hpos : ∀ n ∈ sizes, 0 < n)
    (hsum : sizes.sum = gpSize * k) :
    SegmentationIndependent k sizes ↔ SpreadWithin gpSize readAttemptsMaxCount k sizes :=
  ⟨spreadWithin_of_segmentationIndependent hsum, segmentationIndependent_of_spreadWithin hpos⟩

/-- Two guesses in five reads each. -/
theorem segmentation_independent_iff_five_reads :
    SegmentationIndependent 2 [100, 80, 10, 1, 1, 50, 50, 50, 40, 2] :=
  (segmentation_independent_iff 2 [100, 80, 10, 1, 1, 50, 50, 50, 40, 2] (by decide)
    (by decide)).mpr (by decide)

/-! ## A verdict that is lost -/

/-- INTERNAL: a stop that is found by running the thread. -/
theorem sessionStops_of_run {input : SessionInput} {P : Stop → Prop} [DecidablePred P] (n : ℕ)
    (h : (match pthreadRoutine input n with
      | .error stop => decide (P stop)
      | .ok _ => false) = true) : ∃ stop, SessionStops input stop ∧ P stop := by
  cases hrun : pthreadRoutine input n with
  | error stop =>
    rw [hrun] at h
    exact ⟨stop, ⟨n, hrun⟩, of_decide_eq_true h⟩
  | ok p =>
    rw [hrun] at h
    cases h

/-- A guess as the client sends it. -/
def guessMessage (guess : String) : List UInt8 :=
  store (List.replicate gpSize 0) 0 (ascii guess)

/-- The guess `ABCD` in six reads, and the secret `AAAA` after it. -/
def sixReads : List (List UInt8) :=
  [ascii "A", ascii "B", ascii "C", ascii "D", [0], List.replicate 187 0,
    ascii "AAAA" ++ [0], List.replicate 187 0]

/-- The session whose secret is `AAAA`, on a socket that takes everything. -/
def secretAAAA (chunks : List (List UInt8)) : SessionInput :=
  { secretCode := ascii "AAAA" ++ [0], stackBuffer := [], rand := fun _ => 0
    reads := chunks.map .data, writes := [] }

/-- Six reads for the first guess: what is checked is the guess with two letters of the
request behind it, and then what is left of it with the second guess at its end. The secret
is not recognised, and the game that is won on whole messages goes on. -/
theorem six_reads_lose_the_verdict :
    (∀ c ∈ sixReads, c ≠ []) ∧
    sixReads.flatten = [guessMessage "ABCD", guessMessage "AAAA"].flatten ∧
    (∃ stop, SessionStops (secretAAAA sixReads) stop ∧
      checked stop.session.conn.trace = [ascii "ABCD" ++ [0] ++ ascii "ST" ++ List.replicate 185 0,
        List.replicate 187 0 ++ ascii "AAAA" ++ [0]] ∧
      ¬ checked stop.session.conn.trace <+: [guessMessage "ABCD", guessMessage "AAAA"] ∧
      .send .gameSucc none gpSize ∉ stop.session.conn.trace) ∧
    ∃ stop, SessionStops (secretAAAA [guessMessage "ABCD", guessMessage "AAAA"]) stop ∧
      .send .gameSucc none gpSize ∈ stop.session.conn.trace := by
  refine ⟨by decide +kernel, by decide +kernel, ?_, ?_⟩
  · exact sessionStops_of_run 3 (by decide +kernel)
  · exact sessionStops_of_run 2 (by decide +kernel)

end Comp30023.Analysis
