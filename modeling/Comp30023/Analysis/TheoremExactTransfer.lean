import Comp30023.Interface.ReceiveMessage
import Comp30023.Model.MessageCalls

/-!
# The message helpers transfer exactly a message

Offset, remaining length and counter of the two helpers move together, and an error is reported
in the counter itself. Call by call the helpers do what the loops over counts of bytes do
(`receiveCallLoop_refines`, `sendCallLoop_refines`): what went over the socket is proved of
those, what was asked of the system of the calls.
-/

set_option autoImplicit false

namespace Comp30023.Analysis

open Comp30023.Interface Comp30023.Model

/-- The call names a part of the first `msgSize` bytes of the buffer, and not an empty one. -/
def NamesPart (msgSize : ℕ) (call : SystemCall) : Prop :=
  0 ≤ call.offset ∧ 0 < call.count ∧ call.offset + call.count ≤ msgSize

/-- INTERNAL: what is asked for behind the first `k` bytes. -/
theorem namesPart_rest {msgSize k : ℕ} (h : k < msgSize) (n : ℤ) (isEpipe : Bool) :
    NamesPart msgSize ⟨k, (msgSize : ℤ) - k, n, isEpipe⟩ := by
  unfold NamesPart
  dsimp only
  omega

/-! ## Receiving -/

/-- INTERNAL: one call of `read()`.
SOURCE: message-helpers.c:25-30 -/
theorem receiveCall_eq (msgSize : ℕ) {v : ReceiveCalls} {k : ℕ} (hk : v.rcvdMsgSize = k) :
    receiveCall msgSize v =
      match Model.read (msgSize - k) v.reads with
      | none => none
      | some result => some
        { rcvdMsgSize := (k + result.bytes.length : ℕ)
          buf := store v.buf k result.bytes
          reads := result.rest
          calls := v.calls ++ [⟨k, (msgSize : ℤ) - k, result.n, false⟩] } := by
  unfold receiveCall
  rw [hk, Int.toNat_sub]
  cases hread : Model.read (msgSize - k) v.reads with
  | none => rfl
  | some result =>
    have hn := (read_bytes hread).2
    have hcount : (if 0 < result.n then (k : ℤ) + result.n else k) =
        (k + result.bytes.length : ℕ) := by
      split_ifs <;> omega
    simp only [hcount, Int.toNat_natCast]

/-- Call by call, `receive_message` does what its loop over counts does; and each of its calls,
of which there are no more than attempts, names a part of the message that is missing.
SOURCE: message-helpers.c:23-32 -/
theorem receiveCallLoop_refines {msgSize attempts k : ℕ} {v v' : ReceiveCalls}
    (hk : v.rcvdMsgSize = k) (hlt : k < msgSize)
    (h : receiveCallLoop msgSize attempts v = some v') :
    (∃ k' : ℕ, v'.rcvdMsgSize = k' ∧
      receiveLoop msgSize attempts ⟨k, v.buf, v.reads⟩ = some ⟨k', v'.buf, v'.reads⟩) ∧
    ∃ calls, v'.calls = v.calls ++ calls ∧ calls.length ≤ attempts ∧
      ∀ call ∈ calls, NamesPart msgSize call := by
  induction attempts generalizing v k with
  | zero =>
    simp only [receiveCallLoop, Option.some.injEq] at h
    subst h
    exact ⟨⟨k, hk, rfl⟩, [], (List.append_nil _).symm, Nat.le_refl 0, by simp⟩
  | succ attempts ih =>
    unfold receiveCallLoop at h
    rw [receiveCall_eq msgSize hk] at h
    cases hread : Model.read (msgSize - k) v.reads with
    | none => simp [hread] at h
    | some result =>
      have hpart := namesPart_rest hlt result.n false
      rw [receiveLoop_succ hread]
      simp only [hread, Int.ofNat_lt] at h
      split_ifs at h with hmore
      · obtain ⟨hloop, calls, hcalls, hlength, hparts⟩ := ih rfl hmore h
        refine ⟨?_, ⟨k, (msgSize : ℤ) - k, result.n, false⟩ :: calls, ?_,
          Nat.succ_le_succ hlength, ?_⟩
        · rw [if_pos hmore]
          exact hloop
        · rw [hcalls, List.append_assoc]
          rfl
        · exact List.forall_mem_cons.mpr ⟨hpart, hparts⟩
      · simp only [Option.some.injEq] at h
        subst h
        refine ⟨⟨k + result.bytes.length, rfl, if_neg hmore⟩, [_], rfl, by simp, ?_⟩
        exact List.forall_mem_singleton.mpr hpart

/-- INTERNAL: a call of `read()` that has an outcome comes back, and uses up at most one. -/
theorem read_isSome (count : ℕ) {reads : List ReadOutcome} (h : 0 < reads.length) :
    ∃ result, Model.read count reads = some result ∧
      reads.length ≤ result.rest.length + 1 := by
  cases reads with
  | nil => cases h
  | cons outcome rest =>
    cases outcome with
    | data bytes =>
      refine ⟨_, rfl, ?_⟩
      dsimp only
      split_ifs <;> simp
    | eof => exact ⟨_, rfl, Nat.le_refl _⟩
    | error => exact ⟨_, rfl, Nat.le_refl _⟩

/-- INTERNAL: with an outcome for every attempt, `receive_message` comes back.
SOURCE: message-helpers.c:23-32 -/
theorem receiveCallLoop_isSome {msgSize attempts k : ℕ} {v : ReceiveCalls}
    (hk : v.rcvdMsgSize = k) (h : attempts ≤ v.reads.length) :
    ∃ v', receiveCallLoop msgSize attempts v = some v' := by
  induction attempts generalizing v k with
  | zero => exact ⟨v, rfl⟩
  | succ attempts ih =>
    obtain ⟨result, hread, hused⟩ := read_isSome (msgSize - k) (Nat.zero_lt_of_lt h)
    unfold receiveCallLoop
    rw [receiveCall_eq msgSize hk]
    simp only [hread]
    split_ifs
    · apply ih rfl
      show attempts ≤ result.rest.length
      omega
    · exact ⟨_, rfl⟩

/-- INTERNAL: the same for the whole of `receive_message`.
SOURCE: message-helpers.c:19-42 -/
theorem receiveMessageCalls_isSome (buf : List UInt8) (msgSize : ℕ) {reads : List ReadOutcome}
    (h : readAttemptsMaxCount ≤ reads.length) :
    ∃ v, receiveMessageCalls buf msgSize reads = some v := by
  have hreturns : ∃ v, receiveCallLoop msgSize readAttemptsMaxCount ⟨0, buf, reads, []⟩ = some v :=
    receiveCallLoop_isSome (k := 0) rfl h
  obtain ⟨v, hloop⟩ := hreturns
  unfold receiveMessageCalls
  rw [hloop]
  exact ⟨_, rfl⟩

/-- INTERNAL: what `receive_message` has done when it returns.
SOURCE: message-helpers.c:19-42 -/
theorem receiveMessageCalls_spec {msgSize : ℕ} (hsize : 1 ≤ msgSize) {buf : List UInt8}
    (hbuf : msgSize ≤ buf.length) {reads : List ReadOutcome} {v : ReceiveCalls}
    (h : receiveMessageCalls buf msgSize reads = some v) :
    (∃ stored, streamOf reads = stored ++ streamOf v.reads ∧
      v.buf = stored ++ buf.drop stored.length ∧
      (v.rcvdMsgSize = msgSize → stored.length = msgSize) ∧
      (v.rcvdMsgSize ≠ msgSize → v.rcvdMsgSize = readError ∧ stored.length < msgSize)) ∧
    v.calls.length ≤ readAttemptsMaxCount ∧ ∀ call ∈ v.calls, NamesPart msgSize call := by
  unfold receiveMessageCalls at h
  cases hloop : receiveCallLoop msgSize readAttemptsMaxCount ⟨0, buf, reads, []⟩ with
  | none => simp [hloop] at h
  | some w =>
    simp only [hloop, Option.some.injEq] at h
    obtain ⟨⟨k, hk, hreceive⟩, calls, hcalls, hlength, hparts⟩ :=
      receiveCallLoop_refines (k := 0) rfl hsize hloop
    obtain ⟨stored, hstream, hstored, hcount, hle⟩ :=
      receiveMessage_consumes (r := ⟨k, w.buf, w.reads⟩) hreceive hbuf
    have hcalls' : w.calls = calls := hcalls
    have hcount' : k = stored.length := hcount
    have hne : readError ≠ msgSize := by
      unfold readError
      omega
    by_cases hall : w.rcvdMsgSize = msgSize
    · rw [if_neg (not_not.mpr hall)] at h
      subst h
      refine ⟨⟨stored, hstream, hstored, ?_, fun hnot => absurd hall hnot⟩, hcalls' ▸ hlength,
        hcalls' ▸ hparts⟩
      omega
    · rw [if_pos hall] at h
      subst h
      refine ⟨⟨stored, hstream, hstored, fun heq => absurd heq hne, fun _ => ⟨rfl, ?_⟩⟩,
        hcalls' ▸ hlength, hcalls' ▸ hparts⟩
      omega

/-! ## Sending -/

/-- INTERNAL: `write()` takes at most what it is given. -/
theorem write_n_le (count : ℕ) (writes : List WriteOutcome) :
    (Model.write count writes).n ≤ count := by
  cases writes with
  | nil => exact Int.le_refl _
  | cons outcome rest =>
    cases outcome with
    | accept m => exact Int.ofNat_le.mpr (Nat.min_le_right m count)
    | epipe => exact (Int.negSucc_lt_zero 0).le.trans (Int.natCast_nonneg count)
    | error => exact (Int.negSucc_lt_zero 0).le.trans (Int.natCast_nonneg count)

/-- INTERNAL: one call of `write()` that does not lose the connection, with the bytes it takes
counted.
SOURCE: message-helpers.c:50-64 -/
theorem sendLoop_succ (msg : List UInt8) {msgSize attempts : ℕ} {s : Sent} {result : WriteResult}
    (hwrite : Model.write (msgSize - s.sentMsgSize) s.writes = result)
    (hkept : ¬ (result.n = -1 ∧ result.isEpipe = true)) :
    sendLoop msg msgSize (attempts + 1) s =
      if s.sentMsgSize + result.n.toNat < msgSize then
        sendLoop msg msgSize attempts ⟨s.sentMsgSize + result.n.toNat, false,
          s.written ++ (msg.drop s.sentMsgSize).take result.n.toNat, result.rest⟩
      else ⟨s.sentMsgSize + result.n.toNat, false,
        s.written ++ (msg.drop s.sentMsgSize).take result.n.toNat, result.rest⟩ := by
  have hcount : (if 0 < result.n then s.sentMsgSize + result.n.toNat else s.sentMsgSize) =
      s.sentMsgSize + result.n.toNat := by
    split_ifs <;> omega
  simp only [sendLoop, hwrite, if_neg hkept, hcount]

/-- The loop of `send_message` writes the message from where it stands on, and when the
connection is lost it has not written all of it.
SOURCE: message-helpers.c:48-64 -/
theorem sendLoop_written (msg : List UInt8) {msgSize : ℕ} (attempts : ℕ) {s : Sent}
    (hlost : s.isConnLost = false) (hsent : s.sentMsgSize < msgSize)
    (hwritten : s.written = msg.take s.sentMsgSize) :
    (sendLoop msg msgSize attempts s).written =
        msg.take (sendLoop msg msgSize attempts s).sentMsgSize ∧
      (sendLoop msg msgSize attempts s).sentMsgSize ≤ msgSize ∧
      ((sendLoop msg msgSize attempts s).isConnLost = true →
        (sendLoop msg msgSize attempts s).sentMsgSize < msgSize) := by
  induction attempts generalizing s with
  | zero => exact ⟨hwritten, Nat.le_of_lt hsent, fun _ => hsent⟩
  | succ attempts ih =>
    have hle := write_n_le (msgSize - s.sentMsgSize) s.writes
    generalize hwrite : Model.write (msgSize - s.sentMsgSize) s.writes = result at hle
    by_cases hepipe : result.n = -1 ∧ result.isEpipe = true
    · simp only [sendLoop, hwrite, if_pos hepipe]
      exact ⟨hwritten, Nat.le_of_lt hsent, fun _ => hsent⟩
    · rw [sendLoop_succ msg hwrite hepipe, hwritten, ← List.take_add]
      split_ifs with hmore
      · exact ih rfl hmore rfl
      · refine ⟨rfl, ?_, fun hlost' => by cases hlost'⟩
        show s.sentMsgSize + result.n.toNat ≤ msgSize
        omega

/-- The last call failed, and left `EPIPE` in `errno`. -/
def EndsInEpipe (calls : List SystemCall) : Prop :=
  ∃ call, calls.getLast? = some call ∧ call.n = -1 ∧ call.isEpipe = true

/-- INTERNAL: a call that did not meet `EPIPE`, before others. -/
theorem endsInEpipe_cons {call : SystemCall} (h : ¬ (call.n = -1 ∧ call.isEpipe = true))
    (calls : List SystemCall) : EndsInEpipe (call :: calls) ↔ EndsInEpipe calls := by
  cases calls with
  | nil => simp [EndsInEpipe, h]
  | cons next calls => simp [EndsInEpipe, List.getLast?_cons_cons]

/-- What `send_message` has come to call by call, from `v` to `v'`, against what its loop over
counts has come to: the loss of the connection is written over the counter. Its calls name parts
of the message that were missing, and the connection is lost exactly if the last of them met
`EPIPE`. -/
structure SendRefines (msgSize attempts : ℕ) (v v' : SendCalls) (s' : Sent) : Prop where
  counter : v'.sentMsgSize = if s'.isConnLost then writeConnLostError else (s'.sentMsgSize : ℤ)
  written : v'.written = s'.written
  calls : ∃ calls, v'.calls = v.calls ++ calls ∧ calls.length ≤ attempts ∧
    (∀ call ∈ calls, NamesPart msgSize call) ∧ (s'.isConnLost = true ↔ EndsInEpipe calls)

/-- Call by call, `send_message` does what its loop over counts does.
SOURCE: message-helpers.c:48-64 -/
theorem sendCallLoop_refines (msg : List UInt8) {msgSize : ℕ} (attempts : ℕ) {s : Sent}
    {v : SendCalls} (hsent : v.sentMsgSize = s.sentMsgSize) (hwritten : v.written = s.written)
    (hwrites : v.writes = s.writes) (hlost : s.isConnLost = false)
    (hlt : s.sentMsgSize < msgSize) :
    SendRefines msgSize attempts v (sendCallLoop msg msgSize attempts v)
      (sendLoop msg msgSize attempts s) := by
  induction attempts generalizing s v with
  | zero =>
    refine ⟨?_, hwritten, [], (List.append_nil _).symm, Nat.le_refl 0, by simp, ?_⟩
    · simpa [sendCallLoop, sendLoop, hlost] using hsent
    · simp [sendLoop, hlost, EndsInEpipe]
  | succ attempts ih =>
    have hpart : ∀ n isEpipe, NamesPart msgSize
        ⟨s.sentMsgSize, (msgSize : ℤ) - s.sentMsgSize, n, isEpipe⟩ := namesPart_rest hlt
    unfold sendCallLoop
    rw [hsent, hwrites, hwritten, Int.toNat_sub, Int.toNat_natCast]
    generalize hwrite : Model.write (msgSize - s.sentMsgSize) s.writes = result
    by_cases hepipe : result.n = -1 ∧ result.isEpipe = true
    · simp only [sendLoop, hwrite, if_pos hepipe]
      refine ⟨rfl, rfl, [_], rfl, by simp, List.forall_mem_singleton.mpr (hpart _ _), ?_⟩
      exact iff_of_true rfl ⟨_, rfl, hepipe⟩
    · have hcounter : (if 0 < result.n then (s.sentMsgSize : ℤ) + result.n else s.sentMsgSize) =
          (s.sentMsgSize + result.n.toNat : ℕ) := by
        split_ifs <;> omega
      rw [sendLoop_succ msg hwrite hepipe]
      simp only [if_neg hepipe, hcounter, Int.ofNat_lt]
      split_ifs with hmore
      · obtain ⟨hcount, hbytes, calls, hcalls, hlength, hparts, hends⟩ :=
          ih (s := ⟨s.sentMsgSize + result.n.toNat, false, _, _⟩)
            (v := ⟨(s.sentMsgSize + result.n.toNat : ℕ), _, _, v.calls ++ [_]⟩)
            rfl rfl rfl rfl hmore
        refine ⟨hcount, hbytes, _ :: calls, ?_, Nat.succ_le_succ hlength,
          List.forall_mem_cons.mpr ⟨hpart result.n result.isEpipe, hparts⟩, ?_⟩
        · rw [hcalls, List.append_assoc]
          rfl
        · rw [hends, endsInEpipe_cons hepipe]
      · refine ⟨by simp, rfl, [_], rfl, by simp, List.forall_mem_singleton.mpr (hpart _ _), ?_⟩
        rw [endsInEpipe_cons hepipe]
        simp [EndsInEpipe]

/-- INTERNAL: what `send_message` has done when it returns.
SOURCE: message-helpers.c:44-74 -/
theorem sendMessageCalls_spec {msgSize : ℕ} (hsize : 1 ≤ msgSize) (msg : List UInt8)
    (writes : List WriteOutcome) :
    ((sendMessageCalls msg msgSize writes).sentMsgSize = msgSize →
      (sendMessageCalls msg msgSize writes).written = msg.take msgSize) ∧
    ((sendMessageCalls msg msgSize writes).sentMsgSize ≠ msgSize →
      (∃ k < msgSize, (sendMessageCalls msg msgSize writes).written = msg.take k) ∧
      (EndsInEpipe (sendMessageCalls msg msgSize writes).calls →
        (sendMessageCalls msg msgSize writes).sentMsgSize = writeConnLostError) ∧
      (¬ EndsInEpipe (sendMessageCalls msg msgSize writes).calls →
        (sendMessageCalls msg msgSize writes).sentMsgSize = writeOtherError)) ∧
    (sendMessageCalls msg msgSize writes).calls.length ≤ writeAttemptsMaxCount ∧
    ∀ call ∈ (sendMessageCalls msg msgSize writes).calls, NamesPart msgSize call := by
  obtain ⟨hcounter, hbytes, calls, hcalls, hlength, hparts, hends⟩ :=
    sendCallLoop_refines msg writeAttemptsMaxCount (s := ⟨0, false, [], writes⟩)
      (v := ⟨0, [], writes, []⟩) rfl rfl rfl rfl hsize
  obtain ⟨hwritten, hle, hstrict⟩ := sendLoop_written msg writeAttemptsMaxCount
    (s := ⟨0, false, [], writes⟩) rfl hsize rfl
  rw [List.nil_append] at hcalls
  rw [← hcalls] at hlength hparts hends
  rw [← hbytes] at hwritten
  unfold sendMessageCalls
  generalize sendCallLoop msg msgSize writeAttemptsMaxCount ⟨0, [], writes, []⟩ = v at *
  generalize sendLoop msg msgSize writeAttemptsMaxCount ⟨0, false, [], writes⟩ = s at *
  have hlostError : writeConnLostError < 0 := by decide
  have hotherError : writeOtherError < 0 := by decide
  cases hlost : s.isConnLost with
  | true =>
    have hsent : v.sentMsgSize = writeConnLostError := by simpa [hlost] using hcounter
    have hepipe := hends.mp hlost
    have hreturn : ¬ (v.sentMsgSize ≠ msgSize ∧ v.sentMsgSize ≠ writeConnLostError) := by
      intro hother
      exact hother.2 hsent
    simp only [if_neg hreturn]
    refine ⟨by omega, fun _ => ⟨⟨_, hstrict hlost, hwritten⟩, fun _ => hsent, ?_⟩, hlength, hparts⟩
    intro hnot
    exact absurd hepipe hnot
  | false =>
    have hsent : v.sentMsgSize = s.sentMsgSize := by simpa [hlost] using hcounter
    have hkept : ¬ EndsInEpipe v.calls := by
      rw [← hends, hlost]
      exact Bool.false_ne_true
    by_cases hall : s.sentMsgSize = msgSize
    · have hreturn : ¬ (v.sentMsgSize ≠ msgSize ∧ v.sentMsgSize ≠ writeConnLostError) := by
        intro hother
        exact hother.1 (by rw [hsent, hall])
      simp only [if_neg hreturn]
      refine ⟨fun _ => ?_, fun hnot => absurd (by rw [hsent, hall]) hnot, hlength, hparts⟩
      rw [hwritten, hall]
    · have hreturn : v.sentMsgSize ≠ msgSize ∧ v.sentMsgSize ≠ writeConnLostError := by
        constructor <;> omega
      simp only [if_pos hreturn]
      refine ⟨by omega, fun _ => ⟨⟨_, by omega, hwritten⟩, ?_, fun _ => trivial⟩, hlength, hparts⟩
      intro hepipe
      exact absurd hepipe hkept

/-- **Exact transfer.** For every size of at least one and every buffer that holds so many bytes,
whatever each call of `read()` and `write()` returns: if `receive_message` returns the size, the
buffer holds that many bytes of the stream and no other was consumed; if not, it returns
`READ_ERROR`, fewer were consumed, and they stand in order at the front of the buffer. If
`send_message` returns the size, it has written the message, once and in order; if not, a strict
beginning of it, and it returns `WRITE_CONN_LOST_ERROR` exactly if the last call failed with
`EPIPE`, else `WRITE_OTHER_ERROR`. Both make at most five calls, each for a range of the buffer. So
what is sent and received with success from the same position of the stream is the message.
SOURCE: message-helpers.c:19-74, message-helpers.h:10-28 -/
theorem message_helpers_exact (msgSize : ℕ) (hsize : 1 ≤ msgSize) :
    (∀ buf reads, msgSize ≤ buf.length →
      (readAttemptsMaxCount ≤ reads.length →
        ∃ v, receiveMessageCalls buf msgSize reads = some v) ∧
      ∀ v, receiveMessageCalls buf msgSize reads = some v →
        (∃ stored, streamOf reads = stored ++ streamOf v.reads ∧
          v.buf = stored ++ buf.drop stored.length ∧
          (v.rcvdMsgSize = msgSize → stored.length = msgSize) ∧
          (v.rcvdMsgSize ≠ msgSize → v.rcvdMsgSize = readError ∧ stored.length < msgSize)) ∧
        v.calls.length ≤ 5 ∧
        ∀ call ∈ v.calls, 0 ≤ call.offset ∧ 0 < call.count ∧
          call.offset + call.count ≤ buf.length) ∧
    (∀ msg writes, msgSize ≤ msg.length →
      ((sendMessageCalls msg msgSize writes).sentMsgSize = msgSize →
        (sendMessageCalls msg msgSize writes).written = msg.take msgSize) ∧
      ((sendMessageCalls msg msgSize writes).sentMsgSize ≠ msgSize →
        (∃ k < msgSize, (sendMessageCalls msg msgSize writes).written = msg.take k) ∧
        (EndsInEpipe (sendMessageCalls msg msgSize writes).calls →
          (sendMessageCalls msg msgSize writes).sentMsgSize = writeConnLostError) ∧
        (¬ EndsInEpipe (sendMessageCalls msg msgSize writes).calls →
          (sendMessageCalls msg msgSize writes).sentMsgSize = writeOtherError)) ∧
      (sendMessageCalls msg msgSize writes).calls.length ≤ 5 ∧
      ∀ call ∈ (sendMessageCalls msg msgSize writes).calls, 0 ≤ call.offset ∧ 0 < call.count ∧
        call.offset + call.count ≤ msg.length) ∧
    ∀ msg writes buf reads v later, msgSize ≤ msg.length → msgSize ≤ buf.length →
      (sendMessageCalls msg msgSize writes).sentMsgSize = msgSize →
      streamOf reads = (sendMessageCalls msg msgSize writes).written ++ later →
      receiveMessageCalls buf msgSize reads = some v → v.rcvdMsgSize = msgSize →
      v.buf.take msgSize = msg.take msgSize ∧ streamOf v.reads = later := by
  have hrange : ∀ {size : ℕ} {calls : List SystemCall}, msgSize ≤ size →
      (∀ call ∈ calls, NamesPart msgSize call) →
      ∀ call ∈ calls, 0 ≤ call.offset ∧ 0 < call.count ∧ call.offset + call.count ≤ size := by
    intro size calls hle hparts call hcall
    obtain ⟨hoffset, hcount, hend⟩ := hparts call hcall
    exact ⟨hoffset, hcount, hend.trans (Int.ofNat_le.mpr hle)⟩
  refine ⟨?_, ?_, ?_⟩
  · intro buf reads hbuf
    refine ⟨receiveMessageCalls_isSome buf msgSize, ?_⟩
    intro v hreceive
    obtain ⟨hstored, hlength, hparts⟩ := receiveMessageCalls_spec hsize hbuf hreceive
    exact ⟨hstored, hlength, hrange hbuf hparts⟩
  · intro msg writes hmsg
    obtain ⟨hall, hpart, hlength, hparts⟩ := sendMessageCalls_spec hsize msg writes
    exact ⟨hall, hpart, hlength, hrange hmsg hparts⟩
  · intro msg writes buf reads v later hmsg hbuf hsent hstream hreceive hreceived
    have hwritten := (sendMessageCalls_spec hsize msg writes).1 hsent
    obtain ⟨⟨stored, hconsumed, hstored, hall, -⟩, -⟩ :=
      receiveMessageCalls_spec hsize hbuf hreceive
    have hlength : (msg.take msgSize).length = stored.length := by
      rw [hall hreceived, List.length_take, Nat.min_eq_left hmsg]
    rw [hwritten, hconsumed] at hstream
    obtain ⟨hsame, hlater⟩ := List.append_inj hstream hlength.symm
    refine ⟨?_, hlater⟩
    rw [hstored, ← hsame]
    exact List.take_left' (hall hreceived)

/-- A message of three bytes, sent in two writes and received in two reads with an error between
them. -/
theorem message_helpers_exact_three :
    1 ≤ 3 ∧ ∃ v, receiveMessageCalls [0, 0, 0, 7] (3 : ℕ) [.data [70, 65], .error, .data [67, 69]] =
        some v ∧ v.rcvdMsgSize = 3 ∧ v.calls.length = 3 ∧
      v.buf.take 3 = [70, 65, 67] ∧ streamOf v.reads = [69] := by
  have hsize : 1 ≤ 3 := by decide
  have hreceive : receiveMessageCalls [0, 0, 0, 7] (3 : ℕ)
      [.data [70, 65], .error, .data [67, 69]] =
        some ⟨3, [70, 65, 67, 7], [.data [69]],
          [⟨0, 3, 2, false⟩, ⟨2, 1, -1, false⟩, ⟨2, 1, 1, false⟩]⟩ := by decide +kernel
  refine ⟨hsize, _, hreceive, rfl, rfl, ?_⟩
  exact (message_helpers_exact 3 hsize).2.2 [70, 65, 67] [.accept 1] [0, 0, 0, 7] _ _ [69]
    (by decide) (by decide) (by decide +kernel) (by decide +kernel) hreceive rfl

end Comp30023.Analysis
