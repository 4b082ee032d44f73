import Comp30023.Library.Chunks
import Comp30023.Model.MessageHelpers

/-!
# What a call of `receive_message` stores

Three descriptions of the same loop. For any outcomes of `read()`, it takes some bytes off the
stream, stores them from the front of the buffer on and leaves the others alone. When the reads
are chunks of a stream, it takes exactly the message if the message is spread over no more chunks
than there are attempts, and stops short of it if it is spread over more. When the stream ends,
it always comes back, with the bytes that its attempts put together.
-/

set_option autoImplicit false

namespace Comp30023.Interface

open Comp30023.Library Comp30023.Model

/-! ## Storing -/

/-- INTERNAL: two pieces stored one behind the other are one piece. -/
theorem store_store {buf : List UInt8} {offset : ℕ} (h : offset ≤ buf.length)
    (bytes more : List UInt8) :
    store (store buf offset bytes) (offset + bytes.length) more =
      store buf offset (bytes ++ more) := by
  have hlen : (buf.take offset ++ bytes).length = offset + bytes.length := by
    simp [Nat.min_eq_left h]
  have htake : (store buf offset bytes).take (offset + bytes.length) =
      buf.take offset ++ bytes := by
    unfold store
    rw [← hlen, List.take_left]
  have hdrop : (store buf offset bytes).drop (offset + bytes.length + more.length) =
      buf.drop (offset + bytes.length + more.length) := by
    unfold store
    rw [← hlen, List.drop_length_add_append, hlen, List.drop_drop]
  unfold store at htake hdrop ⊢
  rw [htake, hdrop, List.length_append, ← Nat.add_assoc, List.append_assoc (buf.take offset)]

/-- INTERNAL: storing nothing. -/
theorem store_nil (buf : List UInt8) (offset : ℕ) : store buf offset [] = buf := by
  simp [store]

/-- INTERNAL: storing inside the buffer keeps its length. -/
theorem length_store {buf bytes : List UInt8} {offset : ℕ}
    (h : offset + bytes.length ≤ buf.length) : (store buf offset bytes).length = buf.length := by
  simp only [store, List.length_append, List.length_take, List.length_drop]
  omega

/-- INTERNAL: a piece that fills the buffer replaces it. -/
theorem store_full {buf bytes : List UInt8} (h : buf.length = bytes.length) :
    store buf 0 bytes = bytes := by
  simp [store, Nat.le_of_eq h]

/-! ## Any outcomes of `read()` -/

/-- The bytes that the reads to come will deliver, in order. -/
def streamOf (reads : List ReadOutcome) : List UInt8 :=
  reads.flatMap fun
    | .data bytes => bytes
    | _ => []

/-- INTERNAL: a call of `read()` takes the bytes it stores off the stream. -/
theorem streamOf_read {count : ℕ} {reads : List ReadOutcome} {result : ReadResult}
    (h : Model.read count reads = some result) :
    streamOf reads = result.bytes ++ streamOf result.rest := by
  unfold Model.read at h
  split at h <;> simp only [Option.some.injEq, reduceCtorEq] at h <;> subst h
  case h_2 bytes rest =>
    by_cases hall : bytes.length ≤ count
    · simp [streamOf, hall, List.take_of_length_le hall]
    · simp [streamOf, hall, ← List.append_assoc]
  · simp [streamOf]
  · simp [streamOf]

/-- INTERNAL: a call of `read()` stores at most what it was asked for, and returns its
length whenever that is positive. -/
theorem read_bytes {count : ℕ} {reads : List ReadOutcome} {result : ReadResult}
    (h : Model.read count reads = some result) :
    result.bytes.length ≤ count ∧ result.bytes.length = result.n.toNat := by
  unfold Model.read at h
  split at h <;> simp only [Option.some.injEq, reduceCtorEq] at h <;> subst h
  · exact ⟨List.length_take_le _ _, (Int.toNat_natCast _).symm⟩
  · simp
  · simp

/-- INTERNAL: one pass of the loop, with the bytes it stores counted. -/
theorem receiveLoop_succ {msgSize attempts : ℕ} {r : Received} {result : ReadResult}
    (hread : Model.read (msgSize - r.rcvdMsgSize) r.reads = some result) :
    receiveLoop msgSize (attempts + 1) r =
      if r.rcvdMsgSize + result.bytes.length < msgSize then
        receiveLoop msgSize attempts ⟨r.rcvdMsgSize + result.bytes.length,
          store r.buf r.rcvdMsgSize result.bytes, result.rest⟩
      else some ⟨r.rcvdMsgSize + result.bytes.length,
        store r.buf r.rcvdMsgSize result.bytes, result.rest⟩ := by
  have hn := (read_bytes hread).2
  by_cases hpos : 0 < result.n
  · simp [receiveLoop, hread, hpos, hn]
  · have hzero : result.n.toNat = 0 := by omega
    simp [receiveLoop, hread, hpos, hn, hzero]

/-- The loop takes a run of bytes off the stream, no more than the message has, stores it
behind those already received, and does nothing else. -/
theorem receiveLoop_consumes {msgSize attempts : ℕ} {r r' : Received}
    (h : receiveLoop msgSize attempts r = some r') (hbuf : msgSize ≤ r.buf.length)
    (hrcvd : r.rcvdMsgSize ≤ msgSize) :
    ∃ bytes, streamOf r.reads = bytes ++ streamOf r'.reads ∧
      r'.buf = store r.buf r.rcvdMsgSize bytes ∧
      r'.rcvdMsgSize = r.rcvdMsgSize + bytes.length ∧ r'.rcvdMsgSize ≤ msgSize := by
  induction attempts generalizing r with
  | zero =>
    simp only [receiveLoop, Option.some.injEq] at h
    subst h
    exact ⟨[], rfl, (store_nil _ _).symm, rfl, hrcvd⟩
  | succ attempts ih =>
    cases hread : Model.read (msgSize - r.rcvdMsgSize) r.reads with
    | none => simp [receiveLoop, hread] at h
    | some result =>
      have hle := (read_bytes hread).1
      have hstream := streamOf_read hread
      rw [receiveLoop_succ hread] at h
      split_ifs at h with hmore
      · obtain ⟨bytes, hrest, hb, hr, hsize⟩ := ih h
          (by rw [length_store (by omega)]; exact hbuf) (Nat.le_of_lt hmore)
        refine ⟨result.bytes ++ bytes, ?_, ?_, ?_, hsize⟩
        · rw [hstream, hrest, List.append_assoc]
        · rw [hb, store_store (by omega)]
        · rw [hr, List.length_append, Nat.add_assoc]
      · simp only [Option.some.injEq] at h
        subst h
        refine ⟨result.bytes, hstream, rfl, rfl, ?_⟩
        show r.rcvdMsgSize + result.bytes.length ≤ msgSize
        omega

/-- What a call of `receive_message` takes off the stream and leaves in the buffer. -/
theorem receiveMessage_consumes {buf : List UInt8} {msgSize : ℕ} {reads : List ReadOutcome}
    {r : Received} (h : receiveMessage buf msgSize reads = some r) (hbuf : msgSize ≤ buf.length) :
    ∃ bytes, streamOf reads = bytes ++ streamOf r.reads ∧ r.buf = bytes ++ buf.drop bytes.length ∧
      r.rcvdMsgSize = bytes.length ∧ bytes.length ≤ msgSize := by
  obtain ⟨bytes, hstream, hr, hlen, hle⟩ := receiveLoop_consumes h hbuf (Nat.zero_le msgSize)
  have hrcvd : r.rcvdMsgSize = bytes.length := by
    rw [hlen]
    exact Nat.zero_add _
  refine ⟨bytes, hstream, ?_, hrcvd, hrcvd ▸ hle⟩
  rw [hr]
  simp [store]

/-! ## Chunks of a stream -/

/-- INTERNAL: one pass on a chunk that is shorter than what is missing. -/
theorem receiveLoop_short {msgSize attempts rcvd : ℕ} {buf c : List UInt8}
    (rest : List ReadOutcome) (hlt : c.length < msgSize - rcvd) :
    receiveLoop msgSize (attempts + 1) ⟨rcvd, buf, .data c :: rest⟩ =
      receiveLoop msgSize attempts ⟨rcvd + c.length, store buf rcvd c, rest⟩ := by
  have hread : Model.read (msgSize - rcvd) (.data c :: rest) = some ⟨c.length, c, rest⟩ := by
    simp [Model.read, List.take_of_length_le (Nat.le_of_lt hlt), Nat.le_of_lt hlt]
  rw [receiveLoop_succ hread, if_pos (by show rcvd + c.length < msgSize; omega)]

/-- INTERNAL: one pass on a chunk that has all that is missing. -/
theorem receiveLoop_last {msgSize attempts rcvd : ℕ} {buf c : List UInt8}
    (chunks : List (List UInt8)) (hneed : 0 < msgSize - rcvd) (hle : msgSize - rcvd ≤ c.length) :
    receiveLoop msgSize (attempts + 1) ⟨rcvd, buf, (c :: chunks).map .data⟩ =
      some ⟨msgSize, store buf rcvd (c.take (msgSize - rcvd)),
        (chunksAfter (msgSize - rcvd) (c :: chunks)).map .data⟩ := by
  have hn : (c.take (msgSize - rcvd)).length = msgSize - rcvd := by simp [hle]
  have hread : Model.read (msgSize - rcvd) ((c :: chunks).map .data) =
      some ⟨(msgSize - rcvd : ℕ), c.take (msgSize - rcvd),
        (chunksAfter (msgSize - rcvd) (c :: chunks)).map .data⟩ := by
    simp only [List.map_cons, Model.read, hn, chunksAfter, if_neg (Nat.not_lt.mpr hle)]
    split_ifs <;> rfl
  have hrcvd : rcvd + (c.take (msgSize - rcvd)).length = msgSize := by omega
  rw [receiveLoop_succ hread, hrcvd, if_neg (Nat.lt_irrefl msgSize)]

/-- A message spread over no more chunks than there are attempts is received: it is in the
buffer, and the reads to come are what is left of the stream. -/
theorem receiveLoop_within {msgSize attempts rcvd : ℕ} {buf : List UInt8}
    {chunks : List (List UInt8)} (hbuf : msgSize ≤ buf.length) (hneed : rcvd < msgSize)
    (hsize : msgSize - rcvd ≤ chunks.flatten.length)
    (hspread : spread (msgSize - rcvd) (chunks.map List.length) ≤ attempts) :
    receiveLoop msgSize attempts ⟨rcvd, buf, chunks.map .data⟩ =
      some ⟨msgSize, store buf rcvd (chunks.flatten.take (msgSize - rcvd)),
        (chunksAfter (msgSize - rcvd) chunks).map .data⟩ := by
  induction chunks generalizing attempts rcvd buf with
  | nil =>
    simp only [List.flatten_nil, List.length_nil] at hsize
    omega
  | cons c chunks ih =>
    simp only [List.map_cons, spread] at hspread
    obtain ⟨attempts, rfl⟩ : ∃ a, attempts = a + 1 :=
      Nat.exists_eq_add_one.mpr (by split_ifs at hspread <;> omega)
    by_cases hlt : c.length < msgSize - rcvd
    · rw [if_pos hlt] at hspread
      have hsub : msgSize - rcvd - c.length = msgSize - (rcvd + c.length) := by omega
      rw [List.flatten_cons, List.length_append] at hsize
      rw [List.map_cons, receiveLoop_short _ hlt,
        ih (by rw [length_store (by omega)]; exact hbuf) (by omega) (by omega)
          (by rw [← hsub]; omega),
        store_store (by omega), chunksAfter_of_lt chunks hlt, hsub, List.flatten_cons,
        List.take_append, List.take_of_length_le (Nat.le_of_lt hlt), hsub]
    · rw [receiveLoop_last chunks (by omega) (by omega), List.flatten_cons,
        List.take_append_of_le_length (by omega)]

/-- A message spread over more chunks than there are attempts is not received. -/
theorem receiveLoop_exceeded {msgSize attempts rcvd : ℕ} {buf : List UInt8}
    {chunks : List (List UInt8)} (hneed : rcvd < msgSize)
    (hspread : attempts < spread (msgSize - rcvd) (chunks.map List.length)) :
    ∃ r, receiveLoop msgSize attempts ⟨rcvd, buf, chunks.map .data⟩ = some r ∧
      r.rcvdMsgSize < msgSize := by
  induction attempts generalizing chunks rcvd buf with
  | zero => exact ⟨_, rfl, hneed⟩
  | succ attempts ih =>
    cases chunks with
    | nil => simp [spread] at hspread
    | cons c chunks =>
      simp only [List.map_cons, spread] at hspread
      split_ifs at hspread with hlt
      · have hsub : msgSize - rcvd - c.length = msgSize - (rcvd + c.length) := by omega
        rw [List.map_cons, receiveLoop_short _ hlt]
        apply ih (by omega)
        rw [← hsub]
        omega
      · omega

/-! ## Enough outcomes of `read()` -/

/-- The bytes that so many calls of `read()` put together, no more than `size` of them, and what
the next calls will meet; behind the listed outcomes the stream has ended. -/
def gather (size : ℕ) : ℕ → List ReadOutcome → List UInt8 × List ReadOutcome
  | 0, reads => ([], reads)
  | _ + 1, [] => ([], [])
  | attempts + 1, .data bytes :: reads =>
    if bytes.length < size then
      let (more, rest) := gather (size - bytes.length) attempts reads
      (bytes ++ more, rest)
    else if bytes.length = size then (bytes, reads)
    else (bytes.take size, .data (bytes.drop size) :: reads)
  | attempts + 1, .eof :: reads => gather size attempts reads
  | attempts + 1, .error :: reads => gather size attempts reads

/-- INTERNAL: nothing is put together behind the end of the stream. -/
theorem gather_eof (size attempts j : ℕ) :
    gather size attempts (List.replicate j .eof) = ([], List.replicate (j - attempts) .eof) := by
  induction attempts generalizing j with
  | zero => rfl
  | succ attempts ih =>
    cases j with
    | zero => rw [List.replicate_zero, gather, Nat.zero_sub, List.replicate_zero]
    | succ j => rw [List.replicate_succ, gather, ih, Nat.add_sub_add_right]

/-- INTERNAL: it makes no difference whether the end of the stream is listed. -/
theorem gather_append_eof (size attempts : ℕ) (reads : List ReadOutcome) (j : ℕ) :
    ∃ k, gather size attempts (reads ++ List.replicate j .eof) =
      ((gather size attempts reads).1,
        (gather size attempts reads).2 ++ List.replicate k .eof) := by
  fun_induction gather size attempts reads with
  | case1 size reads => exact ⟨j, rfl⟩
  | case2 size attempts => exact ⟨j - (attempts + 1), gather_eof _ _ _⟩
  | case3 size attempts bytes reads hlt more rest heq ih =>
    obtain ⟨k, hk⟩ := ih
    rw [heq] at hk
    exact ⟨k, by rw [List.cons_append, gather, if_pos hlt, hk]⟩
  | case4 attempts bytes reads hlt =>
    exact ⟨j, by rw [List.cons_append, gather, if_neg hlt, if_pos rfl]⟩
  | case5 size attempts bytes reads hlt hne =>
    exact ⟨j, by rw [List.cons_append, gather, if_neg hlt, if_neg hne, List.cons_append]⟩
  | case6 size attempts reads ih => exact ih
  | case7 size attempts reads ih => exact ih

/-- INTERNAL: what is put together fits. -/
theorem length_gather_le (size attempts : ℕ) (reads : List ReadOutcome) :
    (gather size attempts reads).1.length ≤ size := by
  fun_induction gather size attempts reads with
  | case1 => exact Nat.zero_le _
  | case2 => exact Nat.zero_le _
  | case3 size attempts bytes reads hlt more rest heq ih =>
    rw [heq] at ih
    rw [List.length_append]
    dsimp only at ih
    omega
  | case4 => exact Nat.le_refl _
  | case5 size attempts bytes reads hlt hne => exact List.length_take_le _ _
  | case6 size attempts reads ih => exact ih
  | case7 size attempts reads ih => exact ih

/-- When no `read()` waits, the loop stores the bytes that its attempts put together. -/
theorem receiveLoop_gather {msgSize attempts rcvd : ℕ} {buf : List UInt8}
    {reads : List ReadOutcome} (hbuf : msgSize ≤ buf.length) (hneed : rcvd < msgSize)
    (hreads : attempts ≤ reads.length) :
    receiveLoop msgSize attempts ⟨rcvd, buf, reads⟩ =
      some ⟨rcvd + (gather (msgSize - rcvd) attempts reads).1.length,
        store buf rcvd (gather (msgSize - rcvd) attempts reads).1,
        (gather (msgSize - rcvd) attempts reads).2⟩ := by
  induction attempts generalizing rcvd buf reads with
  | zero => simp only [receiveLoop, gather, List.length_nil, Nat.add_zero, store_nil]
  | succ attempts ih =>
    obtain ⟨outcome, reads, rfl⟩ := List.exists_cons_of_length_pos (Nat.zero_lt_of_lt hreads)
    rw [List.length_cons, Nat.add_le_add_iff_right] at hreads
    -- a call that stores nothing
    have hnothing : ∀ n, Model.read (msgSize - rcvd) (outcome :: reads) = some ⟨n, [], reads⟩ →
        gather (msgSize - rcvd) (attempts + 1) (outcome :: reads) =
          gather (msgSize - rcvd) attempts reads →
        receiveLoop msgSize (attempts + 1) ⟨rcvd, buf, outcome :: reads⟩ =
          some ⟨rcvd + (gather (msgSize - rcvd) (attempts + 1) (outcome :: reads)).1.length,
            store buf rcvd (gather (msgSize - rcvd) (attempts + 1) (outcome :: reads)).1,
            (gather (msgSize - rcvd) (attempts + 1) (outcome :: reads)).2⟩ := by
      intro n hread hgather
      have hloop : receiveLoop msgSize (attempts + 1) ⟨rcvd, buf, outcome :: reads⟩ = _ :=
        receiveLoop_succ hread
      simp only [List.length_nil, Nat.add_zero, store_nil, if_pos hneed] at hloop
      rw [hloop, hgather, ih hbuf hneed hreads]
    cases outcome with
    | eof => exact hnothing 0 rfl rfl
    | error => exact hnothing (-1) rfl rfl
    | data bytes =>
      rcases Nat.lt_trichotomy bytes.length (msgSize - rcvd) with hlt | heq | hgt
      · have hsub : msgSize - rcvd - bytes.length = msgSize - (rcvd + bytes.length) := by omega
        rw [receiveLoop_short _ hlt,
          ih (by rw [length_store (by omega)]; exact hbuf) (by omega) hreads]
        simp only [gather, if_pos hlt, hsub]
        rw [store_store (by omega), List.length_append, Nat.add_assoc]
      · have hread : Model.read (msgSize - rcvd) (.data bytes :: reads) =
            some ⟨bytes.length, bytes, reads⟩ := by
          simp [Model.read, ← heq]
        have hloop : receiveLoop msgSize (attempts + 1) ⟨rcvd, buf, .data bytes :: reads⟩ = _ :=
          receiveLoop_succ hread
        rw [hloop, if_neg (by simp only; omega)]
        simp only [gather, heq, Nat.lt_irrefl, if_false, if_true]
      · have hread : Model.read (msgSize - rcvd) (.data bytes :: reads) =
            some ⟨((bytes.take (msgSize - rcvd)).length : ℕ), bytes.take (msgSize - rcvd),
              .data (bytes.drop (msgSize - rcvd)) :: reads⟩ := by
          simp only [Model.read, if_neg (Nat.not_le.mpr hgt)]
        have hloop : receiveLoop msgSize (attempts + 1) ⟨rcvd, buf, .data bytes :: reads⟩ = _ :=
          receiveLoop_succ hread
        have hfull : rcvd + (bytes.take (msgSize - rcvd)).length = msgSize := by
          rw [List.length_take_of_le (Nat.le_of_lt hgt)]
          omega
        rw [hloop, if_neg (by simp only [hfull]; omega)]
        simp only [gather, if_neg (Nat.not_lt.mpr (Nat.le_of_lt hgt)),
          if_neg (Nat.ne_of_gt hgt)]

/-- What a call of `receive_message` leaves in the buffer when the stream ends behind the listed
outcomes. -/
theorem receiveMessage_gather {buf : List UInt8} {msgSize : ℕ} (reads : List ReadOutcome)
    (hbuf : msgSize = buf.length) (hsize : 0 < msgSize) (j : ℕ) :
    ∃ (r : Received) (k : ℕ), receiveMessage buf msgSize (reads ++
        List.replicate j ReadOutcome.eof ++ List.replicate readAttemptsMaxCount ReadOutcome.eof) =
          some r ∧
      r.buf = (gather msgSize readAttemptsMaxCount reads).1 ++
        buf.drop (gather msgSize readAttemptsMaxCount reads).1.length ∧
      r.reads = (gather msgSize readAttemptsMaxCount reads).2 ++
        List.replicate k ReadOutcome.eof := by
  obtain ⟨k, hk⟩ := gather_append_eof msgSize readAttemptsMaxCount reads (j + readAttemptsMaxCount)
  have henough : readAttemptsMaxCount ≤
      (reads ++ List.replicate (j + readAttemptsMaxCount) ReadOutcome.eof).length := by
    rw [List.length_append, List.length_replicate]
    omega
  have hloop : receiveLoop msgSize readAttemptsMaxCount
      ⟨0, buf, reads ++ List.replicate (j + readAttemptsMaxCount) .eof⟩ = _ :=
    receiveLoop_gather (Nat.le_of_eq hbuf) hsize henough
  rw [Nat.sub_zero, hk] at hloop
  rw [List.append_assoc, List.replicate_append_replicate]
  refine ⟨_, k, hloop, ?_, rfl⟩
  simp [store]

end Comp30023.Interface
