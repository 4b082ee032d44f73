import Comp30023.Interface.MessageCodec
import Comp30023.Interface.MessageSession
import Comp30023.Library.Outcome

/-!
# The client when the server goes away

The loop of the client is left behind a message that ends the game. A `receive_message` that
meets the end of the stream comes back with what there is, and the client, which does not look
at what it returns, takes a buffer of zeros for a message of no type and goes round again. A
message that fills the buffer may have no end in it; then `printf` or `strcspn` goes on behind the
buffer. So the loop ends if the client comes to a message that ends the game, and the messages
before it stay within the buffer.
-/

set_option autoImplicit false

namespace Comp30023.Analysis

open Comp30023.Library Comp30023.Model Comp30023.Interface

variable {reads : List ReadOutcome} {s : ClientLoop}

/-- The types of the messages that end the game.
SOURCE: client.c:108-122 -/
def endingTypes : List GpMessageType := [.gameSucc, .gameFail, .servFull]

/-- The types of the messages whose payload is printed.
SOURCE: client.c:86-89, 104-107 -/
def printedTypes : List GpMessageType := [.dispMsg, .guessFbk]

/-- The types of the messages that the client answers.
SOURCE: client.c:90-103 -/
def promptTypes : List GpMessageType := [.guessReq, .guessInv]

/-- The message begins with the header of one of these types. -/
def BeginsWith (types : List GpMessageType) (message : List UInt8) : Prop :=
  ∃ msgType ∈ types, msgType.header <+: message

instance (types : List GpMessageType) (message : List UInt8) :
    Decidable (BeginsWith types message) :=
  inferInstanceAs (Decidable (∃ msgType ∈ types, _))

/-- The next message of the stream: it is put together from no more than `gpSize` bytes and no
more than `readAttemptsMaxCount` calls of `read()`. -/
def nextMessage (reads : List ReadOutcome) : List UInt8 :=
  (gather gpSize readAttemptsMaxCount reads).1

/-- What is to come behind it. -/
def readsBehind (reads : List ReadOutcome) : List ReadOutcome :=
  (gather gpSize readAttemptsMaxCount reads).2

/-- The client stays within its buffer with this message: there is room for a terminator behind it,
or its payload has one in it if it is printed, and if it is answered, there is still a line to be
read, or the message has a line break or a terminator in it. -/
def StaysInside (stdin message : List UInt8) : Prop :=
  message.length < gpSize ∨
    (BeginsWith printedTypes message → 0 ∈ message.drop gpHeaderSize) ∧
    (BeginsWith promptTypes message → stdin ≠ [] ∨ HasLineEnd message)

/-- What is left of standard input behind this message. -/
def stdinBehind (stdin message : List UInt8) : List UInt8 :=
  if BeginsWith promptTypes message then ((fgets gpSize stdin).map Prod.snd).getD stdin else stdin

/-- One of the messages into which the stream is cut begins with the header of a message that ends
the game, and the client stays within its buffer with all messages before it. -/
inductive ComesToEnd : List ReadOutcome → List UInt8 → Prop
  | here {reads : List ReadOutcome} {stdin : List UInt8}
      (hend : BeginsWith endingTypes (nextMessage reads)) : ComesToEnd reads stdin
  | later {reads : List ReadOutcome} {stdin : List UInt8}
      (hinside : StaysInside stdin (nextMessage reads))
      (h : ComesToEnd (readsBehind reads) (stdinBehind stdin (nextMessage reads))) :
      ComesToEnd reads stdin

/-- The loop of the client is left, or the client is stopped by `SIGPIPE`. -/
def ClientEnds (reads : List ReadOutcome) (writes : List WriteOutcome) (stdin : List UInt8) :
    Prop :=
  (∃ s, Exits clientPass (ClientLoop.initial reads writes stdin) s) ∨
    Faults clientPass (ClientLoop.initial reads writes stdin) .sigpipe

/-! ## Headers -/

/-- INTERNAL: a text that compares equal over the whole of another begins with it. -/
theorem prefix_of_strncmp {text t : List UInt8} (ht : 0 ∉ t)
    (h : strncmp t.length text t = 0) : t <+: text := by
  induction t generalizing text with
  | nil => exact List.nil_prefix
  | cons c t ih =>
    rw [List.mem_cons, not_or] at ht
    rw [List.length_cons] at h
    by_cases hne : text.headD 0 = c
    · have hzero : ¬ text.headD 0 = 0 := fun hzero => ht.1 (hzero.symm.trans hne)
      simp only [strncmp, List.headD_cons, hne, ne_eq, not_true_eq_false, if_false,
        hne ▸ hzero, List.tail_cons] at h
      cases text with
      | nil => exact absurd rfl hzero
      | cons d text =>
        obtain rfl : d = c := hne
        rw [List.cons_prefix_cons]
        exact ⟨rfl, ih ht.2 h⟩
    · have hdiffer : (text.headD 0).toNat ≠ c.toNat := fun heq => hne (UInt8.toNat_inj.mp heq)
      simp only [strncmp, List.headD_cons, ne_eq, hne, not_false_eq_true, if_true] at h
      omega

/-- INTERNAL: a header has no zeros in it. -/
theorem zero_not_mem_header (msgType : GpMessageType) : 0 ∉ msgType.header := by
  cases msgType <;> decide

/-- INTERNAL: the type of a message that is followed by zeros.
SOURCE: client.c:86-118 -/
theorem headerType_padded (message : List UInt8) (k : ℕ) (msgType : GpMessageType) :
    headerType (message ++ List.replicate k 0) = some msgType ↔ msgType.header <+: message := by
  have hzero := zero_not_mem_header msgType
  constructor
  · intro h
    have hcompare : strncmp msgType.header.length (message ++ List.replicate k 0)
        msgType.header = 0 := by
      have := List.find?_some h
      rwa [decide_eq_true_eq, ← length_header msgType] at this
    have hheader := prefix_of_strncmp hzero hcompare
    -- no zero behind the message is part of the header
    rcases List.prefix_or_prefix_of_prefix hheader (List.prefix_append message _) with
      hshort | ⟨zeros, heq⟩
    · exact hshort
    · cases zeros with
      | nil =>
        have hwhole : msgType.header = message := by rw [← heq, List.append_nil]
        exact hwhole ▸ List.prefix_refl message
      | cons c zeros =>
        rw [← heq, List.prefix_append_right_inj] at hheader
        obtain rfl : c = 0 := List.eq_of_mem_replicate (hheader.subset List.mem_cons_self)
        exact absurd (heq ▸ by simp) hzero
  · rintro ⟨rest, rfl⟩
    rw [List.append_assoc]
    exact headerType_header msgType _

/-- INTERNAL: the types of a message in the buffer. -/
theorem beginsWith_iff (types : List GpMessageType) (message : List UInt8) (k : ℕ) :
    BeginsWith types message ↔
      ∃ msgType ∈ types, headerType (message ++ List.replicate k 0) = some msgType := by
  simp only [BeginsWith, headerType_padded]

/-- INTERNAL: the types of a message that is of no type that ends the game.
SOURCE: client.c:86-118 -/
theorem headerType_cases {message : List UInt8} {k : ℕ} (hother : ¬ BeginsWith endingTypes message) :
    (∃ msgType ∈ printedTypes, headerType (message ++ List.replicate k 0) = some msgType) ∨
      (∃ msgType ∈ promptTypes, headerType (message ++ List.replicate k 0) = some msgType) ∨
        headerType (message ++ List.replicate k 0) = none := by
  rw [beginsWith_iff endingTypes message k] at hother
  cases htype : headerType (message ++ List.replicate k 0) with
  | none => exact Or.inr (Or.inr rfl)
  | some msgType =>
    rw [htype] at hother
    cases msgType with
    | servFull => exact absurd ⟨_, by decide, rfl⟩ hother
    | gameSucc => exact absurd ⟨_, by decide, rfl⟩ hother
    | gameFail => exact absurd ⟨_, by decide, rfl⟩ hother
    | dispMsg => exact Or.inl ⟨_, by decide, rfl⟩
    | guessFbk => exact Or.inl ⟨_, by decide, rfl⟩
    | guessReq => exact Or.inr (Or.inl ⟨_, by decide, rfl⟩)
    | guessInv => exact Or.inr (Or.inl ⟨_, by decide, rfl⟩)

/-- INTERNAL: a message has one type.
SOURCE: client.c:86-118 -/
theorem not_beginsWith {message : List UInt8} {k : ℕ} {types : List GpMessageType}
    {msgType : GpMessageType} (htype : headerType (message ++ List.replicate k 0) = some msgType)
    (hmem : msgType ∉ types) : ¬ BeginsWith types message := by
  rw [beginsWith_iff types message k]
  rintro ⟨msgType', hmem', htype'⟩
  rw [htype, Option.some.injEq] at htype'
  exact hmem (htype' ▸ hmem')

/-! ## One pass -/

/-- INTERNAL: a message that ends the game.
SOURCE: client.c:108-124 -/
theorem handleMessage_end {client : Client} {msgType : GpMessageType} (stdin : List UInt8)
    (hmem : msgType ∈ endingTypes) (htype : headerType client.buffer = some msgType) :
    ∃ client', handleMessage stdin client = .ok (client', stdin, none) ∧
      client'.isEndGame = true := by
  simp only [endingTypes, List.mem_cons, List.not_mem_nil, or_false] at hmem
  rcases hmem with rfl | rfl | rfl
  all_goals
    simp only [handleMessage, handleByHeader, htype, bind, Except.bind]
    exact ⟨_, rfl, rfl⟩

section Buffer

variable {message : List UInt8} {k : ℕ}

/-- INTERNAL: where the payload in the buffer ends.
SOURCE: client.c:84 -/
theorem payload_ends_iff (hsize : message.length + k = gpSize) :
    0 ∈ (message ++ List.replicate k 0).drop gpHeaderSize ↔
      message.length < gpSize ∨ 0 ∈ message.drop gpHeaderSize := by
  have hheader : gpHeaderSize < gpSize := by decide
  rw [List.drop_append, List.mem_append, List.drop_replicate, List.mem_replicate, or_comm]
  refine or_congr ?_ Iff.rfl
  simp only [ne_eq, and_true]
  omega

/-- INTERNAL: where the line in the buffer ends.
SOURCE: client.c:84 -/
theorem hasLineEnd_iff (hsize : message.length + k = gpSize) :
    HasLineEnd (message ++ List.replicate k 0) ↔
      message.length < gpSize ∨ HasLineEnd message := by
  constructor
  · rintro ⟨c, hc, hends⟩
    rcases List.mem_append.mp hc with hc | hc
    · exact Or.inr ⟨c, hc, hends⟩
    · have hpos := List.length_pos_of_mem hc
      rw [List.length_replicate] at hpos
      exact Or.inl (by omega)
  · rintro (hlt | ⟨c, hc, hends⟩)
    · have hk : k ≠ 0 := by omega
      exact ⟨0, List.mem_append_right _ (List.mem_replicate.mpr ⟨hk, rfl⟩), Or.inl rfl⟩
    · exact ⟨c, List.mem_append_left _ hc, hends⟩

variable {client : Client}

/-- INTERNAL: any other message with which the client stays within its buffer.
SOURCE: client.c:86-107, 124 -/
theorem handleMessage_inside {stdin : List UInt8}
    (hbuffer : client.buffer = message ++ List.replicate k 0)
    (hsize : message.length + k = gpSize) (hother : ¬ BeginsWith endingTypes message)
    (hinside : StaysInside stdin message) :
    ∃ client' sent, handleMessage stdin client = .ok (client', stdinBehind stdin message, sent) ∧
      client'.isEndGame = client.isEndGame ∧ client'.buffer = List.replicate gpSize 0 := by
  have hlength : client.buffer.length = gpSize := by
    rw [hbuffer, List.length_append, List.length_replicate, hsize]
  rcases headerType_cases (k := k) hother with ⟨msgType, hmem, htype⟩ | ⟨msgType, hmem, htype⟩ | htype
  · have hprinted : BeginsWith printedTypes message :=
      (beginsWith_iff _ message k).mpr ⟨msgType, hmem, htype⟩
    have hends : 0 ∈ client.buffer.drop gpHeaderSize := by
      rw [hbuffer, payload_ends_iff hsize]
      exact hinside.imp_right fun h => h.1 hprinted
    have hpayload : payloadOf client.buffer = .ok (cString (client.buffer.drop gpHeaderSize)) :=
      if_pos hends
    have hstdin : stdinBehind stdin message = stdin := by
      refine if_neg (not_beginsWith htype ?_)
      intro hprompt
      simp only [printedTypes, promptTypes, List.mem_cons, List.not_mem_nil, or_false] at hmem hprompt
      rcases hmem with rfl | rfl <;> simp at hprompt
    rw [← hbuffer] at htype
    simp only [printedTypes, List.mem_cons, List.not_mem_nil, or_false] at hmem
    rcases hmem with rfl | rfl
    all_goals
      simp only [handleMessage, handleByHeader, htype, hpayload, hstdin, bind, Except.bind]
      exact ⟨_, _, rfl, rfl, rfl⟩
  · have hprompt : BeginsWith promptTypes message :=
      (beginsWith_iff _ message k).mpr ⟨msgType, hmem, htype⟩
    have hline : stdin ≠ [] ∨ HasLineEnd client.buffer := by
      rw [hbuffer, hasLineEnd_iff hsize]
      rcases hinside with hlt | h
      · exact Or.inr (Or.inl hlt)
      · exact (h.2 hprompt).imp_right Or.inr
    obtain ⟨guess, -, hread⟩ := readGuess_ok stdin hlength hline
    have hstdin : stdinBehind stdin message = ((fgets gpSize stdin).map Prod.snd).getD stdin :=
      if_pos hprompt
    rw [← hbuffer] at htype
    simp only [promptTypes, List.mem_cons, List.not_mem_nil, or_false] at hmem
    rcases hmem with rfl | rfl
    all_goals
      simp only [handleMessage, handleByHeader, htype, hread, hstdin, bind, Except.bind]
      exact ⟨_, _, rfl, rfl, rfl⟩
  · have hstdin : stdinBehind stdin message = stdin := by
      refine if_neg ?_
      rw [beginsWith_iff _ message k, htype]
      simp
    rw [← hbuffer] at htype
    simp only [handleMessage, handleByHeader, htype, hstdin, bind, Except.bind]
    exact ⟨_, _, rfl, rfl, rfl⟩

/-- INTERNAL: any other message with which it does not.
SOURCE: client.c:86-107 -/
theorem handleMessage_outside {stdin : List UInt8}
    (hbuffer : client.buffer = message ++ List.replicate k 0)
    (hsize : message.length + k = gpSize) (hother : ¬ BeginsWith endingTypes message)
    (houtside : ¬ StaysInside stdin message) :
    handleMessage stdin client = .error .indexOutOfRange := by
  rw [StaysInside, not_or] at houtside
  obtain ⟨hfull, houtside⟩ := houtside
  rcases headerType_cases (k := k) hother with ⟨msgType, hmem, htype⟩ | ⟨msgType, hmem, htype⟩ | htype
  · have hnotPrompt : ¬ BeginsWith promptTypes message := by
      refine not_beginsWith htype ?_
      intro hprompt
      simp only [printedTypes, promptTypes, List.mem_cons, List.not_mem_nil, or_false] at hmem hprompt
      rcases hmem with rfl | rfl <;> simp at hprompt
    have hends : 0 ∉ client.buffer.drop gpHeaderSize := by
      rw [hbuffer, payload_ends_iff hsize, not_or]
      exact ⟨hfull, fun hzero => houtside ⟨fun _ => hzero, fun h => absurd h hnotPrompt⟩⟩
    have hpayload : payloadOf client.buffer = .error .indexOutOfRange := if_neg hends
    rw [← hbuffer] at htype
    simp only [printedTypes, List.mem_cons, List.not_mem_nil, or_false] at hmem
    rcases hmem with rfl | rfl
    all_goals
      simp only [handleMessage, handleByHeader, htype, hpayload, bind, Except.bind]
  · have hnotPrinted : ¬ BeginsWith printedTypes message := by
      refine not_beginsWith htype ?_
      intro hprinted
      simp only [printedTypes, promptTypes, List.mem_cons, List.not_mem_nil, or_false] at hmem hprinted
      rcases hmem with rfl | rfl <;> simp at hprinted
    have hnone : ¬ (stdin ≠ [] ∨ HasLineEnd message) := fun h =>
      houtside ⟨fun hprinted => absurd hprinted hnotPrinted, fun _ => h⟩
    rw [not_or, not_not] at hnone
    obtain ⟨rfl, hline⟩ := hnone
    have hread : readGuess [] client.buffer = .error .indexOutOfRange := by
      refine readGuess_error ?_
      rw [hbuffer, hasLineEnd_iff hsize, not_or]
      exact ⟨hfull, hline⟩
    rw [← hbuffer] at htype
    simp only [promptTypes, List.mem_cons, List.not_mem_nil, or_false] at hmem
    rcases hmem with rfl | rfl
    all_goals
      simp only [handleMessage, handleByHeader, htype, hread, bind, Except.bind]
  · refine absurd ⟨?_, ?_⟩ houtside
    all_goals
      rw [beginsWith_iff _ message k, htype]
      simp

end Buffer

/-- The client is at the top of its loop, and these reads are to come before the stream ends. -/
structure AtTop (s : ClientLoop) (reads : List ReadOutcome) : Prop where
  buffer : s.client.buffer = List.replicate gpSize 0
  goesOn : s.client.isEndGame = false
  reads : ∃ j, s.reads = reads ++ List.replicate j .eof

/-- INTERNAL: the call of `receive_message` comes back with the next message of the stream.
SOURCE: client.c:84 -/
theorem AtTop.receive (h : AtTop s reads) :
    ∃ (r : Received) (j k : ℕ), receiveMessage s.client.buffer gpSize
        (s.reads ++ List.replicate readAttemptsMaxCount ReadOutcome.eof) = some r ∧
      r.buf = nextMessage reads ++ List.replicate k (0 : UInt8) ∧
      (nextMessage reads).length + k = gpSize ∧
      r.reads = readsBehind reads ++ List.replicate j ReadOutcome.eof := by
  obtain ⟨i, hreads⟩ := h.reads
  have hsize : gpSize = s.client.buffer.length := by
    rw [h.buffer, List.length_replicate]
  obtain ⟨r, j, hreceive, hbuf, hrest⟩ := receiveMessage_gather reads hsize (by decide) i
  rw [h.buffer, List.drop_replicate] at hbuf
  exact ⟨r, j, _, by rw [hreads]; exact hreceive, hbuf,
    Nat.add_sub_cancel' (length_gather_le _ _ _), hrest⟩

/-- INTERNAL: the loop is left behind a message that ends the game.
SOURCE: client.c:82-125 -/
theorem AtTop.exits (h : AtTop s reads) (hend : BeginsWith endingTypes (nextMessage reads)) :
    ∃ s', Exits clientPass s s' := by
  obtain ⟨r, j, k, hreceive, hbuf, -⟩ := h.receive
  obtain ⟨msgType, hmem, hheader⟩ := hend
  have htype : headerType ({ s.client with buffer := r.buf } : Client).buffer = some msgType := by
    rw [hbuf]
    exact (headerType_padded _ k msgType).mpr hheader
  obtain ⟨client', hhandle, hend⟩ := handleMessage_end s.stdin hmem htype
  refine ⟨⟨client', r.reads, s.writes, s.stdin⟩, exits_of_again (t := ⟨client', r.reads, s.writes,
    s.stdin⟩) ?_ (exits_of_done ?_)⟩
  · unfold clientPass
    rw [if_neg (by simp [h.goesOn]), hreceive]
    simp only [hhandle]
  · simp only [clientPass, hend, if_true]

/-- INTERNAL: behind any other message the client goes round again, if `SIGPIPE` does not stop
it and it stays within its buffer.
SOURCE: client.c:82-125 -/
theorem AtTop.again (h : AtTop s reads) (hother : ¬ BeginsWith endingTypes (nextMessage reads))
    (hinside : StaysInside s.stdin (nextMessage reads)) :
    (clientPass s = .error .sigpipe ∧ s.writes ≠ []) ∨
      ∃ s', clientPass s = .ok (.again s') ∧ AtTop s' (readsBehind reads) ∧
        s'.stdin = stdinBehind s.stdin (nextMessage reads) ∧ (s.writes = [] → s'.writes = []) := by
  obtain ⟨r, j, k, hreceive, hbuf, hsize, hrest⟩ := h.receive
  have hbuffer : ({ s.client with buffer := r.buf } : Client).buffer =
      nextMessage reads ++ List.replicate k 0 := hbuf
  obtain ⟨client', sent, hhandle, hgoes, hzeros⟩ :=
    handleMessage_inside hbuffer hsize hother hinside
  unfold clientPass
  rw [if_neg (by simp [h.goesOn]), hreceive]
  simp only [hhandle]
  cases sent with
  | none => exact Or.inr ⟨_, rfl, ⟨hzeros, hgoes.trans h.goesOn, j, hrest⟩, rfl, id⟩
  | some message =>
    dsimp only
    split
    case isTrue hlost =>
      refine Or.inl ⟨rfl, ?_⟩
      intro hnil
      rw [hnil, sendMessage_nil] at hlost
      cases hlost
    case isFalse =>
      refine Or.inr ⟨_, rfl, ⟨hzeros, hgoes.trans h.goesOn, j, hrest⟩, rfl, ?_⟩
      intro hnil
      rw [hnil, sendMessage_nil]

/-- INTERNAL: the client goes on behind its buffer.
SOURCE: client.c:82-107 -/
theorem AtTop.outside (h : AtTop s reads) (hother : ¬ BeginsWith endingTypes (nextMessage reads))
    (houtside : ¬ StaysInside s.stdin (nextMessage reads)) :
    clientPass s = .error .indexOutOfRange := by
  obtain ⟨r, j, k, hreceive, hbuf, hsize, -⟩ := h.receive
  have hbuffer : ({ s.client with buffer := r.buf } : Client).buffer =
      nextMessage reads ++ List.replicate k 0 := hbuf
  have hhandle := handleMessage_outside hbuffer hsize hother houtside
  unfold clientPass
  rw [if_neg (by simp [h.goesOn]), hreceive]
  simp only [hhandle]

/-! ## Whole runs -/

/-- INTERNAL: the run up to the first message that ends the game.
SOURCE: client.c:82-125 -/
theorem AtTop.ends (hcomes : ComesToEnd reads s.stdin) (h : AtTop s reads) :
    (∃ s', Exits clientPass s s') ∨ Faults clientPass s .sigpipe := by
  generalize hstdin : s.stdin = stdin at hcomes
  induction hcomes generalizing s with
  | here hend => exact Or.inl (h.exits hend)
  | @later reads stdin hinside hcomes ih =>
    by_cases hend : BeginsWith endingTypes (nextMessage reads)
    · exact Or.inl (h.exits hend)
    · subst hstdin
      rcases h.again hend hinside with ⟨hkilled, -⟩ | ⟨s₁, hagain, h₁, hleft, -⟩
      · exact Or.inr (faults_of_error hkilled)
      · rcases ih h₁ hleft with ⟨s', hexits⟩ | hfaults
        · exact Or.inl ⟨s', exits_of_again hagain hexits⟩
        · exact Or.inr (faults_of_again hagain hfaults)

/-- The client is at the top of its loop, nothing stops a write, and no message that ends the game
is to come. -/
def Stranded (s : ClientLoop) : Prop :=
  ∃ reads, AtTop s reads ∧ ¬ ComesToEnd reads s.stdin ∧ s.writes = []

/-- INTERNAL: then the client goes round again, or goes on behind its buffer.
SOURCE: client.c:82-125 -/
theorem Stranded.pass (h : Stranded s) :
    (∃ t, clientPass s = .ok (.again t) ∧ Stranded t) ∨
      clientPass s = .error .indexOutOfRange := by
  obtain ⟨reads, htop, hcomes, hwrites⟩ := h
  have hother : ¬ BeginsWith endingTypes (nextMessage reads) := fun hend => hcomes (.here hend)
  by_cases hinside : StaysInside s.stdin (nextMessage reads)
  · rcases htop.again hother hinside with ⟨-, hne⟩ | ⟨t, hagain, ht, hleft, hnil⟩
    · exact absurd hwrites hne
    · refine Or.inl ⟨t, hagain, readsBehind reads, ht, ?_, hnil hwrites⟩
      rw [hleft]
      exact fun hlater => hcomes (.later hinside hlater)
  · exact Or.inr (htop.outside hother hinside)

/-- INTERNAL: the client does not end.
SOURCE: client.c:82-125 -/
theorem not_clientEnds {stdin : List UInt8} (hcomes : ¬ ComesToEnd reads stdin) :
    ¬ ClientEnds reads [] stdin := by
  have hstranded : Stranded (ClientLoop.initial reads [] stdin) :=
    ⟨reads, ⟨rfl, rfl, 0, by simp [ClientLoop.initial]⟩, hcomes, rfl⟩
  have hgoes := fun n => again_or_faults (fun _ h => Stranded.pass h) n hstranded
  rintro (⟨s, n, hn⟩ | ⟨n, hn⟩)
  · rcases hgoes n with ⟨t, ht⟩ | hfault
    · rw [ht] at hn
      cases hn
    · rw [hfault] at hn
      cases hn
  · rcases hgoes n with ⟨t, ht⟩ | hfault
    · rw [ht] at hn
      cases hn
    · rw [hfault] at hn
      cases hn

/-- **When the client stops.** For everything that the reads of the client can meet before the
stream ends, and for every input of the user: the loop of the client terminates, whatever its
writes meet, if and only if one of the messages into which the stream is cut begins with
`SUCCESS`, `FAILURE` or `SERVFUL`, and the client stays within its buffer with the messages before
it.
SOURCE: client.c:82-125, message-helpers.c:19-42 -/
theorem client_ends_iff (reads : List ReadOutcome) (stdin : List UInt8) :
    (∀ writes, ClientEnds reads writes stdin) ↔ ComesToEnd reads stdin := by
  constructor
  · intro hends
    by_contra hcomes
    exact not_clientEnds hcomes (hends [])
  · intro hcomes writes
    exact AtTop.ends hcomes ⟨rfl, rfl, 0, by simp [ClientLoop.initial]⟩

/-- INTERNAL: behind the end of the stream there is no message that ends the game. -/
theorem not_comesToEnd_nil (stdin : List UInt8) : ¬ ComesToEnd [] stdin := by
  intro h
  generalize hreads : ([] : List ReadOutcome) = reads at h
  induction h with
  | here hend =>
    subst hreads
    exact absurd hend (by decide)
  | later _ _ ih =>
    subst hreads
    exact ih rfl

/-- The server closes the connection before it has sent anything: the client does not stop.
SOURCE: client.c:82-125 -/
theorem client_goes_on_without_server : ¬ ClientEnds [] [] [] :=
  not_clientEnds (not_comesToEnd_nil [])

end Comp30023.Analysis
