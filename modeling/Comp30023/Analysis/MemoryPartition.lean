import Comp30023.Analysis.FreeListNormalForm

/-!
# Every operation keeps the partition

One lemma for each way the two lists change: a new process memory (in disk), a
process memory that gives its addresses back, one that leaves the list, and one that
takes addresses from the free list. The last section reads off the partition what
the rest of the development needs: where a process memory lies, and that a main
memory without process memories is one segment.
-/

set_option autoImplicit false

namespace Comp30023.Analysis

open Comp30023.Library Comp30023.Model Comp30023.Interface

/-! ## The process memory to swap out -/

/-- INTERNAL: the comparison loop returns its first candidate or a process memory of
the list that is not in disk.
SOURCE: memory-management.c:425-443 -/
theorem selectSwapOut_mem (best : ProcessMemory) (l : List ProcessMemory) :
    selectSwapOut best l = best ∨ selectSwapOut best l ∈ residents l := by
  induction l generalizing best with
  | nil => exact Or.inl rfl
  | cons p rest ih =>
    unfold selectSwapOut
    by_cases hdisk : isProcessMemoryInDisk p = true
    · rw [if_pos hdisk, residents_cons_inDisk hdisk]
      exact ih best
    · have hres : isProcessMemoryInDisk p = false := by simpa using hdisk
      rw [if_neg hdisk, residents_cons_resident hres]
      have hreplace : selectSwapOut p rest = best ∨ selectSwapOut p rest ∈ p :: residents rest := by
        rcases ih p with h | h
        · exact Or.inr (by rw [h]; exact List.mem_cons_self)
        · exact Or.inr (List.mem_cons_of_mem _ h)
      split_ifs
      · exact hreplace
      · exact hreplace
      · rcases ih best with h | h
        · exact Or.inl h
        · exact Or.inr (List.mem_cons_of_mem _ h)

/-- INTERNAL: the process memory to swap out is on the list and not in disk.
SOURCE: memory-management.c:410-443 -/
theorem findSwapOut_mem {l : List ProcessMemory} {p : ProcessMemory}
    (h : findSwapOut l = some p) : p ∈ residents l := by
  induction l with
  | nil => simp [findSwapOut] at h
  | cons q rest ih =>
    unfold findSwapOut at h
    by_cases hdisk : isProcessMemoryInDisk q = true
    · rw [if_pos hdisk] at h
      rw [residents_cons_inDisk hdisk]
      exact ih h
    · have hres : isProcessMemoryInDisk q = false := by simpa using hdisk
      rw [if_neg hdisk, Option.some.injEq] at h
      subst h
      rcases selectSwapOut_mem q (q :: rest) with h | h
      · rw [h, residents_cons_resident hres]
        exact List.mem_cons_self
      · exact h

/-- INTERNAL: there is none exactly when every process memory is in disk.
SOURCE: memory-management.c:410-443 -/
theorem findSwapOut_eq_none {l : List ProcessMemory} :
    findSwapOut l = none ↔ residents l = [] := by
  induction l with
  | nil => simp [findSwapOut, residents]
  | cons q rest ih =>
    unfold findSwapOut
    by_cases hdisk : isProcessMemoryInDisk q = true
    · rw [if_pos hdisk, residents_cons_inDisk hdisk]
      exact ih
    · have hres : isProcessMemoryInDisk q = false := by simpa using hdisk
      rw [if_neg hdisk, residents_cons_resident hres]
      simp

/-! ## The operations -/

/-- The fresh lists are a partition.
SOURCE: memory-management.c:17-48, 181-197 -/
theorem partition_newMemory {M : ℤ} (hM : 1 ≤ M) : Partition M (newMemory M) where
  coalesced := by
    refine ⟨List.isChain_singleton _, fun s hs => ?_⟩
    simp only [freeSpans, newMemory, newFreeMemorySegmentsList, List.map_cons, List.map_nil,
      List.mem_singleton] at hs
    rw [hs]
    exact hM
  exact := by
    intro x
    simp only [freeSpans, residentSpans, newMemory, newFreeMemorySegmentsList, residents,
      List.map_cons, List.map_nil, List.filter_nil, depth_cons, depth_nil, segmentSpan,
      Span.mem_points, Span.bottom]
    split_ifs <;> omega
  sizes := by simp [newMemory]
  pointers := by simp [newMemory]
  allocated := by simp [newMemory]

/-- A new process memory starts in disk and claims no address.
SOURCE: memory-management.c:199-255 -/
theorem partition_addNew {M : ℤ} {m : Memory} (hP : Partition M m) {size : ℤ} (hsize : 1 ≤ size)
    (processId : ℤ) : Partition M (addNewProcessMemoryToProcessMemoriesList size processId m) := by
  have hres : residentSpans (addNewProcessMemoryToProcessMemoriesList size processId m) =
      residentSpans m := by
    simp [residentSpans, addNewProcessMemoryToProcessMemoriesList, newProcessMemory,
      addProcessMemoryToProcessMemoriesList, residents, isProcessMemoryInDisk]
  refine ⟨hP.coalesced, fun x => ?_, ?_, ?_, ?_⟩
  · rw [hres]
    exact hP.exact x
  · intro p hp
    rcases List.mem_append.mp hp with hp | hp
    · exact hP.sizes p hp
    · rw [List.mem_singleton.mp hp]
      exact hsize
  · show ((m.procMems ++ [_]).map ProcessMemory.ptr).Nodup
    rw [List.map_append, List.nodup_append]
    refine ⟨hP.pointers, by simp, ?_⟩
    intro a ha b hb hab
    obtain ⟨p, hp, rfl⟩ := List.mem_map.mp ha
    have hlt := hP.allocated p hp
    have hb' : b = m.allocated := by simpa [newProcessMemory] using hb
    omega
  · intro p hp
    rcases List.mem_append.mp hp with hp | hp
    · have := hP.allocated p hp
      show p.ptr < m.allocated + 1
      omega
    · rw [List.mem_singleton.mp hp]
      show m.allocated < m.allocated + 1
      omega

/-- INTERNAL: the addresses of a process memory in main memory are not free. -/
theorem partition_free_eq_zero {M : ℤ} {m : Memory} (hP : Partition M m) {p : ProcessMemory}
    (hp : p ∈ residents m.procMems) {x : ℤ} (hx : x ∈ (processSpan p).points) :
    depth (freeSpans m) x = 0 := by
  have hpos := depth_pos_iff.mpr ⟨processSpan p, List.mem_map_of_mem hp, hx⟩
  have hex := hP.exact x
  unfold residentSpans at hex
  split at hex <;> omega

/-- INTERNAL: giving the addresses of `p` back to the free list while the list of process
memories loses `p`, in whatever way, keeps every address in exactly one place. -/
theorem partition_exact_release {M : ℤ} {m : Memory} (hP : Partition M m) {p : ProcessMemory}
    {l₁ l₂ : List ProcessMemory} (hl : m.procMems = l₁ ++ p :: l₂)
    (hres : isProcessMemoryInDisk p = false) :
    Coalesced ((addNewFreeMemorySegmentToFreeMemorySegmentsList p.startAddress p.size
      m.memSegs).map segmentSpan) ∧
    ∀ x, depth ((addNewFreeMemorySegmentToFreeMemorySegmentsList p.startAddress p.size
        m.memSegs).map segmentSpan) x + depth ((residents (l₁ ++ l₂)).map processSpan) x =
      if 1 ≤ x ∧ x ≤ M then 1 else 0 := by
  have hmem : p ∈ m.procMems := by simp [hl]
  obtain ⟨hco, hdepth⟩ := addNewFreeMemorySegment_spec p.startAddress p.size m.memSegs
    hP.coalesced (hP.sizes p hmem)
    (fun x hx => partition_free_eq_zero hP (mem_residents.mpr ⟨hmem, hres⟩) hx)
  refine ⟨hco, fun x => ?_⟩
  have hex := hP.exact x
  unfold freeSpans residentSpans at hex
  rw [hl, residents_append, residents_cons_resident hres, List.map_append, List.map_cons,
    depth_append, depth_cons] at hex
  rw [hdepth x, residents_append, List.map_append, depth_append, depth_cons, depth_nil]
  change _ + ((if x ∈ (processSpan p).points then 1 else 0) + 0) + _ = _
  omega

/-- A process memory that goes to disk gives its addresses back.
SOURCE: memory-management.c:446-453, 465-472 -/
theorem partition_release {M : ℤ} {m : Memory} (hP : Partition M m) {p : ProcessMemory}
    (hmem : p ∈ m.procMems) (hres : isProcessMemoryInDisk p = false) :
    Partition M (m.release p) := by
  obtain ⟨l₁, l₂, hl⟩ := List.append_of_mem hmem
  obtain ⟨hco, hex⟩ := partition_exact_release hP hl hres
  have hsplit : (m.release p).procMems = l₁ ++ p.swappedOut :: l₂ :=
    modify_split (m := { m with memSegs := _ }) hl hP.pointers _
  have hptr : (m.release p).procMems.map ProcessMemory.ptr = m.procMems.map ProcessMemory.ptr := by
    rw [hsplit, hl]
    simp [ProcessMemory.swappedOut]
  refine ⟨hco, fun x => ?_, ?_, ?_, ?_⟩
  · unfold residentSpans
    rw [hsplit, residents_append, residents_cons_inDisk (isProcessMemoryInDisk_swappedOut p),
      ← residents_append]
    exact hex x
  · intro q hq
    rw [hsplit] at hq
    rcases List.mem_append.mp hq with hq | hq
    · exact hP.sizes q (by rw [hl]; exact List.mem_append_left _ hq)
    · rcases List.mem_cons.mp hq with rfl | hq
      · exact hP.sizes p hmem
      · exact hP.sizes q (by rw [hl]; exact List.mem_append_right _ (List.mem_cons_of_mem _ hq))
  · rw [hptr]
    exact hP.pointers
  · intro q hq
    have hqptr : q.ptr ∈ m.procMems.map ProcessMemory.ptr := by
      rw [← hptr]
      exact List.mem_map_of_mem hq
    obtain ⟨q', hq', heq⟩ := List.mem_map.mp hqptr
    rw [← heq]
    exact hP.allocated q' hq'

/-- INTERNAL: unlinking takes one process memory with the id out of the list.
SOURCE: memory-management.c:283-325 -/
theorem unlinkProcessId_split {processId : ℤ} {l rest : List ProcessMemory} {p : ProcessMemory}
    (h : unlinkProcessId processId l = some (p, rest)) :
    ∃ l₁ l₂, l = l₁ ++ p :: l₂ ∧ rest = l₁ ++ l₂ ∧ p.processId = processId := by
  induction l generalizing rest with
  | nil => simp [unlinkProcessId] at h
  | cons q l ih =>
    unfold unlinkProcessId at h
    split at h
    · rename_i hid
      simp only [Option.some.injEq, Prod.mk.injEq] at h
      obtain ⟨rfl, rfl⟩ := h
      exact ⟨[], l, rfl, rfl, hid⟩
    · rw [Option.map_eq_some_iff] at h
      obtain ⟨⟨p', r⟩, hr, heq⟩ := h
      simp only [Prod.mk.injEq] at heq
      obtain ⟨rfl, rfl⟩ := heq
      obtain ⟨l₁, l₂, rfl, rfl, hid⟩ := ih hr
      exact ⟨q :: l₁, l₂, rfl, rfl, hid⟩

/-- Removing a process memory from the list gives its addresses back, if it had any.
SOURCE: memory-management.c:267-329 -/
theorem partition_remove {M : ℤ} {m : Memory} (hP : Partition M m) (processId : ℤ) :
    Partition M (removeProcessMemoryByProcessId processId m).2 := by
  unfold removeProcessMemoryByProcessId
  cases hun : unlinkProcessId processId m.procMems with
  | none => exact hP
  | some found =>
    obtain ⟨p, rest⟩ := found
    obtain ⟨l₁, l₂, hl, rfl, -⟩ := unlinkProcessId_split hun
    have hsub : (l₁ ++ l₂).Sublist m.procMems := by
      rw [hl]
      exact (List.Sublist.refl l₁).append (List.sublist_cons_self p l₂)
    have hsizes : ∀ q ∈ l₁ ++ l₂, 1 ≤ q.size := by
      intro q hq
      exact hP.sizes q (hsub.subset hq)
    have hptr : ((l₁ ++ l₂).map ProcessMemory.ptr).Nodup :=
      hP.pointers.sublist (hsub.map ProcessMemory.ptr)
    have halloc : ∀ q ∈ l₁ ++ l₂, q.ptr < m.allocated := fun q hq =>
      hP.allocated q (hsub.subset hq)
    by_cases hdisk : isProcessMemoryInDisk p = true
    · simp only [hdisk, if_true]
      refine ⟨hP.coalesced, fun x => ?_, hsizes, hptr, halloc⟩
      have hex := hP.exact x
      unfold residentSpans at hex
      rw [hl, residents_append, residents_cons_inDisk hdisk, ← residents_append] at hex
      exact hex
    · have hres : isProcessMemoryInDisk p = false := by simpa using hdisk
      simp only [hdisk, Bool.false_eq_true, if_false]
      obtain ⟨hco, hex⟩ := partition_exact_release hP hl hres
      exact ⟨hco, hex, hsizes, hptr, halloc⟩

/-- INTERNAL: a free segment lies inside the addresses `1..M`. -/
theorem partition_segment_bounds {M : ℤ} {m : Memory} (hP : Partition M m)
    {t : FreeMemorySegment} (ht : t ∈ m.memSegs) :
    0 ≤ getFreeMemorySegmentEndAddress t ∧ t.startAddress ≤ M ∧ 1 ≤ t.size := by
  have hpos := hP.coalesced.pos _ (List.mem_map_of_mem (f := segmentSpan) ht)
  rw [segmentSpan_len] at hpos
  have hin : ∀ x, x ∈ (segmentSpan t).points → 1 ≤ x ∧ x ≤ M := by
    intro x hx
    have hd := depth_pos_iff.mpr ⟨segmentSpan t, List.mem_map_of_mem (f := segmentSpan) ht, hx⟩
    have hex := hP.exact x
    unfold freeSpans at hex
    by_contra hno
    rw [if_neg hno] at hex
    omega
  have htop := hin t.startAddress
    (by simp [getFreeMemorySegmentEndAddress]; omega)
  have hbot := hin (getFreeMemorySegmentEndAddress t + 1)
    (by simp [getFreeMemorySegmentEndAddress]; omega)
  exact ⟨by omega, htop.2, hpos⟩

/-- A process memory in disk that takes its addresses from the free list.
SOURCE: memory-management.c:362-397 -/
theorem partition_occupy {M : ℤ} {m : Memory} (hP : Partition M m) {p : ProcessMemory}
    (hmem : p ∈ m.procMems) (hdisk : isProcessMemoryInDisk p = true) {startAddress : ℤ}
    {memSegs : List FreeMemorySegment}
    (hocc : occupyFreeMemorySegment p.size m.memSegs = some (startAddress, memSegs)) (time : ℤ) :
    Partition M ({ m with memSegs := memSegs }.modify p.ptr (.swappedIn startAddress time)) ∧
    isProcessMemoryInDisk (p.swappedIn startAddress time) = false := by
  obtain ⟨l₁, l₂, hl⟩ := List.append_of_mem hmem
  obtain ⟨hco, hdepth⟩ := occupyFreeMemorySegment_spec hocc hP.coalesced (hP.sizes p hmem)
  have hres : isProcessMemoryInDisk (p.swappedIn startAddress time) = false := by
    obtain ⟨u₁, t, u₂, hu, -, -, rfl, -⟩ := occupyFreeMemorySegment_first hocc
    have hb := partition_segment_bounds hP (t := t) (by simp [hu])
    unfold getFreeMemorySegmentEndAddress at hb
    simp only [isProcessMemoryInDisk, ProcessMemory.swappedIn, inDisk, beq_eq_false_iff_ne]
    omega
  refine ⟨?_, hres⟩
  have hsplit : ({ m with memSegs := memSegs }.modify p.ptr
      (.swappedIn startAddress time)).procMems = l₁ ++ p.swappedIn startAddress time :: l₂ :=
    modify_split (m := { m with memSegs := memSegs }) hl hP.pointers _
  refine ⟨hco, fun x => ?_, ?_, ?_, ?_⟩
  · have hex := hP.exact x
    unfold freeSpans residentSpans at hex ⊢
    rw [hl, residents_append, residents_cons_inDisk hdisk, List.map_append, depth_append,
      hdepth x, depth_cons, depth_nil] at hex
    rw [hsplit, residents_append, residents_cons_resident hres, List.map_append, List.map_cons,
      depth_append, depth_cons]
    change depth (memSegs.map segmentSpan) x + (_ +
      ((if x ∈ (Span.mk startAddress p.size).points then 1 else 0) + _)) = _
    omega
  · intro q hq
    rw [hsplit] at hq
    rcases List.mem_append.mp hq with hq | hq
    · exact hP.sizes q (by rw [hl]; exact List.mem_append_left _ hq)
    · rcases List.mem_cons.mp hq with rfl | hq
      · exact hP.sizes p hmem
      · exact hP.sizes q (by rw [hl]; exact List.mem_append_right _ (List.mem_cons_of_mem _ hq))
  · have hp := hP.pointers
    rw [hl] at hp
    rw [hsplit]
    simpa [ProcessMemory.swappedIn] using hp
  · intro q hq
    rw [hsplit] at hq
    rcases List.mem_append.mp hq with hq | hq
    · exact hP.allocated q (by rw [hl]; exact List.mem_append_left _ hq)
    · rcases List.mem_cons.mp hq with rfl | hq
      · exact hP.allocated p hmem
      · exact hP.allocated q
          (by rw [hl]; exact List.mem_append_right _ (List.mem_cons_of_mem _ hq))

/-! ## Reading the partition -/

/-- A process memory in main memory lies inside the addresses `1..M`. -/
theorem partition_resident_bounds {M : ℤ} {m : Memory} (hP : Partition M m) {p : ProcessMemory}
    (hp : p ∈ residents m.procMems) :
    0 ≤ getProcessMemoryEndAddress p ∧ p.startAddress ≤ M ∧ 1 ≤ p.size := by
  have hpos := hP.sizes p (mem_residents.mp hp).1
  have hin : ∀ x, x ∈ (processSpan p).points → 1 ≤ x ∧ x ≤ M := by
    intro x hx
    have hd := depth_pos_iff.mpr ⟨processSpan p, List.mem_map_of_mem hp, hx⟩
    have hex := hP.exact x
    unfold residentSpans at hex
    by_contra hno
    rw [if_neg hno] at hex
    omega
  have htop := hin p.startAddress (by simp [processSpan, Span.bottom]; omega)
  have hbot := hin (getProcessMemoryEndAddress p + 1)
    (by simp [processSpan, Span.bottom, getProcessMemoryEndAddress]; omega)
  exact ⟨by omega, htop.2, hpos⟩

/-- Without a process memory in main memory, the free list is one segment. -/
theorem partition_memSegs_eq_single {M : ℤ} (hM : 1 ≤ M) {m : Memory} (hP : Partition M m)
    (hnone : residents m.procMems = []) : m.memSegs = [⟨M, M⟩] := by
  have hspan : freeSpans m = [Span.mk M M] := by
    refine hP.coalesced.unique ⟨List.isChain_singleton _, fun s hs => ?_⟩ fun x => ?_
    · rw [List.mem_singleton.mp hs]
      exact hM
    · have hex := hP.exact x
      rw [residentSpans, hnone, List.map_nil, depth_nil, Nat.add_zero] at hex
      rw [hex, depth_cons, depth_nil]
      simp only [Span.mem_points, Span.bottom]
      split_ifs <;> omega
  have hinj : Function.Injective segmentSpan := by
    rintro ⟨a, b⟩ ⟨c, d⟩ h
    simpa [segmentSpan] using h
  exact List.map_injective_iff.mpr hinj (by simpa [freeSpans, segmentSpan] using hspan)

end Comp30023.Analysis
