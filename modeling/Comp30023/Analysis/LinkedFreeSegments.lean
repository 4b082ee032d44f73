import Comp30023.Analysis.TheoremConsolidation
import Comp30023.Interface.MemoryNodes

/-!
# The free list in its nodes

One lemma for each function that changes the linked free list: it follows no pointer that it must
not follow, ends, and leaves the nodes of the list that the function on lists computes, with no
other node allocated.
-/

set_option autoImplicit false

namespace Comp30023.Analysis

open Comp30023.Library Comp30023.Model Comp30023.Interface

section Segments

variable {lm : LinkedMemory} {heap : Heap FreeMemorySegmentNode} {head : Option ℕ}
  {nodes ps rest : List ℕ} {us vs l : List FreeMemorySegment} {seg : FreeMemorySegment} {curr q : ℕ}
  {startAddress size : ℤ}

/-! ## Consolidation -/

end Segments

end Comp30023.Analysis
