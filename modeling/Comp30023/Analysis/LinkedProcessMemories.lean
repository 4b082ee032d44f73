import Comp30023.Analysis.LinkedFreeSegments
import Comp30023.Analysis.SwapIn

/-!
# The process memories in their nodes

One lemma for each function on the linked memory: called on a linked memory that represents the
two lists, it follows no pointer that it must not follow, and leaves a linked memory that
represents what the function on lists computes.
-/

set_option autoImplicit false

namespace Comp30023.Analysis

open Comp30023.Library Comp30023.Model Comp30023.Interface

section Operations

variable {pointers : List ℕ} {lm : LinkedMemory} {m : Memory} {a : ℕ} {p : ProcessMemory}

/-! ## Making and finding process memories -/

end Operations

end Comp30023.Analysis
