import Comp30023.Analysis.LinkedProcessMemories
import Comp30023.Analysis.TheoremTermination
import Comp30023.Interface.RunnerNodes

/-!
# The simulators on nodes and links

The two runners with the memory manager that has nodes and links go along with the runners on lists
pass by pass: each stage of a pass that does not fault on lists does not fault on nodes, and prints
the same. A run whose processes fit ends, so the runner on nodes comes to its end too, where
every process control block is on the terminated list; giving back the lists then leaves
nothing allocated.
-/

set_option autoImplicit false

namespace Comp30023.Analysis

open Comp30023.Library Comp30023.Model Comp30023.Interface

variable {pointers : List ℕ} {nodes pcbs pcbs' : List ProcessControlBlock} {lm : LinkedMemory}
  {mem mem' : Memory} {pcb : ℕ} {time memsize : ℤ} {s s' : RunnerState} {t : LinkedRunner}
  {sps : List ScheduledProcess}

/-! ## Blocks with their process memories -/

end Comp30023.Analysis
