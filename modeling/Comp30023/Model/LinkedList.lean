import Comp30023.Library.Heap
import Mathlib.Data.Int.Notation

/-!
# The linked list of the workshop

`linked-list.c`, function by function. The nodes live in a heap; the `linkedlist_t` itself is
a value with its two pointers and its size. `malloc` is an `Allocator`: it always has memory
to give, a pointer also for zero bytes, and gives the address of any dead cell, be it one that
was freed before. An `assert` that fails, a null pointer or one to a freed node that is
followed, and a store outside of an array are faults. The loop counters, of the type `int`, are
exact, as they are in lists of at most `2 ^ 31` nodes.

A loop that follows links is given as many passes as there can be live nodes; one that makes
more has met a cycle and `diverges`.
-/

set_option autoImplicit false

namespace Comp30023.Model

open Comp30023.Library

/-- What stops a call. -/
inductive LinkedListFault where
  | assertionFailed
  | invalidPointer
  | indexOutOfRange
  | diverges
deriving Repr, DecidableEq

/-- SOURCE: linked-list.c:18-22 -/
structure LinkedListNode (α : Type) where
  data : α
  next : Option ℕ
deriving Repr, DecidableEq

/-- SOURCE: linked-list.c:25-30 -/
structure LinkedList where
  head : Option ℕ
  foot : Option ℕ
  size : ℕ
deriving Repr, DecidableEq

/-- A list, and the heap its nodes are in. -/
structure ListState (α : Type) where
  heap : Heap (LinkedListNode α)
  list : LinkedList

section Functions

variable {α : Type}

/-- `assert(condition)` -/
def assertThat (condition : Bool) : Except LinkedListFault Unit :=
  if condition then .ok () else .error .assertionFailed

/-- Reading a node through a pointer. -/
def getNode (heap : Heap (LinkedListNode α)) (node : Option ℕ) :
    Except LinkedListFault (LinkedListNode α) :=
  heap.load .invalidPointer node

/-- `node->next = next` -/
def setNext (heap : Heap (LinkedListNode α)) (node next : Option ℕ) :
    Except LinkedListFault (Heap (LinkedListNode α)) :=
  heap.modify .invalidPointer node fun n => { n with next := next }

/-- `free(node)` -/
def freeNode (heap : Heap (LinkedListNode α)) (node : Option ℕ) :
    Except LinkedListFault (Heap (LinkedListNode α)) :=
  heap.free .invalidPointer node

/-- SOURCE: linked-list.c:112-119 -/
def isconsistentlinkedlist (list : LinkedList) : Bool :=
  let isheadnull := list.head.isNone
  let isfootnull := list.foot.isNone
  let isempty := list.size == 0
  (isheadnull == isfootnull) && (isfootnull == isempty)

/-- SOURCE: linked-list.c:121-134 -/
def newlinkedlist : LinkedList := { head := none, foot := none, size := 0 }

/-- `for (i = 0; i < count; i++) { assert(node != NULL); node = node->next; }`
SOURCE: linked-list.c:171-177, 265-270, 353-358 -/
def walk (heap : Heap (LinkedListNode α)) : ℕ → Option ℕ → Except LinkedListFault (Option ℕ)
  | 0, node => .ok node
  | count + 1, node => do
    assertThat node.isSome
    let n ← getNode heap node
    walk heap count n.next

/-- SOURCE: linked-list.c:159-180 -/
def getatlinkedlist (s : ListState α) (index : ℕ) : Except LinkedListFault α := do
  assertThat (s.list.head.isSome && s.list.size > index)
  let node ← walk s.heap index s.list.head
  let n ← getNode s.heap node
  .ok n.data

/-- SOURCE: linked-list.c:182-214 -/
def appendlinkedlist (malloc : Allocator (LinkedListNode α)) (data : α) (s : ListState α) :
    Except LinkedListFault (ListState α) := do
  assertThat (isconsistentlinkedlist s.list)
  let (node, heap) := malloc.alloc s.heap { data := data, next := none }
  if s.list.size = 0 then
    .ok { heap := heap, list := { head := some node, foot := some node, size := 1 } }
  else do
    let heap ← setNext heap s.list.foot (some node)
    .ok { heap := heap, list := { s.list with foot := some node, size := s.list.size + 1 } }

/-- SOURCE: linked-list.c:216-279 -/
def addlinkedlist (malloc : Allocator (LinkedListNode α)) (index : ℕ) (data : α)
    (s : ListState α) : Except LinkedListFault (ListState α) := do
  assertThat (s.list.size ≥ index && isconsistentlinkedlist s.list)
  let (node, heap) := malloc.alloc s.heap { data := data, next := none }
  if s.list.size = 0 then
    .ok { heap := heap, list := { head := some node, foot := some node, size := 1 } }
  else if index = 0 then do
    let heap ← setNext heap (some node) s.list.head
    .ok { heap := heap, list := { s.list with head := some node, size := s.list.size + 1 } }
  else if index = s.list.size then do
    let heap ← setNext heap s.list.foot (some node)
    .ok { heap := heap, list := { s.list with foot := some node, size := s.list.size + 1 } }
  else do
    let nodei ← walk heap (index - 1) s.list.head
    let ni ← getNode heap nodei
    let heap ← setNext heap (some node) ni.next
    let heap ← setNext heap nodei (some node)
    .ok { heap := heap, list := { s.list with size := s.list.size + 1 } }

/-- The loop of `poplinkedlist`, which goes on after it has found the node before the foot.
SOURCE: linked-list.c:293-306 -/
def popLoop : ℕ → ListState α → Option ℕ → Except LinkedListFault (ListState α)
  | _, s, none => .ok s
  | 0, _, some _ => .error .diverges
  | fuel + 1, s, some node => do
    let n ← getNode s.heap (some node)
    let s ←
      if n.next = s.list.foot then do
        let heap ← freeNode s.heap s.list.foot
        let heap ← setNext heap (some node) none
        .ok { heap := heap,
              list := { s.list with foot := some node, size := s.list.size - 1 } }
      else
        .ok s
    let n ← getNode s.heap (some node)
    popLoop fuel s n.next

/-- SOURCE: linked-list.c:281-309 -/
def poplinkedlist (s : ListState α) : Except LinkedListFault (α × ListState α) := do
  assertThat (s.list.head.isSome && isconsistentlinkedlist s.list)
  let foot ← getNode s.heap s.list.foot
  let s ← popLoop (s.heap.fresh + 1) s s.list.head
  .ok (foot.data, s)

/-- The only node of the list is freed.
SOURCE: linked-list.c:330-334, 405-408 -/
def freeOnlyNode (s : ListState α) : Except LinkedListFault (ListState α) := do
  let heap ← freeNode s.heap s.list.head
  .ok { heap := heap, list := { head := none, foot := none, size := 0 } }

/-- SOURCE: linked-list.c:311-380 -/
def removeatlinkedlist (index : ℕ) (s : ListState α) :
    Except LinkedListFault (α × ListState α) := do
  assertThat (s.list.size > index && isconsistentlinkedlist s.list)
  if s.list.size = 1 then do
    let n ← getNode s.heap s.list.head
    let s ← freeOnlyNode s
    .ok (n.data, s)
  else if index = 0 then do
    let node := s.list.head
    let n ← getNode s.heap node
    let heap ← freeNode s.heap node
    .ok (n.data,
      { heap := heap, list := { s.list with head := n.next, size := s.list.size - 1 } })
  else do
    let nodei ← walk s.heap (index - 1) s.list.head
    let ni ← getNode s.heap nodei
    let node := ni.next
    if index = s.list.size - 1 then
      assertThat (node == s.list.foot)
    let n ← getNode s.heap node
    let heap ← setNext s.heap nodei n.next
    let heap ← freeNode heap node
    let foot := if index = s.list.size - 1 then nodei else s.list.foot
    .ok (n.data,
      { heap := heap, list := { s.list with foot := foot, size := s.list.size - 1 } })

/-- The loop of `toarraylinkedlist`; a slot of the array that was not stored to is `none`.
SOURCE: linked-list.c:487-494 -/
def toarrayLoop (heap : Heap (LinkedListNode α)) :
    ℕ → ℕ → Option ℕ → List (Option α) → Except LinkedListFault (List (Option α))
  | _, _, none, array => .ok array
  | 0, _, some _, _ => .error .diverges
  | fuel + 1, i, some node, array => do
    let n ← getNode heap (some node)
    if i < array.length then
      toarrayLoop heap fuel (i + 1) n.next (array.set i (some n.data))
    else
      .error .indexOutOfRange

/-- SOURCE: linked-list.c:472-497 -/
def toarraylinkedlist (s : ListState α) : Except LinkedListFault (List (Option α)) :=
  toarrayLoop s.heap (s.heap.fresh + 1) 0 s.list.head (List.replicate s.list.size none)

variable [DecidableEq α]

/-- The loop of `removefromlinkedlist`; the result says whether it returned from inside.
SOURCE: linked-list.c:395-442 -/
def removeFromLoop (data : α) :
    ℕ → ListState α → Option ℕ → Option ℕ → Except LinkedListFault (Bool × ListState α)
  | _, s, _, none => .ok (false, s)
  | 0, _, _, some _ => .error .diverges
  | fuel + 1, s, prevnode, some node => do
    let n ← getNode s.heap (some node)
    if n.data = data then
      if s.list.size = 1 then do
        let s ← freeOnlyNode s
        .ok (true, s)
      else if some node = s.list.head then do
        let heap ← freeNode s.heap (some node)
        .ok (true,
          { heap := heap, list := { s.list with head := n.next, size := s.list.size - 1 } })
      else do
        let heap ← setNext s.heap prevnode n.next
        let foot := if some node = s.list.foot then prevnode else s.list.foot
        let heap ← freeNode heap (some node)
        .ok (true,
          { heap := heap, list := { s.list with foot := foot, size := s.list.size - 1 } })
    else
      removeFromLoop data fuel s (some node) n.next

/-- SOURCE: linked-list.c:382-444 -/
def removefromlinkedlist (data : α) (s : ListState α) :
    Except LinkedListFault (Bool × ListState α) := do
  assertThat (isconsistentlinkedlist s.list)
  removeFromLoop data (s.heap.fresh + 1) s none s.list.head

/-- The loop of `indexoflinkedlist`.
SOURCE: linked-list.c:454-469 -/
def indexofLoop (heap : Heap (LinkedListNode α)) (data : α) :
    ℕ → ℤ → Option ℕ → Except LinkedListFault ℤ
  | _, _, none => .ok (-1)
  | 0, _, some _ => .error .diverges
  | fuel + 1, i, some node => do
    let n ← getNode heap (some node)
    if n.data = data then .ok i else indexofLoop heap data fuel (i + 1) n.next

/-- The position of the first node with the data, or `-1`, which its caller gets as the
largest number of the type `size_t`.
SOURCE: linked-list.c:446-470 -/
def indexoflinkedlist (data : α) (s : ListState α) : Except LinkedListFault ℤ :=
  indexofLoop s.heap data (s.heap.fresh + 1) 0 s.list.head

end Functions

/-! ## Sequences of calls -/

/-- A call that changes a list. -/
inductive ListCall (α : Type) where
  | append (data : α)
  | add (index : ℕ) (data : α)
  | removeAt (index : ℕ)
  | removeFrom (data : α)
deriving Repr, DecidableEq

/-- What a call returns. -/
inductive ListResult (α : Type) where
  | void
  | data (data : α)
  | flag (contained : Bool)
deriving Repr, DecidableEq

variable {α : Type} [DecidableEq α]

/-- One call. -/
def ListCall.perform (malloc : Allocator (LinkedListNode α)) (s : ListState α) :
    ListCall α → Except LinkedListFault (ListResult α × ListState α)
  | .append data => do
    let s ← appendlinkedlist malloc data s
    .ok (.void, s)
  | .add index data => do
    let s ← addlinkedlist malloc index data s
    .ok (.void, s)
  | .removeAt index => do
    let (data, s) ← removeatlinkedlist index s
    .ok (.data data, s)
  | .removeFrom data => do
    let (contained, s) ← removefromlinkedlist data s
    .ok (.flag contained, s)

/-- Calls one after the other, with what they return. -/
def performCalls (malloc : Allocator (LinkedListNode α)) :
    List (ListCall α) → ListState α → Except LinkedListFault (List (ListResult α) × ListState α)
  | [], s => .ok ([], s)
  | call :: calls, s => do
    let (result, s) ← call.perform malloc s
    let (results, s) ← performCalls malloc calls s
    .ok (result :: results, s)

end Comp30023.Model
