import Mathlib.Algebra.GroupWithZero.Nat
import Mathlib.Tactic.Common
import Mathlib.Data.List.Nodup

namespace Cpplox

/-! The mark-and-sweep heap, generic in the objects it holds. -/

/-- The address of a control block. -/
abbrev Ptr := Nat

structure ControlBlock (A : Type) where
  ptr : Ptr
  marked : Bool := false
  value : A

/-- The worklist is kept back first.  `nAllocatedBytes` is an integer, so that a
subtraction below zero would show. -/
structure GcHeap (A : Type) where
  allPtrs : List (ControlBlock A) := []
  grayWorklist : List Ptr := []
  nAllocatedBytes : Int := 0

namespace GcHeap

variable {A S : Type}

def find? (heap : GcHeap A) (ptr : Ptr) : Option (ControlBlock A) :=
  heap.allPtrs.find? fun block => block.ptr = ptr

/-- `make`, with the address the allocator chose. -/
def make (heap : GcHeap A) (size : A → Nat) (ptr : Ptr) (value : A) : GcHeap A :=
  { heap with
    nAllocatedBytes := heap.nAllocatedBytes + size value
    allPtrs := heap.allPtrs ++ [{ ptr, value }] }

/-- The value a pointer refers to. -/
def valueAt (heap : GcHeap A) (ptr : Ptr) : Option A := (heap.find? ptr).map (·.value)

/-- Assignment through a pointer. -/
def update (heap : GcHeap A) (ptr : Ptr) (value : A) : GcHeap A :=
  { heap with
    allPtrs := heap.allPtrs.map fun block =>
      if block.ptr = ptr then { block with value } else block }

def setMarked (blocks : List (ControlBlock A)) (ptr : Ptr) : List (ControlBlock A) :=
  blocks.map fun block => if block.ptr = ptr then { block with marked := true } else block

/-- A pointer to no block cannot be marked; the C++ never holds one. -/
def mark (heap : GcHeap A) (ptr : Ptr) : GcHeap A :=
  match heap.find? ptr with
  | none => heap
  | some block =>
      if block.marked then heap
      else { heap with
        allPtrs := setMarked heap.allPtrs ptr
        grayWorklist := ptr :: heap.grayWorklist }

/-- What the `trace_refs` of the block at a pointer marks. -/
def refsAt (traceRefs : A → List Ptr) (heap : GcHeap A) (ptr : Ptr) : List Ptr :=
  match heap.find? ptr with
  | none => []
  | some block => traceRefs block.value

/-- The loop `while (! gray_worklist_.empty())`. -/
def traceLoop (traceRefs : A → List Ptr) : Nat → GcHeap A → GcHeap A
  | 0, heap => heap
  | fuel + 1, heap =>
      match heap.grayWorklist with
      | [] => heap
      | ptr :: rest =>
          traceLoop traceRefs fuel
            ((heap.refsAt traceRefs ptr).foldl mark { heap with grayWorklist := rest })

/-- Enough iterations for the loop: each takes one entry off the worklist, and each
block enters it once. -/
def traceFuel (heap : GcHeap A) : Nat := 2 * heap.allPtrs.length + heap.grayWorklist.length

/-- Everything up to the partition: `onMarkRoots` lists what each callback marks. -/
def markPhase (traceRefs : A → List Ptr) (onMarkRoots : List (List Ptr)) (heap : GcHeap A) :
    GcHeap A :=
  let heap := onMarkRoots.foldl (fun heap roots => roots.foldl mark heap) heap
  traceLoop traceRefs heap.traceFuel heap

/-- The calls of the `on_destroy_ptr` callbacks for one block, on what they act on. -/
def onDestroy (onDestroyPtr : List (ControlBlock A → S → S)) (state : S)
    (block : ControlBlock A) : S :=
  onDestroyPtr.foldl (fun state callback => callback block state) state

/-- `destroy` is what the destructor of a value does.  The result is the heap and the
state that callbacks and destructors leave. -/
def collectGarbage (traceRefs : A → List Ptr) (size : A → Nat)
    (onMarkRoots : List (List Ptr)) (onDestroyPtr : List (ControlBlock A → S → S))
    (destroy : ControlBlock A → S → S) (heap : GcHeap A) (state : S) : GcHeap A × S :=
  let heap := markPhase traceRefs onMarkRoots heap
  let removed := heap.allPtrs.filter (!·.marked)
  let (bytes, state) := removed.foldl
    (fun (bytes, state) block =>
      (bytes - (size block.value : Int), onDestroy onDestroyPtr state block))
    (heap.nAllocatedBytes, state)
  let state := removed.foldl (fun state block => destroy block state) state
  ({ heap with
      nAllocatedBytes := bytes
      allPtrs := (heap.allPtrs.filter (·.marked)).map ({ · with marked := false }) }, state)

end GcHeap

end Cpplox
