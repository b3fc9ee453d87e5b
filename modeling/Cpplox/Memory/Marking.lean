import Cpplox.Memory

namespace Cpplox.GcHeap

variable {A : Type} {heap : GcHeap A} {ptr other : Ptr} {traceRefs : A → List Ptr}

/-- A block without its mark bit. -/
def object (block : ControlBlock A) : Ptr × A := (block.ptr, block.value)

def objects (heap : GcHeap A) : List (Ptr × A) := heap.allPtrs.map object

def DistinctPtrs (heap : GcHeap A) : Prop := (heap.allPtrs.map (·.ptr)).Nodup

def Live (heap : GcHeap A) (ptr : Ptr) : Prop := ∃ block ∈ heap.allPtrs, block.ptr = ptr

def MarkedAt (heap : GcHeap A) (ptr : Ptr) : Prop :=
  ∃ block ∈ heap.allPtrs, block.ptr = ptr ∧ block.marked = true

theorem valueAt_eq_objects (heap : GcHeap A) (ptr : Ptr) :
    heap.valueAt ptr = (heap.objects.find? (·.1 = ptr)).map (·.2) := by
  simp only [valueAt, find?, objects, List.find?_map, Option.map_map]
  rfl

theorem ptrs_eq_objects (heap : GcHeap A) :
    heap.allPtrs.map (·.ptr) = heap.objects.map (·.1) := by
  simp [objects, object]

theorem distinctPtrs_congr {before after : GcHeap A} (same : after.objects = before.objects) :
    after.DistinctPtrs ↔ before.DistinctPtrs := by
  rw [DistinctPtrs, DistinctPtrs, ptrs_eq_objects, ptrs_eq_objects, same]

theorem live_congr {before after : GcHeap A} (same : after.objects = before.objects) :
    after.Live ptr ↔ before.Live ptr := by
  have asObjects (heap : GcHeap A) : heap.Live ptr ↔ ptr ∈ heap.objects.map (·.1) := by
    simp [Live, ← ptrs_eq_objects]
  rw [asObjects, asObjects, same]

theorem valueAt_congr {before after : GcHeap A} (same : after.objects = before.objects) :
    after.valueAt ptr = before.valueAt ptr := by
  rw [valueAt_eq_objects, valueAt_eq_objects, same]

theorem find?_of_mem {block : ControlBlock A} (distinct : heap.DistinctPtrs)
    (member : block ∈ heap.allPtrs) : heap.find? block.ptr = some block := by
  unfold DistinctPtrs at distinct
  unfold find?
  generalize heap.allPtrs = blocks at distinct member
  induction blocks with
  | nil => cases member
  | cons head tail ih =>
      simp only [List.map_cons, List.nodup_cons, List.mem_map, not_exists, not_and] at distinct
      rcases List.mem_cons.mp member with rfl | member
      · simp
      · have different : head.ptr ≠ block.ptr := fun same => distinct.1 block member same.symm
        simp [different, ih distinct.2 member]

theorem mem_of_find? {block : ControlBlock A} (found : heap.find? ptr = some block) :
    block ∈ heap.allPtrs ∧ block.ptr = ptr :=
  ⟨List.mem_of_find?_eq_some found, by simpa using List.find?_some found⟩

theorem not_live_of_find?_none (missing : heap.find? ptr = none) : ¬ heap.Live ptr := by
  rintro ⟨block, member, rfl⟩
  exact absurd (List.find?_eq_none.mp missing block member) (by simp)

theorem object_setMarked (blocks : List (ControlBlock A)) (ptr : Ptr) :
    (setMarked blocks ptr).map object = blocks.map object := by
  simp only [setMarked, List.map_map]
  refine List.map_congr_left fun block _ => ?_
  simp only [Function.comp_apply, object]
  split <;> rfl

@[simp] theorem objects_mark (heap : GcHeap A) (ptr : Ptr) :
    (heap.mark ptr).objects = heap.objects := by
  unfold mark
  split
  · rfl
  · split
    · rfl
    · exact object_setMarked _ _

/-- The number of blocks that are not marked yet. -/
def unmarked (heap : GcHeap A) : Nat := heap.allPtrs.countP (!·.marked)

/-- What bounds the rest of the loop. -/
def measure (heap : GcHeap A) : Nat := 2 * heap.unmarked + heap.grayWorklist.length

/-- Everything `mark` does. -/
structure MarkSpec (before after : GcHeap A) (ptr : Ptr) : Prop where
  objects : after.objects = before.objects
  bytes : after.nAllocatedBytes = before.nAllocatedBytes
  marked : ∀ other, after.MarkedAt other ↔ before.MarkedAt other ∨ (other = ptr ∧ before.Live ptr)
  grayKept : ∀ other ∈ before.grayWorklist, other ∈ after.grayWorklist
  grayNew : ∀ other ∈ after.grayWorklist, other ∈ before.grayWorklist ∨ (other = ptr ∧ before.Live ptr)
  gray : ∀ other, after.MarkedAt other → before.MarkedAt other ∨ other ∈ after.grayWorklist
  measure : after.measure ≤ before.measure

theorem setMarked_cons (head : ControlBlock A) (tail : List (ControlBlock A)) (ptr : Ptr) :
    setMarked (head :: tail) ptr =
      (if head.ptr = ptr then { head with marked := true } else head) :: setMarked tail ptr := rfl

theorem countP_setMarked_le (blocks : List (ControlBlock A)) (ptr : Ptr) :
    (setMarked blocks ptr).countP (!·.marked) ≤ blocks.countP (!·.marked) := by
  simp only [setMarked, List.countP_map]
  refine List.countP_mono_left fun other _ unmarkedAfter => ?_
  simp only [Function.comp_apply] at unmarkedAfter
  split at unmarkedAfter <;> simp_all

theorem countP_setMarked_lt {blocks : List (ControlBlock A)} {block : ControlBlock A}
    (member : block ∈ blocks) (white : block.marked = false) :
    (setMarked blocks block.ptr).countP (!·.marked) < blocks.countP (!·.marked) := by
  induction blocks with
  | nil => cases member
  | cons head tail ih =>
      have tailLe := countP_setMarked_le tail block.ptr
      simp only [setMarked_cons, List.countP_cons]
      rcases List.mem_cons.mp member with rfl | member
      · simp [white]
        omega
      · have tailLt := ih member
        by_cases same : head.ptr = block.ptr <;> cases bit : head.marked <;> simp [same, bit] <;> omega

theorem markedAt_setMarked (heap : GcHeap A) (ptr other : Ptr) :
    ({ heap with allPtrs := setMarked heap.allPtrs ptr }).MarkedAt other ↔
      heap.MarkedAt other ∨ (other = ptr ∧ heap.Live ptr) := by
  simp only [MarkedAt, Live, setMarked, List.mem_map]
  constructor
  · rintro ⟨_, ⟨block, member, rfl⟩, samePtr, isMarked⟩
    by_cases same : block.ptr = ptr
    · simp only [same, if_true] at samePtr
      exact .inr ⟨samePtr.symm, block, member, same⟩
    · simp only [same, if_false] at samePtr isMarked
      exact .inl ⟨block, member, samePtr, isMarked⟩
  · rintro (⟨block, member, samePtr, isMarked⟩ | ⟨rfl, block, member, rfl⟩)
    · refine ⟨_, ⟨block, member, rfl⟩, ?_, ?_⟩ <;> split <;> simp_all
    · exact ⟨_, ⟨block, member, rfl⟩, by simp⟩

theorem mark_spec (heap : GcHeap A) (ptr : Ptr) :
    MarkSpec heap (heap.mark ptr) ptr := by
  unfold mark
  split
  next missing =>
      have dead := not_live_of_find?_none missing
      exact ⟨rfl, rfl, by simp [dead], by simp, by simp [dead], fun _ => .inl, Nat.le_refl _⟩
  next block found =>
      obtain ⟨member, rfl⟩ := mem_of_find? found
      split
      next already =>
          have isMarked : heap.MarkedAt block.ptr := ⟨block, member, rfl, already⟩
          refine ⟨rfl, rfl, fun other => ⟨.inl, ?_⟩, by simp, fun _ => .inl, fun _ => .inl, Nat.le_refl _⟩
          rintro (earlier | ⟨rfl, -⟩)
          · exact earlier
          · exact isMarked
      next white =>
          have white : block.marked = false := by simpa using white
          have live : heap.Live block.ptr := ⟨block, member, rfl⟩
          refine ⟨object_setMarked _ _, rfl, fun other => ?_, fun other => List.mem_cons_of_mem _, ?_, ?_, ?_⟩
          · exact markedAt_setMarked heap block.ptr other
          · intro other grey
            rcases List.mem_cons.mp grey with rfl | grey
            · exact .inr ⟨rfl, live⟩
            · exact .inl grey
          · intro other isMarked
            rcases (markedAt_setMarked heap block.ptr other).mp isMarked with earlier | ⟨rfl, -⟩
            · exact .inl earlier
            · exact .inr List.mem_cons_self
          · have fewer := countP_setMarked_lt member white
            simp only [measure, unmarked, List.length_cons]
            omega

/-- Everything marking a list of pointers does. -/
structure MarkAllSpec (before after : GcHeap A) (ptrs : List Ptr) : Prop where
  objects : after.objects = before.objects
  bytes : after.nAllocatedBytes = before.nAllocatedBytes
  marked : ∀ other, after.MarkedAt other ↔
    before.MarkedAt other ∨ (other ∈ ptrs ∧ before.Live other)
  grayKept : ∀ other ∈ before.grayWorklist, other ∈ after.grayWorklist
  grayNew : ∀ other ∈ after.grayWorklist,
    other ∈ before.grayWorklist ∨ (other ∈ ptrs ∧ before.Live other)
  gray : ∀ other, after.MarkedAt other → before.MarkedAt other ∨ other ∈ after.grayWorklist
  measure : after.measure ≤ before.measure

theorem markAll_spec (ptrs : List Ptr) (heap : GcHeap A) :
    MarkAllSpec heap (ptrs.foldl mark heap) ptrs := by
  induction ptrs generalizing heap with
  | nil => exact ⟨rfl, rfl, by simp, by simp, by simp, fun _ => .inl, Nat.le_refl _⟩
  | cons ptr rest ih =>
      have first := mark_spec heap ptr
      have later := ih (heap.mark ptr)
      have live (other : Ptr) : (heap.mark ptr).Live other ↔ heap.Live other :=
        live_congr first.objects
      refine ⟨later.objects.trans first.objects, later.bytes.trans first.bytes, fun other => ?_,
        fun other grey => later.grayKept other (first.grayKept other grey), fun other grey => ?_,
        fun other isMarked => ?_, Nat.le_trans later.measure first.measure⟩
      · rw [List.foldl_cons, later.marked, first.marked, live, List.mem_cons]
        constructor
        · rintro ((earlier | ⟨rfl, alive⟩) | ⟨member, alive⟩)
          · exact .inl earlier
          · exact .inr ⟨.inl rfl, alive⟩
          · exact .inr ⟨.inr member, alive⟩
        · rintro (earlier | ⟨rfl | member, alive⟩)
          · exact .inl (.inl earlier)
          · exact .inl (.inr ⟨rfl, alive⟩)
          · exact .inr ⟨member, alive⟩
      · rcases later.grayNew other grey with grey | ⟨member, alive⟩
        · rcases first.grayNew other grey with grey | ⟨rfl, alive⟩
          · exact .inl grey
          · exact .inr ⟨List.mem_cons_self, alive⟩
        · exact .inr ⟨List.mem_cons_of_mem _ member, (live other).mp alive⟩
      · rcases later.gray other isMarked with isMarked | grey
        · rcases first.gray other isMarked with earlier | grey
          · exact .inl earlier
          · exact .inr (later.grayKept other grey)
        · exact .inr grey

end Cpplox.GcHeap
