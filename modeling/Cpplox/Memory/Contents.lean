import Cpplox.Memory.Collect

namespace Cpplox.GcHeap

variable {A S : Type} {heap : GcHeap A} {ptr other : Ptr} {value old : A} {size : A → Nat}
  {traceRefs : A → List Ptr}

/-! What is at an address, before and after each operation of the heap. -/

theorem valueAt_isSome : (∃ value, heap.valueAt ptr = some value) ↔ heap.Live ptr := by
  constructor
  · rintro ⟨value, found⟩
    obtain ⟨block, found, -⟩ := Option.map_eq_some_iff.mp found
    exact ⟨block, mem_of_find? found⟩
  · intro live
    cases found : heap.find? ptr with
    | some block => exact ⟨block.value, by simp [valueAt, found]⟩
    | none => exact absurd live (not_live_of_find?_none found)

theorem valueAt_eq_some (distinct : heap.DistinctPtrs) :
    heap.valueAt ptr = some value ↔ (ptr, value) ∈ heap.objects := by
  constructor
  · intro found
    obtain ⟨block, there, rfl⟩ := Option.map_eq_some_iff.mp found
    obtain ⟨member, rfl⟩ := mem_of_find? there
    exact List.mem_map.mpr ⟨block, member, rfl⟩
  · intro member
    obtain ⟨block, inside, same⟩ := List.mem_map.mp member
    cases same
    rw [valueAt, find?_of_mem distinct inside]
    rfl

@[simp] theorem valueAt_empty : ({} : GcHeap A).valueAt ptr = none := rfl

theorem valueAt_make (fresh : ¬ heap.Live ptr) :
    (heap.make size ptr value).valueAt other =
      if other = ptr then some value else heap.valueAt other := by
  have split : (heap.make size ptr value).find? other =
      (heap.find? other).or (if ptr = other then some ⟨ptr, false, value⟩ else none) := by
    simp only [find?, make, List.find?_append, List.find?_cons, List.find?_nil]
    split <;> simp_all
  rw [valueAt, split]
  by_cases same : other = ptr
  · subst same
    have none : heap.find? other = none := by
      cases found : heap.find? other with
      | none => rfl
      | some block => exact absurd ⟨block, mem_of_find? found⟩ fresh
    simp [none]
  · simp [same, Ne.symm same, valueAt]

theorem find?_update : (heap.update ptr value).find? other =
    (heap.find? other).map fun block => if block.ptr = ptr then { block with value } else block := by
  simp only [find?, update, List.find?_map]
  congr 2
  funext block
  simp only [Function.comp_apply]
  split <;> rfl

theorem valueAt_update (live : heap.Live ptr) (value : A) (other : Ptr) :
    (heap.update ptr value).valueAt other =
      if other = ptr then some value else heap.valueAt other := by
  rw [valueAt, find?_update, Option.map_map]
  by_cases same : other = ptr
  · subst same
    cases found : heap.find? other with
    | none => exact absurd live (not_live_of_find?_none found)
    | some block => simp [(mem_of_find? found).2]
  · rw [if_neg same, valueAt]
    cases found : heap.find? other with
    | none => rfl
    | some block => simp [(mem_of_find? found).2, same]

theorem ptrs_update : (heap.update ptr value).allPtrs.map (·.ptr) = heap.allPtrs.map (·.ptr) := by
  simp only [update, List.map_map]
  refine List.map_congr_left fun block _ => ?_
  simp only [Function.comp_apply]
  split <;> rfl

theorem update_readyToCollect (ready : heap.ReadyToCollect) :
    (heap.update ptr value).ReadyToCollect := by
  refine ⟨by rw [DistinctPtrs, ptrs_update]; exact ready.distinct, fun other => ?_⟩
  rw [show (heap.update ptr value).grayWorklist = heap.grayWorklist from rfl, ← ready.waiting other]
  simp only [MarkedAt, update, List.mem_map]
  constructor
  · rintro ⟨_, ⟨block, member, rfl⟩, same, isMarked⟩
    refine ⟨block, member, ?_, ?_⟩ <;> split at same <;> split at isMarked <;> simp_all
  · rintro ⟨block, member, same, isMarked⟩
    refine ⟨_, ⟨block, member, rfl⟩, ?_, ?_⟩ <;> split <;> simp_all

theorem empty_readyToCollect : ({} : GcHeap A).ReadyToCollect :=
  ⟨List.nodup_nil, fun ptr => by simp [MarkedAt]⟩

/-- What is marked when the mark phase ends. -/
theorem marked_markPhase (ready : heap.ReadyToCollect) (onMarkRoots : List (List Ptr)) :
    (∃ block ∈ (markPhase traceRefs onMarkRoots heap).allPtrs, block.marked = true ∧
      block.ptr = ptr ∧ block.value = value) ↔ heap.valueAt ptr = some value ∧
        Reachable traceRefs heap (onMarkRoots.flatten ++ heap.grayWorklist) ptr := by
  obtain ⟨same, -, -, marked⟩ := @markPhase_spec A heap traceRefs ready onMarkRoots
  have distinct := (distinctPtrs_congr same).mpr ready.distinct
  have found (block : ControlBlock A) (member : block ∈ (markPhase traceRefs onMarkRoots heap).allPtrs) :
      heap.valueAt block.ptr = some block.value := by
    rw [← valueAt_congr same, valueAt, find?_of_mem distinct member]
    rfl
  constructor
  · rintro ⟨block, member, isMarked, rfl, rfl⟩
    exact ⟨found block member, ((marked block.ptr).mp ⟨block, member, rfl, isMarked⟩).2⟩
  · rintro ⟨there, reachable⟩
    obtain ⟨block, member, rfl, isMarked⟩ :=
      (marked ptr).mpr ⟨valueAt_isSome.mp ⟨value, there⟩, reachable⟩
    exact ⟨block, member, isMarked, rfl, Option.some.inj ((found block member).symm.trans there)⟩

theorem readyToCollect_of_clear (distinct : heap.DistinctPtrs)
    (clear : ∀ block ∈ heap.allPtrs, block.marked = false) (empty : heap.grayWorklist = []) :
    heap.ReadyToCollect := by
  refine ⟨distinct, fun ptr => ?_⟩
  rw [empty]
  refine iff_of_false ?_ List.not_mem_nil
  rintro ⟨block, member, -, isMarked⟩
  rw [clear block member] at isMarked
  cases isMarked

/-- What a collection leaves: the reachable objects, with what they hold. -/
theorem collectGarbage_contents (traceRefs : A → List Ptr) (size : A → Nat)
    (onMarkRoots : List (List Ptr)) (onDestroyPtr : List (ControlBlock A → S → S))
    (destroy : ControlBlock A → S → S) (state : S) (ready : heap.ReadyToCollect) :
    ∃ removed : List (ControlBlock A), ∃ after : GcHeap A,
      collectGarbage traceRefs size onMarkRoots onDestroyPtr destroy heap state =
        (after, removed.foldl (fun state block => destroy block state)
          (removed.foldl (onDestroy onDestroyPtr) state)) ∧
      after.ReadyToCollect ∧ after.grayWorklist = [] ∧ (removed.map (·.ptr)).Nodup ∧
      (∀ block ∈ removed, heap.valueAt block.ptr = some block.value) ∧
      (∀ ptr value, after.valueAt ptr = some value ↔
        heap.valueAt ptr = some value ∧ ptr ∉ removed.map (·.ptr)) ∧
      ∀ ptr value, after.valueAt ptr = some value ↔ heap.valueAt ptr = some value ∧
        Reachable traceRefs heap (onMarkRoots.flatten ++ heap.grayWorklist) ptr := by
  obtain ⟨removed, after, runs, kept, gone, distinct, distinctRemoved, clear, empty, -, -⟩ :=
    collectGarbage_objects traceRefs size onMarkRoots onDestroyPtr destroy heap state ready
  have removedAt : ∀ block ∈ removed, heap.valueAt block.ptr = some block.value ∧
      ¬ Reachable traceRefs heap (onMarkRoots.flatten ++ heap.grayWorklist) block.ptr := by
    intro block member
    have out := (gone block.ptr block.value).mp (List.mem_map.mpr ⟨block, member, rfl⟩)
    exact ⟨(valueAt_eq_some ready.distinct).mpr out.1, out.2⟩
  have keptAt : ∀ ptr value, after.valueAt ptr = some value ↔ heap.valueAt ptr = some value ∧
      Reachable traceRefs heap (onMarkRoots.flatten ++ heap.grayWorklist) ptr := by
    intro ptr value
    rw [valueAt_eq_some distinct, kept, valueAt_eq_some ready.distinct]
  refine ⟨removed, after, runs, readyToCollect_of_clear distinct clear empty, empty,
    distinctRemoved, fun block member => (removedAt block member).1, fun ptr value => ?_, keptAt⟩
  rw [keptAt]
  refine and_congr_right fun there => ?_
  constructor
  · intro reached out
    obtain ⟨block, member, rfl⟩ := List.mem_map.mp out
    exact (removedAt block member).2 reached
  · intro stays
    by_contra unreached
    obtain ⟨block, member, same⟩ := List.mem_map.mp ((gone ptr value).mpr
      ⟨(valueAt_eq_some ready.distinct).mp there, unreached⟩)
    cases same
    exact stays (List.mem_map.mpr ⟨block, member, rfl⟩)

/-- The heaps that allocation, marking, assignment through a pointer and collection give,
from an empty one on.  What is assigned has the size of what was there, as in the code,
where the size is that of the type. -/
inductive Built (traceRefs : A → List Ptr) (size : A → Nat) : GcHeap A → Prop
  | empty : Built traceRefs size {}
  | make {heap : GcHeap A} {ptr : Ptr} (value : A) : Built traceRefs size heap → ¬ heap.Live ptr →
      Built traceRefs size (heap.make size ptr value)
  | mark {heap : GcHeap A} (ptr : Ptr) : Built traceRefs size heap →
      Built traceRefs size (heap.mark ptr)
  | update {heap : GcHeap A} {ptr : Ptr} {value : A} : Built traceRefs size heap →
      (∀ old, heap.valueAt ptr = some old → size old = size value) →
      Built traceRefs size (heap.update ptr value)
  | collect {S : Type} {heap : GcHeap A} (onMarkRoots : List (List Ptr))
      (onDestroyPtr : List (ControlBlock A → S → S)) (destroy : ControlBlock A → S → S)
      (state : S) : Built traceRefs size heap →
      Built traceRefs size
        (collectGarbage traceRefs size onMarkRoots onDestroyPtr destroy heap state).1

theorem mark_readyToCollect (ready : heap.ReadyToCollect) (ptr : Ptr) :
    (heap.mark ptr).ReadyToCollect := by
  have spec := markAll_spec [ptr] heap
  simp only [List.foldl_cons, List.foldl_nil] at spec
  refine ⟨(distinctPtrs_congr spec.objects).mpr ready.distinct, fun other => ?_⟩
  constructor
  · intro isMarked
    rcases spec.gray other isMarked with earlier | grey
    · exact spec.grayKept other ((ready.waiting other).mp earlier)
    · exact grey
  · intro grey
    rcases spec.grayNew other grey with grey | ⟨member, alive⟩
    · exact (spec.marked other).mpr (.inl ((ready.waiting other).mpr grey))
    · exact (spec.marked other).mpr (.inr ⟨member, alive⟩)

theorem mark_accounted (accounted : heap.Accounted size) (ptr : Ptr) :
    (heap.mark ptr).Accounted size := by
  have spec := markAll_spec [ptr] heap
  simp only [List.foldl_cons, List.foldl_nil] at spec
  rw [Accounted, spec.bytes, totalSize_congr spec.objects]
  exact accounted

theorem update_accounted (ready : heap.ReadyToCollect) (accounted : heap.Accounted size)
    (sameSize : ∀ old, heap.valueAt ptr = some old → size old = size value) :
    (heap.update ptr value).Accounted size := by
  have sizes : totalSize size (heap.update ptr value).allPtrs = totalSize size heap.allPtrs := by
    simp only [totalSize, update, List.map_map]
    refine congrArg List.sum (List.map_congr_left fun block member => ?_)
    have there : heap.valueAt block.ptr = some block.value := by
      rw [valueAt, find?_of_mem ready.distinct member]
      rfl
    by_cases assigned : block.ptr = ptr
    · rw [assigned] at there
      simp [assigned, sameSize _ there]
    · simp [assigned]
  rw [Accounted, sizes]
  exact accounted

/-- Every such heap is one that a collection can start from, and its count of bytes is exact. -/
theorem Built.accounted (built : Built traceRefs size heap) :
    heap.ReadyToCollect ∧ heap.Accounted size := by
  induction built with
  | empty => exact ⟨empty_readyToCollect, rfl⟩
  | make value _ fresh ih =>
      exact ⟨make_readyToCollect ih.1 fresh value, make_accounted ih.2 _ value⟩
  | mark ptr _ ih => exact ⟨mark_readyToCollect ih.1 ptr, mark_accounted ih.2 ptr⟩
  | update _ sameSize ih =>
      exact ⟨update_readyToCollect ih.1, update_accounted ih.1 ih.2 sameSize⟩
  | @collect S heap onMarkRoots onDestroyPtr destroy state _ ih =>
      obtain ⟨ready, exactly⟩ := ih
      obtain ⟨removed, after, runs, -, -, distinct, -, clear, empty, bytes, total⟩ :=
        collectGarbage_objects traceRefs size onMarkRoots onDestroyPtr destroy heap state ready
      rw [runs]
      refine ⟨readyToCollect_of_clear distinct clear empty, ?_⟩
      change after.nAllocatedBytes = totalSize size after.allPtrs
      rw [Accounted] at exactly
      omega

end Cpplox.GcHeap
