import Cpplox.Memory.Marking

namespace Cpplox.GcHeap

variable {A S : Type} {heap : GcHeap A} {ptr other : Ptr} {traceRefs : A → List Ptr}
  {roots : List Ptr} {size : A → Nat}

/-- Reachability through `trace_refs` from a list of roots. -/
inductive Reachable (traceRefs : A → List Ptr) (heap : GcHeap A) (roots : List Ptr) : Ptr → Prop
  | root {ptr : Ptr} : ptr ∈ roots → Reachable traceRefs heap roots ptr
  | ref {ptr : Ptr} {value : A} {other : Ptr} : Reachable traceRefs heap roots ptr → heap.valueAt ptr = some value →
      other ∈ traceRefs value → Reachable traceRefs heap roots other

/-- The tri-color invariant: what is marked is live and reachable, what waits in the
worklist is marked, and a marked object that waits no longer refers to marked
objects only. -/
structure TriColor (traceRefs : A → List Ptr) (start : GcHeap A) (roots : List Ptr)
    (heap : GcHeap A) : Prop where
  objects : heap.objects = start.objects
  bytes : heap.nAllocatedBytes = start.nAllocatedBytes
  sound : ∀ ptr, heap.MarkedAt ptr → Reachable traceRefs start roots ptr
  gray : ∀ ptr ∈ heap.grayWorklist, heap.MarkedAt ptr
  black : ∀ ptr value, heap.MarkedAt ptr → ptr ∉ heap.grayWorklist →
    start.valueAt ptr = some value → ∀ other ∈ traceRefs value, start.Live other → heap.MarkedAt other
  rooted : ∀ ptr ∈ roots, start.Live ptr → heap.MarkedAt ptr

theorem refsAt_of_valueAt {value : A} (atPtr : heap.valueAt ptr = some value) :
    heap.refsAt traceRefs ptr = traceRefs value := by
  cases found : heap.find? ptr with
  | none => simp [valueAt, found] at atPtr
  | some block =>
      have same : block.value = value := by simpa [valueAt, found] using atPtr
      simp [refsAt, found, same]

theorem refsAt_of_none (atPtr : heap.valueAt ptr = none) : heap.refsAt traceRefs ptr = [] := by
  rw [valueAt, Option.map_eq_none_iff] at atPtr
  simp [refsAt, atPtr]

/-- One iteration of the loop. -/
theorem triColor_step {start : GcHeap A} {rest refs : List Ptr}
    (invariant : TriColor traceRefs start roots heap)
    (waiting : heap.grayWorklist = ptr :: rest) (refsOf : heap.refsAt traceRefs ptr = refs) :
    TriColor traceRefs start roots (refs.foldl mark { heap with grayWorklist := rest }) ∧
      (refs.foldl mark { heap with grayWorklist := rest }).measure < heap.measure := by
  have spec := markAll_spec refs { heap with grayWorklist := rest }
  generalize refs.foldl mark { heap with grayWorklist := rest } = after at spec
  have live (other : Ptr) : heap.Live other ↔ start.Live other := live_congr invariant.objects
  have ptrMarked : heap.MarkedAt ptr := invariant.gray ptr (by simp [waiting])
  have isRef : ∀ value, start.valueAt ptr = some value → refs = traceRefs value := by
    intro value atPtr
    rw [← valueAt_congr invariant.objects] at atPtr
    rw [← refsOf, refsAt_of_valueAt atPtr]
  have refReachable : ∀ other ∈ refs, Reachable traceRefs start roots other := by
    intro other member
    cases atPtr : start.valueAt ptr with
    | none =>
        rw [← valueAt_congr invariant.objects] at atPtr
        rw [← refsOf, refsAt_of_none atPtr] at member
        cases member
    | some value => exact .ref (invariant.sound ptr ptrMarked) atPtr (isRef value atPtr ▸ member)
  have kept : ∀ other, heap.MarkedAt other → after.MarkedAt other := fun other isMarked =>
    (spec.marked other).mpr (.inl isMarked)
  refine ⟨⟨spec.objects.trans invariant.objects, spec.bytes.trans invariant.bytes, ?_, ?_, ?_, ?_⟩, ?_⟩
  · intro other isMarked
    rcases (spec.marked other).mp isMarked with earlier | ⟨member, -⟩
    · exact invariant.sound other earlier
    · exact refReachable other member
  · intro other grey
    rcases spec.grayNew other grey with grey | ⟨member, alive⟩
    · exact kept other (invariant.gray other (by rw [waiting]; exact List.mem_cons_of_mem _ grey))
    · exact (spec.marked other).mpr (.inr ⟨member, alive⟩)
  · intro source value isMarked notGray atSource other member alive
    by_cases same : source = ptr
    · subst same
      exact (spec.marked other).mpr (.inr ⟨isRef value atSource ▸ member, (live other).mpr alive⟩)
    · have earlier : heap.MarkedAt source := by
        rcases spec.gray source isMarked with earlier | grey
        · exact earlier
        · exact absurd grey notGray
      have wasBlack : source ∉ heap.grayWorklist := by
        intro grey
        rw [waiting] at grey
        rcases List.mem_cons.mp grey with rfl | grey
        · exact same rfl
        · exact notGray (spec.grayKept source grey)
      exact kept other (invariant.black source value earlier wasBlack atSource other member alive)
  · exact fun root member alive => kept root (invariant.rooted root member alive)
  · have shorter : ({ heap with grayWorklist := rest } : GcHeap A).measure < heap.measure := by
      simp [measure, unmarked, waiting]
    exact Nat.lt_of_le_of_lt spec.measure shorter

/-- The loop ends because its worklist is empty, whatever the shape of the graph. -/
theorem traceLoop_spec {start : GcHeap A} (fuel : Nat)
    (invariant : TriColor traceRefs start roots heap) (enough : heap.measure ≤ fuel) :
    TriColor traceRefs start roots (traceLoop traceRefs fuel heap) ∧
      (traceLoop traceRefs fuel heap).grayWorklist = [] := by
  induction fuel generalizing heap with
  | zero =>
      refine ⟨invariant, List.length_eq_zero_iff.mp ?_⟩
      simp only [measure] at enough
      simp only [traceLoop]
      omega
  | succ fuel ih =>
      unfold traceLoop
      cases waiting : heap.grayWorklist with
      | nil => exact ⟨invariant, waiting⟩
      | cons ptr rest =>
          obtain ⟨next, smaller⟩ := triColor_step invariant waiting rfl
          exact ih next (by omega)

theorem markRoots_eq (onMarkRoots : List (List Ptr)) (heap : GcHeap A) :
    onMarkRoots.foldl (fun heap roots => roots.foldl mark heap) heap =
      onMarkRoots.flatten.foldl mark heap := by
  induction onMarkRoots generalizing heap with
  | nil => rfl
  | cons roots rest ih => simp only [List.foldl_cons, List.flatten_cons, List.foldl_append, ih]

/-- All marks are clear except on objects waiting in the worklist. -/
structure ReadyToCollect (heap : GcHeap A) : Prop where
  distinct : heap.DistinctPtrs
  waiting : ∀ ptr, heap.MarkedAt ptr ↔ ptr ∈ heap.grayWorklist

/-- After the mark phase exactly the reachable blocks are marked. -/
theorem markPhase_spec (ready : heap.ReadyToCollect) (onMarkRoots : List (List Ptr)) :
    (markPhase traceRefs onMarkRoots heap).objects = heap.objects ∧
    (markPhase traceRefs onMarkRoots heap).nAllocatedBytes = heap.nAllocatedBytes ∧
    (markPhase traceRefs onMarkRoots heap).grayWorklist = [] ∧
    ∀ ptr, (markPhase traceRefs onMarkRoots heap).MarkedAt ptr ↔
      heap.Live ptr ∧ Reachable traceRefs heap (onMarkRoots.flatten ++ heap.grayWorklist) ptr := by
  have rooted := markAll_spec onMarkRoots.flatten heap
  have initial : TriColor traceRefs heap (onMarkRoots.flatten ++ heap.grayWorklist)
      (onMarkRoots.flatten.foldl mark heap) := by
    refine ⟨rooted.objects, rooted.bytes, ?_, ?_, ?_, ?_⟩
    · intro ptr isMarked
      rcases (rooted.marked ptr).mp isMarked with earlier | ⟨member, -⟩
      · exact .root (List.mem_append_right _ ((ready.waiting ptr).mp earlier))
      · exact .root (List.mem_append_left _ member)
    · intro ptr grey
      rcases rooted.grayNew ptr grey with grey | ⟨member, alive⟩
      · exact (rooted.marked ptr).mpr (.inl ((ready.waiting ptr).mpr grey))
      · exact (rooted.marked ptr).mpr (.inr ⟨member, alive⟩)
    · intro ptr value isMarked notGray
      rcases rooted.gray ptr isMarked with earlier | grey
      · exact absurd (rooted.grayKept ptr ((ready.waiting ptr).mp earlier)) notGray
      · exact absurd grey notGray
    · intro ptr member alive
      rcases List.mem_append.mp member with member | grey
      · exact (rooted.marked ptr).mpr (.inr ⟨member, alive⟩)
      · exact (rooted.marked ptr).mpr (.inl ((ready.waiting ptr).mpr grey))
  have enough : (onMarkRoots.flatten.foldl mark heap).measure ≤
      (onMarkRoots.flatten.foldl mark heap).traceFuel := by
    have bound : (onMarkRoots.flatten.foldl mark heap).unmarked ≤
        (onMarkRoots.flatten.foldl mark heap).allPtrs.length := List.countP_le_length
    simp only [measure, traceFuel]
    omega
  obtain ⟨final, empty⟩ := traceLoop_spec _ initial enough
  simp only [markPhase, markRoots_eq]
  refine ⟨final.objects, final.bytes, empty, fun ptr => ⟨fun isMarked => ?_, ?_⟩⟩
  · obtain ⟨block, member, rfl, _⟩ := id isMarked
    exact ⟨(live_congr final.objects).mp ⟨block, member, rfl⟩, final.sound _ isMarked⟩
  · rintro ⟨alive, reachable⟩
    induction reachable with
    | root member => exact final.rooted _ member alive
    | ref source atSource member ih =>
        rename_i ptr value other
        have sourceAlive : heap.Live ptr := by
          cases found : heap.find? ptr with
          | none => simp [valueAt, found] at atSource
          | some block => exact ⟨block, mem_of_find? found⟩
        exact final.black _ _ (ih sourceAlive) (by simp [empty]) atSource _ member alive

/-- The sum of the sizes of all blocks. -/
def totalSize (size : A → Nat) (blocks : List (ControlBlock A)) : Nat :=
  (blocks.map fun block => size block.value).sum

/-- `n_allocated_bytes_` counts the live blocks. -/
def Accounted (size : A → Nat) (heap : GcHeap A) : Prop :=
  heap.nAllocatedBytes = totalSize size heap.allPtrs

theorem make_accounted (accounted : heap.Accounted size) (ptr : Ptr) (value : A) :
    (heap.make size ptr value).Accounted size := by
  simp only [Accounted, totalSize, make] at accounted ⊢
  simp [accounted]

theorem make_readyToCollect (ready : heap.ReadyToCollect) (fresh : ¬ heap.Live ptr) (value : A) :
    (heap.make size ptr value).ReadyToCollect := by
  refine ⟨?_, fun other => ?_⟩
  · simp only [DistinctPtrs, make, List.map_append, List.map_cons, List.map_nil]
    refine List.nodup_append.mpr ⟨ready.distinct, List.nodup_singleton _, ?_⟩
    rintro taken member _ new rfl
    rw [List.mem_singleton] at new
    obtain ⟨block, live, same⟩ := List.mem_map.mp member
    exact fresh ⟨block, live, same.trans new⟩
  · rw [show (heap.make size ptr value).grayWorklist = heap.grayWorklist from rfl,
      ← ready.waiting other]
    constructor
    · rintro ⟨block, member, samePtr, isMarked⟩
      rcases List.mem_append.mp member with member | new
      · exact ⟨block, member, samePtr, isMarked⟩
      · rw [List.mem_singleton] at new
        simp [new] at isMarked
    · rintro ⟨block, member, samePtr, isMarked⟩
      exact ⟨block, List.mem_append_left _ member, samePtr, isMarked⟩

/-- The first sweep loop, as the subtractions and the callbacks apart. -/
theorem sweep_eq (size : A → Nat) (onDestroyPtr : List (ControlBlock A → S → S))
    (removed : List (ControlBlock A)) (bytes : Int) (state : S) :
    removed.foldl (fun (bytes, state) block =>
      (bytes - (size block.value : Int), onDestroy onDestroyPtr state block)) (bytes, state) =
      (bytes - totalSize size removed, removed.foldl (onDestroy onDestroyPtr) state) := by
  induction removed generalizing bytes state with
  | nil => simp [totalSize]
  | cons block rest ih =>
      simp only [List.foldl_cons, ih, totalSize, List.map_cons, List.sum_cons]
      congr 1
      omega

theorem totalSize_filter (size : A → Nat) (blocks : List (ControlBlock A))
    (keep : ControlBlock A → Bool) :
    totalSize size (blocks.filter keep) + totalSize size (blocks.filter (!keep ·)) =
      totalSize size blocks := by
  induction blocks with
  | nil => rfl
  | cons head tail ih =>
      simp only [totalSize] at ih ⊢
      cases kept : keep head <;> simp [kept] <;> omega

theorem totalSize_congr {before after : List (ControlBlock A)}
    (same : after.map object = before.map object) : totalSize size after = totalSize size before := by
  have bySecond (blocks : List (ControlBlock A)) :
      totalSize size blocks = ((blocks.map object).map fun entry => size entry.2).sum := by
    simp [totalSize, object, Function.comp_def]
  rw [bySecond, bySecond, same]

theorem totalSize_take_le (size : A → Nat) (blocks : List (ControlBlock A)) (count : Nat) :
    totalSize size (blocks.take count) ≤ totalSize size blocks := by
  have split := congrArg (totalSize size) (List.take_append_drop count blocks)
  simp only [totalSize, List.map_append, List.sum_append] at split ⊢
  omega

theorem objects_filter_marked (heap : GcHeap A) (distinct : heap.DistinctPtrs)
    (mark : Bool) (value : A) :
    (ptr, value) ∈ (heap.allPtrs.filter (·.marked == mark)).map object ↔
      (ptr, value) ∈ heap.objects ∧ (heap.MarkedAt ptr ↔ mark = true) := by
  simp only [objects, List.mem_map, List.mem_filter, object, Prod.mk.injEq, beq_iff_eq]
  constructor
  · rintro ⟨block, ⟨member, bit⟩, rfl, rfl⟩
    refine ⟨⟨block, member, rfl, rfl⟩, fun markedAt => ?_, fun isTrue => ?_⟩
    · obtain ⟨other, live, same, isMarked⟩ := markedAt
      have blocks := (find?_of_mem distinct live).symm.trans (same ▸ find?_of_mem distinct member)
      rw [← bit, ← Option.some.inj blocks, isMarked]
    · exact ⟨block, member, rfl, bit.trans isTrue⟩
  · rintro ⟨⟨block, member, rfl, rfl⟩, agrees⟩
    refine ⟨block, ⟨member, ?_⟩, rfl, rfl⟩
    cases bit : block.marked with
    | true => exact (agrees.mp ⟨block, member, rfl, bit⟩).symm
    | false =>
        cases mark with
        | false => rfl
        | true =>
            obtain ⟨other, live, same, isMarked⟩ := agrees.mpr rfl
            have blocks := (find?_of_mem distinct live).symm.trans (same ▸ find?_of_mem distinct member)
            rw [Option.some.inj blocks, bit] at isMarked
            cases isMarked

/-- What is left of a heap whose mark phase is over. -/
def sweepPhase (size : A → Nat) (heap : GcHeap A) : GcHeap A :=
  { heap with
    nAllocatedBytes := heap.nAllocatedBytes - totalSize size (heap.allPtrs.filter (!·.marked))
    allPtrs := (heap.allPtrs.filter (·.marked)).map ({ · with marked := false }) }

theorem collectGarbage_eq (traceRefs : A → List Ptr) (size : A → Nat)
    (onMarkRoots : List (List Ptr)) (onDestroyPtr : List (ControlBlock A → S → S))
    (destroy : ControlBlock A → S → S) (heap : GcHeap A) (state : S) :
    collectGarbage traceRefs size onMarkRoots onDestroyPtr destroy heap state =
      ((markPhase traceRefs onMarkRoots heap).sweepPhase size,
        ((markPhase traceRefs onMarkRoots heap).allPtrs.filter (!·.marked)).foldl
          (fun state block => destroy block state)
          (((markPhase traceRefs onMarkRoots heap).allPtrs.filter (!·.marked)).foldl
            (onDestroy onDestroyPtr) state)) := by
  simp only [collectGarbage, sweep_eq, sweepPhase]

theorem objects_sweepPhase (heap : GcHeap A) :
    (heap.sweepPhase size).objects = (heap.allPtrs.filter (·.marked)).map object := by
  simp only [objects, sweepPhase, List.map_map]
  rfl

/-- What is kept, what is removed, and the bytes of both. -/
theorem collectGarbage_objects (traceRefs : A → List Ptr) (size : A → Nat)
    (onMarkRoots : List (List Ptr)) (onDestroyPtr : List (ControlBlock A → S → S))
    (destroy : ControlBlock A → S → S) (heap : GcHeap A) (state : S) (ready : heap.ReadyToCollect) :
    ∃ removed : List (ControlBlock A), ∃ after : GcHeap A,
      collectGarbage traceRefs size onMarkRoots onDestroyPtr destroy heap state =
        (after, removed.foldl (fun state block => destroy block state)
          (removed.foldl (onDestroy onDestroyPtr) state)) ∧
      (∀ ptr value, (ptr, value) ∈ after.objects ↔ (ptr, value) ∈ heap.objects ∧
        Reachable traceRefs heap (onMarkRoots.flatten ++ heap.grayWorklist) ptr) ∧
      (∀ ptr value, (ptr, value) ∈ removed.map object ↔ (ptr, value) ∈ heap.objects ∧
        ¬ Reachable traceRefs heap (onMarkRoots.flatten ++ heap.grayWorklist) ptr) ∧
      (after.allPtrs.map (·.ptr)).Nodup ∧ (removed.map (·.ptr)).Nodup ∧
      (∀ block ∈ after.allPtrs, block.marked = false) ∧ after.grayWorklist = [] ∧
      after.nAllocatedBytes = heap.nAllocatedBytes - totalSize size removed ∧
      totalSize size after.allPtrs + totalSize size removed = totalSize size heap.allPtrs := by
  obtain ⟨objects, bytes, empty, marks⟩ :=
    markPhase_spec ready onMarkRoots
  have distinct := (distinctPtrs_congr objects).mpr ready.distinct
  rw [collectGarbage_eq]
  generalize markPhase traceRefs onMarkRoots heap = swept at *
  have filterTrue : swept.allPtrs.filter (·.marked) = swept.allPtrs.filter (·.marked == true) :=
    List.filter_congr fun block _ => by simp
  have filterFalse : swept.allPtrs.filter (!·.marked) = swept.allPtrs.filter (·.marked == false) :=
    List.filter_congr fun block _ => by simp
  have live (ptr : Ptr) (value : A) (member : (ptr, value) ∈ heap.objects) : heap.Live ptr := by
    obtain ⟨block, blockMember, same⟩ := List.mem_map.mp member
    exact ⟨block, blockMember, congrArg Prod.fst same⟩
  have total : totalSize size swept.allPtrs = totalSize size heap.allPtrs := totalSize_congr objects
  refine ⟨swept.allPtrs.filter (!·.marked), swept.sweepPhase size, rfl,
    ?_, ?_, ?_, ?_, ?_, empty, ?_, ?_⟩
  · intro ptr value
    rw [objects_sweepPhase, filterTrue, objects_filter_marked swept distinct true, objects, marks]
    constructor
    · rintro ⟨member, reached⟩
      exact ⟨member, (reached.mpr rfl).2⟩
    · rintro ⟨member, reached⟩
      exact ⟨member, fun _ => rfl, fun _ => ⟨live ptr value member, reached⟩⟩
  · intro ptr value
    rw [filterFalse, objects_filter_marked swept distinct false, objects, marks]
    constructor
    · rintro ⟨member, notReached⟩
      exact ⟨member, fun reached => by simpa using notReached.mp ⟨live ptr value member, reached⟩⟩
    · rintro ⟨member, notReached⟩
      exact ⟨member, fun ⟨_, reached⟩ => absurd reached notReached, fun isTrue => by cases isTrue⟩
  · rw [ptrs_eq_objects, objects_sweepPhase, List.map_map]
    exact distinct.sublist (List.filter_sublist.map _)
  · exact distinct.sublist (List.filter_sublist.map _)
  · intro block member
    obtain ⟨original, -, rfl⟩ := List.mem_map.mp member
    rfl
  · simp only [sweepPhase, bytes]
  · rw [totalSize_congr (objects_sweepPhase swept), totalSize_filter size swept.allPtrs (·.marked),
      total]

/-- A collection terminates with an empty worklist, keeps exactly the objects that are
reachable from what the root callbacks mark or what was waiting, clears every mark,
calls every callback once for each removed object before any object is destroyed, and
keeps the count of bytes exact without ever going below zero. -/
theorem collectGarbage_exact (traceRefs : A → List Ptr) (size : A → Nat)
    (onMarkRoots : List (List Ptr)) (onDestroyPtr : List (ControlBlock A → S → S))
    (destroy : ControlBlock A → S → S) (heap : GcHeap A) (state : S)
    (ready : heap.ReadyToCollect) (accounted : heap.Accounted size) :
    ∃ removed : List (ControlBlock A), ∃ after : GcHeap A,
      collectGarbage traceRefs size onMarkRoots onDestroyPtr destroy heap state =
        (after, removed.foldl (fun state block => destroy block state)
          (removed.foldl (onDestroy onDestroyPtr) state)) ∧
      (∀ ptr value, (ptr, value) ∈ after.objects ↔ (ptr, value) ∈ heap.objects ∧
        Reachable traceRefs heap (onMarkRoots.flatten ++ heap.grayWorklist) ptr) ∧
      (∀ ptr value, (ptr, value) ∈ removed.map object ↔ (ptr, value) ∈ heap.objects ∧
        ¬ Reachable traceRefs heap (onMarkRoots.flatten ++ heap.grayWorklist) ptr) ∧
      (after.allPtrs.map (·.ptr)).Nodup ∧ (removed.map (·.ptr)).Nodup ∧
      (∀ block ∈ after.allPtrs, block.marked = false) ∧ after.grayWorklist = [] ∧
      after.Accounted size ∧
      ∀ count, 0 ≤ heap.nAllocatedBytes - totalSize size (removed.take count) := by
  obtain ⟨removed, after, runs, kept, gone, distinct, distinctRemoved, clear, empty, bytes, total⟩ :=
    collectGarbage_objects traceRefs size onMarkRoots onDestroyPtr destroy heap state ready
  rw [Accounted] at accounted
  refine ⟨removed, after, runs, kept, gone, distinct, distinctRemoved, clear, empty, ?_, ?_⟩
  · rw [Accounted, bytes, accounted]
    omega
  · intro count
    have prefixSize := totalSize_take_le size removed count
    rw [accounted]
    omega

/-- Two objects that refer to each other and a third that refers to itself; only the
first is waiting. -/
def twoCycles : GcHeap (List Ptr) :=
  { allPtrs := [⟨1, true, [2]⟩, ⟨2, false, [1]⟩, ⟨3, false, [3]⟩]
    grayWorklist := [1]
    nAllocatedBytes := 24 }

theorem collectGarbage_exact_twoCycles :
    twoCycles.ReadyToCollect ∧ twoCycles.Accounted (fun _ => 8) ∧
    ∃ removed : List (ControlBlock (List Ptr)), ∃ after : GcHeap (List Ptr),
      collectGarbage id (fun _ => 8) [] [fun block log => log ++ [block.ptr]]
        (fun block log => log ++ [block.ptr + 10]) twoCycles [] =
        (after, removed.foldl (fun log block => log ++ [block.ptr + 10])
          (removed.foldl (onDestroy [fun block log => log ++ [block.ptr]]) [])) ∧
      after.grayWorklist = [] ∧ after.Accounted (fun _ => 8) := by
  have ready : twoCycles.ReadyToCollect := by
    refine ⟨by unfold DistinctPtrs; decide, fun ptr => ?_⟩
    simpa [MarkedAt, twoCycles] using eq_comm
  have accounted : twoCycles.Accounted (fun _ => 8) := by unfold Accounted; decide
  obtain ⟨removed, after, run, -, -, -, -, -, empty, counted, -⟩ :=
    collectGarbage_exact id (fun _ => 8) [] [fun block log => log ++ [block.ptr]]
      (fun block log => log ++ [block.ptr + 10]) twoCycles [] ready accounted
  exact ⟨ready, accounted, removed, after, run, empty, counted⟩

end Cpplox.GcHeap
