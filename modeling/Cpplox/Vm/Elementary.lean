import Cpplox.Vm.Interleaving

namespace Cpplox

open Data

/-! What the elementary operations of the machine do when they succeed. -/

variable {N A B : Type} {platform : Platform N} {vm laterVm after : VM N} {ptr : Ptr}
  {value : Value N} {index count depth : Nat} {result : Unit}

/-- The machine after a write through a pointer. -/
def VM.updated (vm : VM N) (ptr : Ptr) (object : Object N) : VM N :=
  { vm with gcHeap := vm.gcHeap.update ptr object }

theorem valueAt_updated {old : Object N} (found : vm.gcHeap.valueAt ptr = some old)
    (object : Object N) (other : Ptr) : (vm.updated ptr object).gcHeap.valueAt other =
      if other = ptr then some object else vm.gcHeap.valueAt other :=
  GcHeap.valueAt_update (GcHeap.valueAt_isSome.mp ⟨old, found⟩) object other

theorem peek_ok : peek depth vm = .ok value after ↔ after = vm ∧ vm.stack[depth]? = some value := by
  constructor
  · intro runs
    obtain ⟨now, middle, gets, matched⟩ := VmM.bind_ok.mp runs
    obtain ⟨rfl, rfl⟩ := VmM.get_ok.mp gets
    cases found : middle.stack[depth]? with
    | none =>
        rw [found] at matched
        exact (VmM.throw_ok.mp matched).elim
    | some top =>
        rw [found] at matched
        obtain ⟨rfl, rfl⟩ := VmM.pure_ok.mp matched
        exact ⟨rfl, rfl⟩
  · rintro ⟨rfl, found⟩
    exact VmM.bind_ok.mpr ⟨after, after, rfl, by rw [found]; rfl⟩

theorem push_ok : push value vm = .ok result after ↔ after = { vm with stack := value :: vm.stack } :=
  VmM.modify_ok

theorem erase_ok : erase count vm = .ok result after ↔
    count ≤ vm.stack.length ∧ after = { vm with stack := vm.stack.drop count } := by
  have unfold : erase count vm = (if count ≤ vm.stack.length then
      set { vm with stack := vm.stack.drop count } else (throw .undefined : VmM N Unit)) vm := rfl
  rw [unfold]
  split
  next enough => simp [VmM.set_ok, enough]
  next short => simp [VmM.throw_ok, short]

theorem replace_ok : replace depth value vm = .ok result after ↔
    after = { vm with stack := vm.stack.set depth value } := VmM.modify_ok

theorem setObject_ok {object : Object N} : setObject ptr object vm = .ok result after ↔
    after = vm.updated ptr object := VmM.modify_ok

theorem make_ok {object : Object N} : make platform object vm = .ok ptr after ↔
    ptr = vm.fresh platform ∧ after = vm.made platform object := by
  rw [run_make]
  simp [eq_comm]

theorem intern_ok {chars : Text} : intern platform chars vm = .ok ptr after ↔
    lookup vm.internedStrings.stringsByChars chars = some ptr ∧ after = vm ∨
    lookup vm.internedStrings.stringsByChars chars = none ∧ ptr = vm.fresh platform ∧
      after = vm.withString platform chars := by
  cases found : lookup vm.internedStrings.stringsByChars chars with
  | some known => simp [run_intern_known found, eq_comm]
  | none => simp [run_intern_new found, eq_comm]

theorem intern_stack {chars : Text} (interns : intern platform chars vm = .ok ptr after) :
    after.stack = vm.stack := by
  rcases intern_ok.mp interns with ⟨-, rfl⟩ | ⟨-, -, rfl⟩
  · rfl
  · rfl

theorem constantAt_ok {chunk : Chunk (Value N) Ptr} : constantAt chunk index vm = .ok value after ↔
    after = vm ∧ chunk.constants[index]? = some value := by
  unfold constantAt
  cases chunk.constants[index]? with
  | none => simp [VmM.throw_ok]
  | some found => simp [VmM.pure_ok, eq_comm, and_comm]

theorem nameAt_ok {chunk : Chunk (Value N) Ptr} : nameAt chunk index vm = .ok ptr after ↔
    after = vm ∧ chunk.constants[index]? = some (.string ptr) := by
  simp only [nameAt, VmM.bind_ok, constantAt_ok]
  constructor
  · rintro ⟨value, middle, ⟨rfl, found⟩, matched⟩
    cases value with
    | string name =>
        obtain ⟨rfl, rfl⟩ := VmM.pure_ok.mp matched
        exact ⟨rfl, found⟩
    | _ => exact (VmM.throw_ok.mp matched).elim
  · rintro ⟨rfl, found⟩
    exact ⟨_, _, ⟨rfl, found⟩, rfl⟩

theorem functionAt_ok {chunk : Chunk (Value N) Ptr} : functionAt chunk index vm = .ok ptr after ↔
    after = vm ∧ chunk.constants[index]? = some (.function ptr) := by
  simp only [functionAt, VmM.bind_ok, constantAt_ok]
  constructor
  · rintro ⟨value, middle, ⟨rfl, found⟩, matched⟩
    cases value with
    | function ptr =>
        obtain ⟨rfl, rfl⟩ := VmM.pure_ok.mp matched
        exact ⟨rfl, found⟩
    | _ => exact (VmM.throw_ok.mp matched).elim
  · rintro ⟨rfl, found⟩
    exact ⟨_, _, ⟨rfl, found⟩, rfl⟩

theorem stackIndex_ok : stackIndex ptr vm = .ok index after ↔
    after = vm ∧ vm.gcHeap.valueAt ptr = some (.upvalue (.open_ index)) := by
  simp only [stackIndex, VmM.bind_ok, getUpvalue_ok]
  constructor
  · rintro ⟨upvalue, middle, ⟨rfl, found⟩, matched⟩
    cases upvalue with
    | open_ index =>
        obtain ⟨rfl, rfl⟩ := VmM.pure_ok.mp matched
        exact ⟨rfl, found⟩
    | closed => exact (VmM.throw_ok.mp matched).elim
  · rintro ⟨rfl, found⟩
    exact ⟨_, _, ⟨rfl, found⟩, rfl⟩

theorem upvalueValue_ok : upvalueValue ptr vm = .ok value after ↔ after = vm ∧
    ∃ upvalue, vm.gcHeap.valueAt ptr = some (.upvalue upvalue) ∧
      upvalue.value? vm.stack = some value := by
  constructor
  · intro runs
    obtain ⟨upvalue, middle, finds, reads⟩ := VmM.bind_ok.mp runs
    obtain ⟨rfl, found⟩ := getUpvalue_ok.mp finds
    obtain ⟨now, later, gets, matched⟩ := VmM.bind_ok.mp reads
    obtain ⟨rfl, rfl⟩ := VmM.get_ok.mp gets
    cases read : upvalue.value? later.stack with
    | none =>
        rw [read] at matched
        exact (VmM.throw_ok.mp matched).elim
    | some there =>
        rw [read] at matched
        obtain ⟨rfl, rfl⟩ := VmM.pure_ok.mp matched
        exact ⟨rfl, upvalue, found, read⟩
  · rintro ⟨rfl, upvalue, found, read⟩
    exact VmM.bind_ok.mpr ⟨upvalue, after, getUpvalue_ok.mpr ⟨rfl, found⟩,
      VmM.bind_ok.mpr ⟨after, after, rfl, by rw [read]; rfl⟩⟩

theorem closeUpvalue_ok : closeUpvalue ptr vm = .ok result after ↔
    ∃ upvalue value, vm.gcHeap.valueAt ptr = some (.upvalue upvalue) ∧
      upvalue.value? vm.stack = some value ∧
      after = vm.updated ptr (.upvalue (.closed value)) := by
  simp only [closeUpvalue, VmM.bind_ok, upvalueValue_ok, setObject_ok]
  constructor
  · rintro ⟨value, _, ⟨rfl, upvalue, found, read⟩, same⟩
    exact ⟨upvalue, value, found, read, same⟩
  · rintro ⟨upvalue, value, found, read, same⟩
    exact ⟨value, vm, ⟨rfl, upvalue, found, read⟩, same⟩

/-- After a read the machine is the same. -/
theorem ReadOnly.bind_ok {first : VmM N A} {rest : A → VmM N B} {value : B}
    (reads : ReadOnly first) (runs : (first >>= rest) vm = .ok value after) :
    ∃ found, first vm = .ok found vm ∧ rest found vm = .ok value after := by
  obtain ⟨found, middle, finds, continues⟩ := VmM.bind_ok.mp runs
  obtain rfl := reads.ok finds
  exact ⟨found, finds, continues⟩

theorem get_bind {rest : VM N → VmM N B} {value : B}
    (runs : (MonadState.get >>= rest) vm = .ok value after) : rest vm vm = .ok value after := runs

theorem peek_bind {rest : Value N → VmM N B} {value : B}
    (runs : (peek depth >>= rest) vm = .ok value after) :
    ∃ found, vm.stack[depth]? = some found ∧ rest found vm = .ok value after := by
  obtain ⟨found, peeks, continues⟩ := (reads_peek depth).bind_ok runs
  exact ⟨found, (peek_ok.mp peeks).2, continues⟩

/-- The values on top of the stack are replaced by one. -/
theorem erase_push_ok {taken rest : List (Value N)} (stack : vm.stack = taken ++ rest)
    (runs : (do erase taken.length; push value) vm = .ok result after) :
    after = { vm with stack := value :: rest } := by
  obtain ⟨done, shorter, erases, pushes⟩ := VmM.bind_ok.mp runs
  obtain ⟨-, rfl⟩ := erase_ok.mp erases
  obtain rfl := push_ok.mp pushes
  simp only [stack, List.drop_left]

theorem erase_one_ok {rest : List (Value N)} (stack : vm.stack = value :: rest)
    (runs : erase 1 vm = .ok result after) : after = { vm with stack := rest } := by
  obtain ⟨-, rfl⟩ := erase_ok.mp runs
  simp only [stack, List.drop_succ_cons, List.drop_zero]

theorem throwAt_ok {token : SourceMapToken Ptr} {what : Text} {value : A}
    (runs : throwAt token what vm = .ok value after) : False := by
  obtain ⟨_, _, -, throws⟩ := VmM.bind_ok.mp runs
  exact VmM.throw_ok.mp throws

theorem throwUndefined_ok {token : SourceMapToken Ptr} {kind : Text} {name : Ptr} {value : A}
    (runs : throwUndefined token kind name vm = .ok value after) : False := by
  obtain ⟨_, _, -, throws⟩ := VmM.bind_ok.mp runs
  exact VmM.throw_ok.mp throws

/-- An open upvalue whose index has a property. -/
def VM.OpenAt (vm : VM N) (ptr : Ptr) (property : Nat → Prop) : Prop :=
  ∃ index, vm.gcHeap.valueAt ptr = some (.upvalue (.open_ index)) ∧ property index

theorem findOpenUpvalue_ok {upvalues : List Ptr} {found : Option Ptr}
    (runs : findOpenUpvalue index upvalues vm = .ok found after) : after = vm ∧
      match found with
      | some upvalue => ∃ front rest, upvalues = front ++ upvalue :: rest ∧
          (∀ other ∈ front, vm.OpenAt other (· ≠ index)) ∧ vm.OpenAt upvalue (· = index)
      | none => ∀ other ∈ upvalues, vm.OpenAt other (· ≠ index) := by
  induction upvalues with
  | nil =>
      obtain ⟨rfl, rfl⟩ := VmM.pure_ok.mp runs
      exact ⟨rfl, by simp⟩
  | cons upvalue rest ih =>
      obtain ⟨here, middle, reads, continues⟩ := VmM.bind_ok.mp runs
      obtain ⟨rfl, isOpen⟩ := stackIndex_ok.mp reads
      split at continues
      next same =>
          obtain ⟨rfl, rfl⟩ := VmM.pure_ok.mp continues
          exact ⟨rfl, [], rest, rfl, by simp, here, isOpen, same⟩
      next different =>
          obtain ⟨rfl, found⟩ := ih continues
          refine ⟨rfl, ?_⟩
          have first : after.OpenAt upvalue (· ≠ index) := ⟨here, isOpen, different⟩
          split at found
          next =>
              obtain ⟨front, later, rfl, others, there⟩ := found
              exact ⟨upvalue :: front, later, rfl, List.forall_mem_cons.mpr ⟨first, others⟩, there⟩
          next => exact List.forall_mem_cons.mpr ⟨first, found⟩

theorem insertOpenUpvalue_ok {upvalues inserted : List Ptr}
    (runs : insertOpenUpvalue index ptr upvalues vm = .ok inserted after) : after = vm ∧
      ∃ lower upper, upvalues = lower ++ upper ∧ inserted = lower ++ ptr :: upper ∧
        (∀ other ∈ lower, vm.OpenAt other (· ≤ index)) ∧
        ∀ other ∈ upper.head?, vm.OpenAt other (index < ·) := by
  induction upvalues generalizing inserted with
  | nil =>
      obtain ⟨rfl, rfl⟩ := VmM.pure_ok.mp runs
      exact ⟨rfl, [], [], rfl, rfl, by simp, by simp⟩
  | cons upvalue rest ih =>
      obtain ⟨here, middle, reads, continues⟩ := VmM.bind_ok.mp runs
      obtain ⟨rfl, isOpen⟩ := stackIndex_ok.mp reads
      split at continues
      next above =>
          obtain ⟨rfl, rfl⟩ := VmM.pure_ok.mp continues
          exact ⟨rfl, [], upvalue :: rest, rfl, rfl, by simp, by simpa using ⟨here, isOpen, above⟩⟩
      next below =>
          obtain ⟨later, _, inserts, returns⟩ := VmM.bind_ok.mp continues
          obtain ⟨rfl, rfl⟩ := VmM.pure_ok.mp returns
          obtain ⟨rfl, lower, upper, rfl, rfl, under, above⟩ := ih inserts
          exact ⟨rfl, upvalue :: lower, upper, rfl, rfl,
            List.forall_mem_cons.mpr ⟨⟨here, isOpen, Nat.le_of_not_lt below⟩, under⟩, above⟩

/-- The upvalue becomes the next one of a closure. -/
def VM.withUpvalue (vm : VM N) (ptr : Ptr) (made : Closure) (upvalue : Ptr) : VM N :=
  vm.updated ptr (.closure { made with upvalues := made.upvalues ++ [upvalue] })

theorem addUpvalue_ok {upvalue : Ptr} : addUpvalue ptr upvalue vm = .ok result after ↔
    ∃ made, vm.gcHeap.valueAt ptr = some (.closure made) ∧
      after = vm.withUpvalue ptr made upvalue := by
  simp only [addUpvalue, VmM.bind_ok, getClosure_ok, setObject_ok]
  constructor
  · rintro ⟨made, middle, ⟨rfl, found⟩, same⟩
    exact ⟨made, found, same⟩
  · rintro ⟨made, found, same⟩
    exact ⟨made, vm, ⟨rfl, found⟩, same⟩

variable (platform) in
/-- One capture of a new closure. -/
inductive Captured (activation : Activation N) (ptr : Ptr) (vm : VM N) : TrackedUpvalue → VM N → Prop
  /-- A local that is open already. -/
  | shared {index : Nat} {enclosing made : Closure} {front rest : List Ptr} {upvalue : Ptr} :
      vm.gcHeap.valueAt activation.closure = some (.closure enclosing) →
      enclosing.openUpvalues = front ++ upvalue :: rest →
      (∀ other ∈ front, vm.OpenAt other (· ≠ activation.stackBeginIndex + index)) →
      vm.OpenAt upvalue (· = activation.stackBeginIndex + index) →
      vm.gcHeap.valueAt ptr = some (.closure made) →
      Captured activation ptr vm (.upvalueIndex index) (vm.withUpvalue ptr made upvalue)
  /-- A local that is not open yet. -/
  | opened {index : Nat} {enclosing made : Closure} {lower upper : List Ptr} {middle after : VM N} :
      vm.gcHeap.valueAt activation.closure = some (.closure enclosing) →
      (∀ other ∈ enclosing.openUpvalues, vm.OpenAt other (· ≠ activation.stackBeginIndex + index)) →
      vm.made platform (.upvalue (.open_ (activation.stackBeginIndex + index))) = middle →
      middle.gcHeap.valueAt ptr = some (.closure made) →
      enclosing.openUpvalues = lower ++ upper →
      (∀ other ∈ lower, vm.OpenAt other (· < activation.stackBeginIndex + index)) →
      (∀ other ∈ upper.head?, vm.OpenAt other (activation.stackBeginIndex + index < ·)) →
      after = middle.withUpvalue ptr made (vm.fresh platform) →
      Captured activation ptr vm (.upvalueIndex index)
        (after.updated activation.closure
          (.closure { enclosing with openUpvalues := lower ++ vm.fresh platform :: upper }))
  /-- An upvalue of the enclosing function. -/
  | passed {index : Nat} {enclosing made : Closure} {upvalue : Ptr} :
      vm.gcHeap.valueAt activation.closure = some (.closure enclosing) →
      enclosing.upvalues[index]? = some upvalue →
      vm.gcHeap.valueAt ptr = some (.closure made) →
      Captured activation ptr vm (.upUpvalueIndex index) (vm.withUpvalue ptr made upvalue)

variable (platform) in
inductive CapturedAll (activation : Activation N) (ptr : Ptr) :
    VM N → List TrackedUpvalue → VM N → Prop
  | nil {vm : VM N} : CapturedAll activation ptr vm [] vm
  | cons {vm middle after : VM N} {capture : TrackedUpvalue} {rest : List TrackedUpvalue} :
      Captured platform activation ptr vm capture middle →
      CapturedAll activation ptr middle rest after →
      CapturedAll activation ptr vm (capture :: rest) after

theorem valueAt_made_of {object old : Object N} (found : vm.gcHeap.valueAt ptr = some old) :
    (vm.made platform object).gcHeap.valueAt ptr = some old := by
  rw [valueAt_made]
  split
  next same =>
      rw [same, valueAt_fresh] at found
      cases found
  next => exact found

/-- Upvalues are not written when a closure is. -/
theorem valueAt_withUpvalue {made : Closure} {other upvalue : Ptr} {captured : Upvalue N}
    (here : vm.gcHeap.valueAt ptr = some (.closure made))
    (there : vm.gcHeap.valueAt other = some (.upvalue captured)) :
    (vm.withUpvalue ptr made upvalue).gcHeap.valueAt other = some (.upvalue captured) := by
  rw [VM.withUpvalue, valueAt_updated here]
  split
  next same =>
      rw [same, here] at there
      cases there
  next => exact there

theorem capture_ok {activation : Activation N} {tracked : TrackedUpvalue}
    (runs : capture platform activation ptr tracked vm = .ok result after) :
    Captured platform activation ptr vm tracked after := by
  cases tracked with
  | upvalueIndex index =>
      obtain ⟨enclosing, middle, reads, searches⟩ := VmM.bind_ok.mp runs
      obtain ⟨rfl, there⟩ := getClosure_ok.mp reads
      obtain ⟨found, last, finds, continues⟩ := VmM.bind_ok.mp searches
      obtain ⟨rfl, outcome⟩ := findOpenUpvalue_ok finds
      cases found with
      | some upvalue =>
          obtain ⟨made, here, rfl⟩ := addUpvalue_ok.mp continues
          obtain ⟨front, rest, split, others, isOpen⟩ := outcome
          exact .shared there split others isOpen here
      | none =>
          obtain ⟨upvalue, fresh, makes, adds⟩ := VmM.bind_ok.mp continues
          obtain ⟨rfl, rfl⟩ := make_ok.mp makes
          obtain ⟨done, added, adds, inserts⟩ := VmM.bind_ok.mp adds
          obtain ⟨made, here, rfl⟩ := addUpvalue_ok.mp adds
          obtain ⟨inserted, _, inserts, writes⟩ := VmM.bind_ok.mp inserts
          obtain ⟨rfl, lower, upper, split, rfl, under, above⟩ := insertOpenUpvalue_ok inserts
          obtain rfl := setObject_ok.mp writes
          have indexes (property : Nat → Prop) (other : Ptr) (member : other ∈ enclosing.openUpvalues)
              (isOpen : VM.OpenAt ((last.made platform (.upvalue (.open_
                (activation.stackBeginIndex + index)))).withUpvalue ptr made
                  (last.fresh platform)) other property) :
              last.OpenAt other fun found =>
                property found ∧ found ≠ activation.stackBeginIndex + index := by
            obtain ⟨found, laterIsOpen, different⟩ := outcome other member
            obtain ⟨again, isOpen, holds⟩ := isOpen
            rw [valueAt_withUpvalue here (valueAt_made_of laterIsOpen)] at isOpen
            cases isOpen
            exact ⟨found, laterIsOpen, holds, different⟩
          refine .opened there outcome rfl here split (fun other member => ?_)
            (fun other member => ?_) rfl
          · obtain ⟨found, isOpen, le, different⟩ := indexes _ other
              (split ▸ List.mem_append_left _ member) (under other member)
            exact ⟨found, isOpen, Nat.lt_of_le_of_ne le different⟩
          · obtain ⟨found, isOpen, above, -⟩ := indexes _ other
              (split ▸ List.mem_append_right _ (List.mem_of_mem_head? member)) (above other member)
            exact ⟨found, isOpen, above⟩
  | upUpvalueIndex index =>
      obtain ⟨enclosing, middle, reads, matched⟩ := VmM.bind_ok.mp runs
      obtain ⟨rfl, there⟩ := getClosure_ok.mp reads
      cases found : enclosing.upvalues[index]? with
      | none =>
          rw [found] at matched
          exact (VmM.throw_ok.mp matched).elim
      | some upvalue =>
          rw [found] at matched
          obtain ⟨made, here, rfl⟩ := addUpvalue_ok.mp matched
          exact .passed there found here

theorem CapturedAll.onlyHeap {activation : Activation N} {captures : List TrackedUpvalue}
    (captured : CapturedAll platform activation ptr vm captures after) :
    after = { vm with gcHeap := after.gcHeap, nMade := after.nMade } := by
  induction captured with
  | nil => rfl
  | cons first _ ih =>
      refine ih.trans ?_
      cases first with
      | shared | passed => rfl
      | opened _ _ made _ _ _ _ same =>
          subst same made
          rfl

theorem captureAll_ok {activation : Activation N} {captures : List TrackedUpvalue}
    (runs : captureAll platform activation ptr captures vm = .ok result after) :
    CapturedAll platform activation ptr vm captures after := by
  induction captures generalizing vm with
  | nil =>
      obtain ⟨-, rfl⟩ := VmM.pure_ok.mp runs
      exact .nil
  | cons tracked rest ih =>
      obtain ⟨done, middle, first, others⟩ := VmM.bind_ok.mp runs
      exact .cons (capture_ok first) (ih others)

/-- The upvalues are closed one after the other. -/
inductive Closes : VM N → List Ptr → VM N → Prop
  | nil {vm : VM N} : Closes vm [] vm
  | cons {vm after : VM N} {ptr : Ptr} {rest : List Ptr} {upvalue : Upvalue N} {value : Value N} :
      vm.gcHeap.valueAt ptr = some (.upvalue upvalue) → upvalue.value? vm.stack = some value →
      Closes (vm.updated ptr (.upvalue (.closed value))) rest after → Closes vm (ptr :: rest) after

theorem Closes.onlyHeap {upvalues : List Ptr} (closes : Closes vm upvalues after) :
    after = { vm with gcHeap := after.gcHeap } := by
  induction closes with
  | nil => rfl
  | cons _ _ _ ih => exact ih

theorem closeAll_ok {upvalues : List Ptr} (runs : closeAll upvalues vm = .ok result after) :
    Closes vm upvalues after := by
  induction upvalues generalizing vm with
  | nil =>
      obtain ⟨-, rfl⟩ := VmM.pure_ok.mp runs
      exact .nil
  | cons upvalue rest ih =>
      obtain ⟨done, middle, first, others⟩ := VmM.bind_ok.mp runs
      obtain ⟨captured, value, found, read, rfl⟩ := closeUpvalue_ok.mp first
      exact .cons found read (ih others)

theorem arityOf_ok {arity : Nat} : arityOf ptr vm = .ok arity after ↔ after = vm ∧
    ∃ closure function, vm.gcHeap.valueAt ptr = some (.closure closure) ∧
      vm.gcHeap.valueAt closure.function = some (.function function) ∧ function.arity = arity := by
  simp only [arityOf, VmM.bind_ok, getClosure_ok, getFunction_ok, VmM.pure_ok]
  constructor
  · rintro ⟨closure, middle, ⟨rfl, found⟩, function, last, ⟨rfl, code⟩, rfl, rfl⟩
    exact ⟨rfl, closure, function, found, code, rfl⟩
  · rintro ⟨rfl, closure, function, found, code, rfl⟩
    exact ⟨closure, after, ⟨rfl, found⟩, function, after, ⟨rfl, code⟩, rfl, rfl⟩

theorem pushFrame_ok : pushFrame ptr count vm = .ok result after ↔
    after = { vm with callFrames :=
      { closure := ptr, stackBeginIndex := vm.stack.length - count - 1 } :: vm.callFrames } :=
  VmM.modify_ok

/-- The top of the stack and what is below. -/
theorem stack_top {stack : List (Value N)} (top : stack[0]? = some value) :
    ∃ rest, stack = value :: rest := by
  cases stack with
  | nil => cases top
  | cons head rest =>
      cases top
      exact ⟨rest, rfl⟩

theorem stack_two {stack : List (Value N)} {below : Value N} (top : stack[0]? = some value)
    (next : stack[1]? = some below) : ∃ rest, stack = value :: below :: rest := by
  obtain ⟨rest, rfl⟩ := stack_top top
  obtain ⟨later, rfl⟩ := stack_top next
  exact ⟨later, rfl⟩

end Cpplox
