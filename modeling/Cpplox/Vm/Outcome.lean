import Cpplox.Memory.Contents
import Cpplox.Vm.Run

namespace Cpplox

open Data

/-! What the elementary operations of the machine do, as equations on their runs. -/

variable {N A B : Type} {vm laterVm after : VM N}

/-- The state an operation leaves, also when it throws. -/
def final (operation : VmM N A) (vm : VM N) : VM N :=
  match operation vm with
  | .ok _ after => after
  | .error _ after => after

theorem final_ok {operation : VmM N A} {value : A} (runs : operation vm = .ok value after) :
    final operation vm = after := by
  rw [final, runs]

theorem final_error {operation : VmM N A} {error : VmError} (runs : operation vm = .error error after) :
    final operation vm = after := by
  rw [final, runs]

theorem VmM.bind_ok {first : VmM N A} {rest : A → VmM N B} {result : B} :
    (first >>= rest) vm = .ok result after ↔
      ∃ value middle, first vm = .ok value middle ∧ rest value middle = .ok result after := by
  change EStateM.bind first rest vm = _ ↔ _
  rw [EStateM.bind]
  cases first vm with
  | ok value middle => simp
  | error error middle => simp

theorem VmM.bind_error {first : VmM N A} {rest : A → VmM N B} {error : VmError} :
    (first >>= rest) vm = .error error after ↔ first vm = .error error after ∨
      ∃ value middle, first vm = .ok value middle ∧ rest value middle = .error error after := by
  change EStateM.bind first rest vm = _ ↔ _
  rw [EStateM.bind]
  cases first vm with
  | ok value middle => simp
  | error error middle => simp

/-- Where a sequence of operations ends. -/
theorem final_bind (first : VmM N A) (rest : A → VmM N B) (vm : VM N) :
    final (first >>= rest) vm = final first vm ∨
      ∃ value, first vm = .ok value (final first vm) ∧
        final (first >>= rest) vm = final (rest value) (final first vm) := by
  have unfold : (first >>= rest) vm = EStateM.bind first rest vm := rfl
  simp only [final, unfold, EStateM.bind]
  cases first vm with
  | ok value middle => exact .inr ⟨value, rfl, rfl⟩
  | error error middle => exact .inl rfl

@[simp] theorem final_pure (value : A) : final (pure value : VmM N A) vm = vm := rfl

@[simp] theorem final_throw (error : VmError) : final (throw error : VmM N A) vm = vm := rfl

@[simp] theorem final_get : final (get : VmM N (VM N)) vm = vm := rfl

@[simp] theorem final_modify (change : VM N → VM N) :
    final (modify change : VmM N Unit) vm = change vm := rfl

@[simp] theorem final_set (laterVm : VM N) : final (set laterVm : VmM N Unit) vm = laterVm := rfl

variable {ptr : Ptr}

theorem VmM.pure_ok {value result : A} :
    (pure value : VmM N A) vm = .ok result after ↔ result = value ∧ after = vm := by
  change EStateM.Result.ok value vm = _ ↔ _
  simp [eq_comm]

theorem VmM.throw_ok {error : VmError} {result : A} :
    (throw error : VmM N A) vm = .ok result after ↔ False := by
  change EStateM.Result.error error vm = _ ↔ _
  simp

theorem VmM.get_ok {result : VM N} :
    (get : VmM N (VM N)) vm = .ok result after ↔ result = vm ∧ after = vm := by
  change EStateM.Result.ok vm vm = _ ↔ _
  simp [eq_comm]

theorem VmM.modify_ok {change : VM N → VM N} {result : Unit} :
    (modify change : VmM N Unit) vm = .ok result after ↔ after = change vm := by
  change EStateM.Result.ok () (change vm) = _ ↔ _
  simp [eq_comm]

theorem VmM.set_ok {laterVm : VM N} {result : Unit} :
    (set laterVm : VmM N Unit) vm = .ok result after ↔ after = laterVm := by
  change EStateM.Result.ok () laterVm = _ ↔ _
  simp [eq_comm]

theorem getObject_run : getObject ptr vm =
    match vm.gcHeap.valueAt ptr with
    | some object => .ok object vm
    | none => .error .undefined vm := by
  cases found : vm.gcHeap.valueAt ptr with
  | some object => exact VmM.bind_ok.mpr ⟨vm, vm, rfl, by simp only [found]; rfl⟩
  | none => exact VmM.bind_error.mpr (.inr ⟨vm, vm, rfl, by simp only [found]; rfl⟩)

/-- A read through a pointer goes through when the object is of the kind that is read. -/
theorem getObject_ok {read : Object N → VmM N A} (kind : A → Object N) {result : A}
    (reads : ∀ object, read object vm = .ok result after ↔ after = vm ∧ object = kind result) :
    (getObject ptr >>= read) vm = .ok result after ↔
      after = vm ∧ vm.gcHeap.valueAt ptr = some (kind result) := by
  rw [VmM.bind_ok, getObject_run]
  cases vm.gcHeap.valueAt ptr with
  | none => simp
  | some object =>
      constructor
      · rintro ⟨_, _, found, continues⟩
        cases found
        obtain ⟨same, rfl⟩ := (reads object).mp continues
        exact ⟨same, rfl⟩
      · rintro ⟨same, kind⟩
        exact ⟨object, vm, rfl, (reads object).mpr ⟨same, Option.some.inj kind⟩⟩

theorem getBoundMethod_ok {result : BoundMethod} : getBoundMethod ptr vm = .ok result after ↔
    after = vm ∧ vm.gcHeap.valueAt ptr = some (.boundMethod result) :=
  getObject_ok .boundMethod fun object => by
    cases object <;> simp [VmM.pure_ok, VmM.throw_ok, and_comm, eq_comm]

theorem getClass_ok {result : Class} : getClass ptr vm = .ok result after ↔
    after = vm ∧ vm.gcHeap.valueAt ptr = some (.class_ result) :=
  getObject_ok .class_ fun object => by
    cases object <;> simp [VmM.pure_ok, VmM.throw_ok, and_comm, eq_comm]

theorem getClosure_ok {result : Closure} : getClosure ptr vm = .ok result after ↔
    after = vm ∧ vm.gcHeap.valueAt ptr = some (.closure result) :=
  getObject_ok .closure fun object => by
    cases object <;> simp [VmM.pure_ok, VmM.throw_ok, and_comm, eq_comm]

theorem getFunction_ok {result : HeapFunction N} : getFunction ptr vm = .ok result after ↔
    after = vm ∧ vm.gcHeap.valueAt ptr = some (.function result) :=
  getObject_ok .function fun object => by
    cases object <;> simp [VmM.pure_ok, VmM.throw_ok, and_comm, eq_comm]

theorem getInstance_ok {result : Instance N} : getInstance ptr vm = .ok result after ↔
    after = vm ∧ vm.gcHeap.valueAt ptr = some (.instance_ result) :=
  getObject_ok .instance_ fun object => by
    cases object <;> simp [VmM.pure_ok, VmM.throw_ok, and_comm, eq_comm]

theorem getString_ok {result : Text} : getString ptr vm = .ok result after ↔
    after = vm ∧ vm.gcHeap.valueAt ptr = some (.string result) :=
  getObject_ok .string fun object => by
    cases object <;> simp [VmM.pure_ok, VmM.throw_ok, and_comm, eq_comm]

theorem getNativeFn_ok {result : Unit} : getNativeFn ptr vm = .ok result after ↔
    after = vm ∧ vm.gcHeap.valueAt ptr = some .nativeFn :=
  getObject_ok (fun _ => .nativeFn) fun object => by
    cases object <;> simp [VmM.pure_ok, VmM.throw_ok, and_comm, eq_comm]

theorem getUpvalue_ok {result : Upvalue N} : getUpvalue ptr vm = .ok result after ↔
    after = vm ∧ vm.gcHeap.valueAt ptr = some (.upvalue result) :=
  getObject_ok .upvalue fun object => by
    cases object <;> simp [VmM.pure_ok, VmM.throw_ok, and_comm, eq_comm]

end Cpplox
