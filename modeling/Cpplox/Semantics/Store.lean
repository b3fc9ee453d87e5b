import Cpplox.Vm.Loading

namespace Cpplox

open Data

/-! What programs see of the machine: values without the heap. -/

/-- A value as a program sees it.  Strings are their characters; an object that is not a
string is its pointer, with what printing it shows. -/
inductive Datum (N : Type) where
  | nil
  | bool (value : Bool)
  | number (value : N)
  | string (chars : Text)
  | object (value : Value N) (text : Text)
deriving Repr

namespace Datum

variable {N : Type}

def isTruthy : Datum N → Bool
  | nil => false
  | bool value => value
  | _ => true

def equal [Number N] : Datum N → Datum N → Bool
  | nil, nil => true
  | bool left, bool right => left = right
  | number left, number right => Number.equal left right
  | string left, string right => left = right
  | object left _, object right _ => left.equal right
  | _, _ => false

def text [Number N] : Datum N → Text
  | nil => "nil".toList
  | bool true => "true".toList
  | bool false => "false".toList
  | number value => Number.print value
  | string chars => chars
  | object _ text => text

end Datum

/-- The stack is kept back first. -/
@[ext]
structure Store (N : Type) where
  stack : List (Datum N)
  globals : Text → Option (Datum N)
  output : List Text

variable {N : Type} [Number N] {platform : Platform N} {vm after : VM N} {heap later : GcHeap (Object N)}
  {value : Value N} {ptr : Ptr} {name : Text}

/-- What printing a value shows. -/
def GcHeap.textOf (heap : GcHeap (Object N)) (value : Value N) : Text :=
  match valueText value { gcHeap := heap } with
  | .ok text _ => text
  | .error _ _ => []

def GcHeap.datum (heap : GcHeap (Object N)) : Value N → Datum N
  | .nil => .nil
  | .bool value => .bool value
  | .number value => .number value
  | .string ptr => .string (heap.textOf (.string ptr))
  | value => .object value (heap.textOf value)

/-- What the variables of the outermost scope hold. -/
def VM.globalAt (vm : VM N) (name : Text) : Option (Value N) :=
  (lookup vm.internedStrings.stringsByChars name).bind (lookup vm.globals)

def VM.store (vm : VM N) : Store N where
  stack := vm.stack.map vm.gcHeap.datum
  globals name := (vm.globalAt name).map vm.gcHeap.datum
  output := vm.output

/-- What is kept is still there with what it refers to, and that is kept as well. -/
def Retains (stack : List (Value N)) (keeps : Ptr → Prop) (heap later : GcHeap (Object N)) : Prop :=
  ∀ ptr object, keeps ptr → heap.valueAt ptr = some object →
    later.valueAt ptr = some object ∧ ∀ other ∈ object.traceRefs stack, keeps other

section

variable {stack : List (Value N)} {keeps : Ptr → Prop} {text : Text}

omit [Number N] in
theorem Retains.functionText {function : HeapFunction N} (retains : Retains stack keeps heap later)
    (name : keeps function.name) (runs : functionText function { gcHeap := heap } = .ok text after) :
    functionText function ({ vm with gcHeap := later } : VM N) = .ok text { vm with gcHeap := later } := by
  obtain ⟨chars, middle, reads, returns⟩ := VmM.bind_ok.mp runs
  obtain ⟨rfl, found⟩ := getString_ok.mp reads
  obtain ⟨rfl, -⟩ := VmM.pure_ok.mp returns
  exact VmM.bind_ok.mpr ⟨chars, _, getString_ok.mpr ⟨rfl, (retains _ _ name found).1⟩, rfl⟩

omit [Number N] in
theorem Retains.closureText (retains : Retains stack keeps heap later) (kept : keeps ptr)
    (runs : closureText ptr { gcHeap := heap } = .ok text after) :
    closureText ptr ({ vm with gcHeap := later } : VM N) = .ok text { vm with gcHeap := later } := by
  obtain ⟨closure, middle, reads, runs⟩ := VmM.bind_ok.mp runs
  obtain ⟨rfl, live⟩ := getClosure_ok.mp reads
  obtain ⟨function, middle, reads, runs⟩ := VmM.bind_ok.mp runs
  obtain ⟨rfl, code⟩ := getFunction_ok.mp reads
  obtain ⟨live, refs⟩ := retains _ _ kept live
  obtain ⟨code, names⟩ := retains _ _ (refs _ (by simp [Object.traceRefs])) code
  exact VmM.bind_ok.mpr ⟨closure, _, getClosure_ok.mpr ⟨rfl, live⟩,
    VmM.bind_ok.mpr ⟨function, _, getFunction_ok.mpr ⟨rfl, code⟩,
      retains.functionText (names _ (by simp [Object.traceRefs])) runs⟩⟩

/-- A value is printed as before. -/
theorem Retains.valueText (retains : Retains stack keeps heap later) (kept : ∀ ptr ∈ value.refs, keeps ptr)
    (runs : valueText value { gcHeap := heap } = .ok text after) :
    valueText value ({ vm with gcHeap := later } : VM N) = .ok text { vm with gcHeap := later } := by
  cases value with
  | nil | number | nativeFn => obtain ⟨rfl, -⟩ := VmM.pure_ok.mp runs; rfl
  | bool value => cases value <;> (obtain ⟨rfl, -⟩ := VmM.pure_ok.mp runs; rfl)
  | boundMethod ptr =>
      obtain ⟨bound, middle, reads, runs⟩ := VmM.bind_ok.mp runs
      obtain ⟨rfl, found⟩ := getBoundMethod_ok.mp reads
      obtain ⟨found, refs⟩ := retains _ _ (kept ptr List.mem_cons_self) found
      exact VmM.bind_ok.mpr ⟨bound, _, getBoundMethod_ok.mpr ⟨rfl, found⟩,
        retains.closureText (refs _ (by simp [Object.traceRefs])) runs⟩
  | class_ ptr =>
      obtain ⟨klass, middle, reads, runs⟩ := VmM.bind_ok.mp runs
      obtain ⟨rfl, found⟩ := getClass_ok.mp reads
      obtain ⟨chars, middle, reads, returns⟩ := VmM.bind_ok.mp runs
      obtain ⟨rfl, named⟩ := getString_ok.mp reads
      obtain ⟨rfl, -⟩ := VmM.pure_ok.mp returns
      obtain ⟨found, refs⟩ := retains _ _ (kept ptr List.mem_cons_self) found
      obtain ⟨named, -⟩ := retains _ _ (refs _ (by simp [Object.traceRefs])) named
      exact VmM.bind_ok.mpr ⟨klass, _, getClass_ok.mpr ⟨rfl, found⟩,
        VmM.bind_ok.mpr ⟨chars, _, getString_ok.mpr ⟨rfl, named⟩, rfl⟩⟩
  | closure ptr => exact retains.closureText (kept ptr List.mem_cons_self) runs
  | function ptr =>
      obtain ⟨function, middle, reads, runs⟩ := VmM.bind_ok.mp runs
      obtain ⟨rfl, code⟩ := getFunction_ok.mp reads
      obtain ⟨code, refs⟩ := retains _ _ (kept ptr List.mem_cons_self) code
      exact VmM.bind_ok.mpr ⟨function, _, getFunction_ok.mpr ⟨rfl, code⟩,
        retains.functionText (refs _ (by simp [Object.traceRefs])) runs⟩
  | instance_ ptr =>
      obtain ⟨inst, middle, reads, runs⟩ := VmM.bind_ok.mp runs
      obtain ⟨rfl, found⟩ := getInstance_ok.mp reads
      obtain ⟨klass, middle, reads, runs⟩ := VmM.bind_ok.mp runs
      obtain ⟨rfl, here⟩ := getClass_ok.mp reads
      obtain ⟨chars, middle, reads, returns⟩ := VmM.bind_ok.mp runs
      obtain ⟨rfl, named⟩ := getString_ok.mp reads
      obtain ⟨rfl, -⟩ := VmM.pure_ok.mp returns
      obtain ⟨found, refs⟩ := retains _ _ (kept ptr List.mem_cons_self) found
      obtain ⟨here, refs⟩ := retains _ _ (refs _ (by simp [Object.traceRefs])) here
      obtain ⟨named, -⟩ := retains _ _ (refs _ (by simp [Object.traceRefs])) named
      exact VmM.bind_ok.mpr ⟨inst, _, getInstance_ok.mpr ⟨rfl, found⟩,
        VmM.bind_ok.mpr ⟨klass, _, getClass_ok.mpr ⟨rfl, here⟩,
          VmM.bind_ok.mpr ⟨chars, _, getString_ok.mpr ⟨rfl, named⟩, rfl⟩⟩⟩
  | string ptr =>
      obtain ⟨rfl, found⟩ := getString_ok.mp runs
      exact getString_ok.mpr ⟨rfl, (retains _ _ (kept ptr List.mem_cons_self) found).1⟩

omit [Number N] in
theorem Retains.refl (heap : GcHeap (Object N)) : Retains stack (fun _ => True) heap heap :=
  fun _ _ _ found => ⟨found, fun _ _ => trivial⟩

/-- In a typed heap every value is printed. -/
theorem valueText_run (typed : vm.gcHeap.Typed) (there : value.Typed vm.gcHeap) :
    valueText value vm = .ok (vm.gcHeap.textOf value) vm := by
  obtain ⟨text, runs⟩ : ∃ text, valueText value { gcHeap := vm.gcHeap } = .ok text { gcHeap := vm.gcHeap } :=
    valueText_exists typed there
  have same : vm.gcHeap.textOf value = text := by simp only [GcHeap.textOf, runs]
  rw [same]
  have all : Retains [] (fun _ => True) vm.gcHeap vm.gcHeap := .refl vm.gcHeap
  exact all.valueText (fun _ _ => trivial) runs

theorem Retains.textOf (retains : Retains stack keeps heap later) (typed : heap.Typed)
    (there : value.Typed heap) (kept : ∀ ptr ∈ value.refs, keeps ptr) :
    later.textOf value = heap.textOf value := by
  have runs : Cpplox.valueText value { gcHeap := heap } = .ok (heap.textOf value) { gcHeap := heap } :=
    valueText_run typed there
  have again (vm : VM N) : Cpplox.valueText value { vm with gcHeap := later } =
      .ok (heap.textOf value) { vm with gcHeap := later } := retains.valueText kept runs
  have same : Cpplox.valueText value { gcHeap := later } =
      .ok (heap.textOf value) { gcHeap := later } := again {}
  simp only [GcHeap.textOf, same]

theorem Retains.datum (retains : Retains stack keeps heap later) (typed : heap.Typed)
    (there : value.Typed heap) (kept : ∀ ptr ∈ value.refs, keeps ptr) :
    later.datum value = heap.datum value := by
  have same := retains.textOf typed there kept
  cases value <;> simp_all [GcHeap.datum]

omit [Number N] in
theorem globalAt_some (interned : vm.Interned) : vm.globalAt name = some value ↔
    ∃ ptr, vm.Holds ptr name ∧ lookup vm.globals ptr = some value := by
  simp [VM.globalAt, Option.bind_eq_some_iff, interned.tables.byChars]

/-- What the machine shows does not change when what it refers to is kept. -/
theorem Retains.store (retains : Retains stack keeps vm.gcHeap after.gcHeap) (interned : vm.Interned)
    (typed : vm.Typed) (laterInterned : after.Interned)
    (values : ∀ value ∈ vm.stack, ∀ ptr ∈ value.refs, keeps ptr)
    (entries : ∀ entry ∈ vm.globals, ∀ ptr ∈ entry.1 :: entry.2.refs, keeps ptr)
    (same : after.stack = vm.stack ∧ after.globals = vm.globals ∧ after.output = vm.output) :
    after.store = vm.store := by
  obtain ⟨sameStack, sameGlobals, sameOutput⟩ := same
  have stays : after.store.stack = vm.store.stack := by
    simp only [VM.store, sameStack, List.map_inj_left]
    exact fun value member => retains.datum typed.heap (typed.stack value member) (values value member)
  have shown : after.store.globals = vm.store.globals := by
    funext name
    refine Option.ext fun datum => ?_
    simp only [VM.store, Option.map_eq_some_iff, globalAt_some interned, globalAt_some laterInterned,
      sameGlobals]
    refine exists_congr fun value => ?_
    constructor
    · rintro ⟨⟨ptr, holds, found⟩, rfl⟩
      have member := lookup_mem found
      obtain ⟨key, there⟩ := typed.globals _ member
      obtain ⟨chars, held⟩ := key.found
      have laterHeld := (retains _ _ (entries _ member _ List.mem_cons_self) held).1
      have laterHolds : after.gcHeap.valueAt ptr = some (.string name) := holds
      rw [laterHeld] at laterHolds
      cases laterHolds
      exact ⟨⟨ptr, held, found⟩, (retains.datum typed.heap there fun ptr inside =>
        entries _ member ptr (List.mem_cons_of_mem _ inside)).symm⟩
    · rintro ⟨⟨ptr, holds, found⟩, rfl⟩
      have member := lookup_mem found
      obtain ⟨key, there⟩ := typed.globals _ member
      exact ⟨⟨ptr, (retains _ _ (entries _ member _ List.mem_cons_self) holds).1, found⟩,
        retains.datum typed.heap there fun ptr inside =>
          entries _ member ptr (List.mem_cons_of_mem _ inside)⟩
  exact Store.ext stays shown sameOutput

end

theorem textOf_string {ptr : Ptr} {chars : Text} (found : heap.valueAt ptr = some (.string chars)) :
    heap.textOf (.string ptr) = chars := by
  have runs : valueText (.string ptr) { gcHeap := heap } = .ok chars { gcHeap := heap } :=
    getString_ok.mpr ⟨rfl, found⟩
  simp only [GcHeap.textOf, runs]

/-- Values are equal when a program sees equal ones. -/
theorem datum_equal {left right : Value N} (interned : vm.Interned) (one : left.Typed vm.gcHeap)
    (two : right.Typed vm.gcHeap) :
    (vm.gcHeap.datum left).equal (vm.gcHeap.datum right) = left.equal right := by
  cases left with
  | string ptr =>
      cases right with
      | string other =>
          obtain ⟨chars, held⟩ := GcHeap.HasKind.found one
          obtain ⟨laterChars, laterHeld⟩ := GcHeap.HasKind.found two
          simp only [GcHeap.datum, textOf_string held, textOf_string laterHeld, Datum.equal, Value.equal,
            decide_eq_decide]
          constructor
          · rintro rfl
            have known := (interned.tables.byChars chars ptr).mpr held
            rw [(interned.tables.byChars chars other).mpr laterHeld] at known
            exact (Option.some.inj known).symm
          · rintro rfl
            rw [held] at laterHeld
            cases laterHeld
            rfl
      | _ => rfl
  | _ => cases right <;> rfl

/-- A string that is made does not change what the machine shows. -/
theorem intern_store {ptr : Ptr} {chars : Text} (interned : vm.Interned) (typed : vm.Typed)
    (interns : intern platform chars vm = .ok ptr after) :
    after.store = vm.store ∧ after.stack = vm.stack ∧ after.callFrames = vm.callFrames ∧
      after.gcHeap.datum (.string ptr) = .string chars ∧
      ∀ ptr object, vm.gcHeap.valueAt ptr = some object → after.gcHeap.valueAt ptr = some object := by
  have retains : ∀ ptr object, vm.gcHeap.valueAt ptr = some object →
      after.gcHeap.valueAt ptr = some object := by
    rcases intern_ok.mp interns with ⟨-, rfl⟩ | ⟨-, -, rfl⟩
    · exact fun _ _ => id
    · exact fun _ _ => valueAt_made_of
  have same : after.stack = vm.stack ∧ after.globals = vm.globals ∧ after.output = vm.output ∧
      after.callFrames = vm.callFrames := by
    rcases intern_ok.mp interns with ⟨-, rfl⟩ | ⟨-, -, rfl⟩ <;> simp [VM.withString, VM.made]
  have held := intern_string interned interns
  have all : Retains vm.stack (fun _ => True) vm.gcHeap after.gcHeap :=
    fun ptr object _ found => ⟨retains ptr object found, fun _ _ => trivial⟩
  refine ⟨all.store interned typed (intern_interned interned interns) (by simp) (by simp)
    ⟨same.1, same.2.1, same.2.2.1⟩, same.1, same.2.2.2, ?_, retains⟩
  simp only [GcHeap.datum, textOf_string held]

end Cpplox
