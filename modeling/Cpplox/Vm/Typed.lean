import Cpplox.Vm.Session

namespace Cpplox

open Data

/-! Pointers refer to live objects of the kind they are declared with. -/

variable {N : Type}

/-- What a write through a pointer may change. -/
inductive Object.Becomes : Object N → Object N → Prop
  | same (object : Object N) : Becomes object object
  | class_ {klass other : Class} : other.name = klass.name → Becomes (.class_ klass) (.class_ other)
  | closure {closure other : Closure} : other.function = closure.function →
      Becomes (.closure closure) (.closure other)
  | instance_ {inst other : Instance N} : other.klass = inst.klass →
      Becomes (.instance_ inst) (.instance_ other)
  | upvalue {upvalue other : Upvalue N} : Becomes (.upvalue upvalue) (.upvalue other)

theorem Object.Becomes.trans {first second third : Object N} (one : first.Becomes second)
    (two : second.Becomes third) : first.Becomes third := by
  cases one with
  | same => exact two
  | class_ name => cases two with
    | same => exact .class_ name
    | class_ laterName => exact .class_ (laterName.trans name)
  | closure function => cases two with
    | same => exact .closure function
    | closure laterFunction => exact .closure (laterFunction.trans function)
  | instance_ klass => cases two with
    | same => exact .instance_ klass
    | instance_ laterKlass => exact .instance_ (laterKlass.trans klass)
  | upvalue => cases two <;> exact .upvalue

theorem Object.Becomes.kind {object other : Object N} (becomes : object.Becomes other) :
    other.kind = object.kind := by
  cases becomes <;> rfl

namespace GcHeap

/-- Every object is still there, of its kind. -/
def Extends (heap later : GcHeap (Object N)) : Prop :=
  ∀ ptr object, heap.valueAt ptr = some object →
    ∃ other, later.valueAt ptr = some other ∧ object.Becomes other

def HasKind (heap : GcHeap (Object N)) (ptr : Ptr) (kind : Kind) : Prop :=
  ∃ object, heap.valueAt ptr = some object ∧ object.kind = kind

variable {heap middle later : GcHeap (Object N)} {ptr : Ptr} {kind : Kind}

theorem Extends.refl (heap : GcHeap (Object N)) : heap.Extends heap :=
  fun _ object found => ⟨object, found, .same object⟩

theorem Extends.trans (one : heap.Extends middle) (two : middle.Extends later) :
    heap.Extends later := by
  intro ptr object found
  obtain ⟨other, laterFound, becomes⟩ := one ptr object found
  obtain ⟨last, found'', laterBecomes⟩ := two ptr other laterFound
  exact ⟨last, found'', becomes.trans laterBecomes⟩

theorem Extends.hasKind (extends_ : heap.Extends later) (there : heap.HasKind ptr kind) :
    later.HasKind ptr kind := by
  obtain ⟨object, found, same⟩ := there
  obtain ⟨other, laterFound, becomes⟩ := extends_ ptr object found
  exact ⟨other, laterFound, becomes.kind.trans same⟩

theorem Extends.string {chars : Text} (extends_ : heap.Extends later)
    (found : heap.valueAt ptr = some (.string chars)) : later.valueAt ptr = some (.string chars) := by
  obtain ⟨other, laterFound, becomes⟩ := extends_ ptr _ found
  cases becomes
  exact laterFound

theorem Extends.function {function : HeapFunction N} (extends_ : heap.Extends later)
    (found : heap.valueAt ptr = some (.function function)) :
    later.valueAt ptr = some (.function function) := by
  obtain ⟨other, laterFound, becomes⟩ := extends_ ptr _ found
  cases becomes
  exact laterFound

theorem Extends.closure {closure : Closure} (extends_ : heap.Extends later)
    (found : heap.valueAt ptr = some (.closure closure)) :
    ∃ other, later.valueAt ptr = some (.closure other) ∧ other.function = closure.function := by
  obtain ⟨other, laterFound, becomes⟩ := extends_ ptr _ found
  cases becomes with
  | same => exact ⟨closure, laterFound, rfl⟩
  | closure function => exact ⟨_, laterFound, function⟩

end GcHeap

def Value.Typed (heap : GcHeap (Object N)) : Value N → Prop
  | .nil | .bool _ | .number _ => True
  | .boundMethod ptr => heap.HasKind ptr .boundMethod
  | .class_ ptr => heap.HasKind ptr .class_
  | .closure ptr => heap.HasKind ptr .closure
  | .function ptr => heap.HasKind ptr .function
  | .instance_ ptr => heap.HasKind ptr .instance_
  | .nativeFn ptr => heap.HasKind ptr .nativeFn
  | .string ptr => heap.HasKind ptr .string

def Upvalue.Typed (heap : GcHeap (Object N)) : Upvalue N → Prop
  | .open_ _ => True
  | .closed value => value.Typed heap

def Object.Typed (heap : GcHeap (Object N)) : Object N → Prop
  | .boundMethod bound => heap.HasKind bound.instance_ .instance_ ∧ heap.HasKind bound.method .closure
  | .class_ klass => heap.HasKind klass.name .string ∧
      ∀ entry ∈ klass.methods, heap.HasKind entry.1 .string ∧ heap.HasKind entry.2 .closure
  | .closure made => heap.HasKind made.function .function ∧
      (∀ upvalue ∈ made.upvalues, heap.HasKind upvalue .upvalue) ∧
      ∀ upvalue ∈ made.openUpvalues, heap.HasKind upvalue .upvalue
  | .function compiled => heap.HasKind compiled.name .string ∧
      (∀ value ∈ compiled.chunk.constants, value.Typed heap) ∧
      ∀ token ∈ compiled.chunk.sourceMapTokens, heap.HasKind token.lexeme .string
  | .instance_ inst => heap.HasKind inst.klass .class_ ∧
      ∀ entry ∈ inst.fields, heap.HasKind entry.1 .string ∧ entry.2.Typed heap
  | .nativeFn | .string _ => True
  | .upvalue captured => captured.Typed heap

def GcHeap.Typed (heap : GcHeap (Object N)) : Prop :=
  ∀ ptr object, heap.valueAt ptr = some object → object.Typed heap

structure VM.Typed (vm : VM N) : Prop where
  frames : ∀ frame ∈ vm.callFrames, vm.gcHeap.HasKind frame.closure .closure
  stack : ∀ value ∈ vm.stack, value.Typed vm.gcHeap
  globals : ∀ entry ∈ vm.globals, vm.gcHeap.HasKind entry.1 .string ∧ entry.2.Typed vm.gcHeap
  heap : vm.gcHeap.Typed

section

variable {heap later : GcHeap (Object N)} {value : Value N} {object : Object N}

/-- A typed value stays typed where what it refers to survives. -/
theorem Value.Typed.mono (value : Value N) (typed : value.Typed heap)
    (survives : ∀ ptr ∈ value.refs, ∀ kind, heap.HasKind ptr kind → later.HasKind ptr kind) :
    value.Typed later := by
  cases value <;> first | trivial | exact survives _ (List.mem_singleton.mpr rfl) _ typed

theorem Object.Typed.mono (stack : List (Value N)) (typed : object.Typed heap)
    (survives : ∀ ptr ∈ object.traceRefs stack, ∀ kind, heap.HasKind ptr kind →
      later.HasKind ptr kind) : object.Typed later := by
  cases object with
  | boundMethod bound =>
      exact ⟨survives _ (by simp [Object.traceRefs]) _ typed.1,
        survives _ (by simp [Object.traceRefs]) _ typed.2⟩
  | class_ klass =>
      refine ⟨survives _ (by simp [Object.traceRefs]) _ typed.1, fun entry member => ?_⟩
      have traced : ∀ ptr ∈ [entry.1, entry.2], ptr ∈ (Object.class_ klass : Object N).traceRefs stack :=
        fun ptr inside => List.mem_cons_of_mem _ (List.mem_flatMap.mpr ⟨entry, member, inside⟩)
      exact ⟨survives _ (traced _ (by simp)) _ (typed.2 entry member).1,
        survives _ (traced _ (by simp)) _ (typed.2 entry member).2⟩
  | closure closure =>
      refine ⟨survives _ (by simp [Object.traceRefs]) _ typed.1, fun upvalue member => ?_,
        fun upvalue member => ?_⟩
      · exact survives _ (by simp [Object.traceRefs, member]) _ (typed.2.1 upvalue member)
      · exact survives _ (by simp [Object.traceRefs, member]) _ (typed.2.2 upvalue member)
  | function function =>
      refine ⟨survives _ (by simp [Object.traceRefs]) _ typed.1, fun value member => ?_,
        fun token member => ?_⟩
      · refine (typed.2.1 value member).mono _ fun ptr inside => survives ptr ?_
        exact List.mem_cons_of_mem _ (List.mem_append_left _
          (List.mem_flatMap.mpr ⟨value, member, inside⟩))
      · refine survives _ ?_ _ (typed.2.2 token member)
        exact List.mem_cons_of_mem _ (List.mem_append_right _ (List.mem_map.mpr ⟨token, member, rfl⟩))
  | instance_ inst =>
      refine ⟨survives _ (by simp [Object.traceRefs]) _ typed.1, fun entry member => ?_⟩
      have traced : ∀ ptr ∈ entry.1 :: entry.2.refs,
          ptr ∈ (Object.instance_ inst : Object N).traceRefs stack :=
        fun ptr inside => List.mem_cons_of_mem _ (List.mem_flatMap.mpr ⟨entry, member, inside⟩)
      exact ⟨survives _ (traced _ (by simp)) _ (typed.2 entry member).1,
        (typed.2 entry member).2.mono _ fun ptr inside =>
          survives ptr (traced ptr (List.mem_cons_of_mem _ inside))⟩
  | nativeFn | string => trivial
  | upvalue captured =>
      cases captured with
      | open_ => trivial
      | closed value => exact Value.Typed.mono value typed survives

theorem Value.Typed.extend (typed : value.Typed heap) (extends_ : heap.Extends later) :
    value.Typed later := typed.mono _ fun _ _ _ => extends_.hasKind

theorem Object.Typed.extend (typed : object.Typed heap) (extends_ : heap.Extends later) :
    object.Typed later := typed.mono [] fun _ _ _ => extends_.hasKind

end

variable {platform : Platform N} {vm after : VM N} {ptr : Ptr}

theorem extends_made (object : Object N) : vm.gcHeap.Extends (vm.made platform object).gcHeap :=
  fun _ old found => ⟨old, valueAt_made_of found, .same old⟩

theorem hasKind_made (object : Object N) :
    (vm.made platform object).gcHeap.HasKind (vm.fresh platform) object.kind :=
  ⟨object, by rw [valueAt_made, if_pos rfl], rfl⟩

theorem typed_made (object : Object N) (typed : vm.gcHeap.Typed)
    (sound : object.Typed (vm.made platform object).gcHeap) :
    (vm.made platform object).gcHeap.Typed := by
  intro other found there
  rw [valueAt_made] at there
  split at there
  next =>
      cases there
      exact sound
  next => exact (typed other found there).extend (extends_made object)

theorem extends_updated {old : Object N} (object : Object N) (found : vm.gcHeap.valueAt ptr = some old)
    (becomes : old.Becomes object) : vm.gcHeap.Extends (vm.updated ptr object).gcHeap := by
  intro other there member
  rw [valueAt_updated found]
  split
  next same =>
      rw [same, found] at member
      cases member
      exact ⟨object, rfl, becomes⟩
  next => exact ⟨there, member, .same there⟩

theorem typed_updated {old object : Object N} (typed : vm.gcHeap.Typed)
    (found : vm.gcHeap.valueAt ptr = some old) (becomes : old.Becomes object)
    (sound : object.Typed (vm.updated ptr object).gcHeap) : (vm.updated ptr object).gcHeap.Typed := by
  intro other there member
  rw [valueAt_updated found] at member
  split at member
  next =>
      cases member
      exact sound
  next => exact (typed other there member).extend (extends_updated _ found becomes)

theorem intern_extends {chars : Text} (interns : intern platform chars vm = .ok ptr after) :
    vm.gcHeap.Extends after.gcHeap := by
  rcases intern_ok.mp interns with ⟨-, rfl⟩ | ⟨-, -, rfl⟩
  · exact .refl _
  · exact extends_made (.string chars)

theorem intern_typed {chars : Text} (typed : vm.gcHeap.Typed)
    (interns : intern platform chars vm = .ok ptr after) : after.gcHeap.Typed := by
  rcases intern_ok.mp interns with ⟨-, rfl⟩ | ⟨-, -, rfl⟩
  · exact typed
  · exact typed_made (.string chars) typed trivial

variable {activation : Activation N}

theorem extends_withUpvalue {made : Closure} (upvalue : Ptr)
    (found : vm.gcHeap.valueAt ptr = some (.closure made)) :
    vm.gcHeap.Extends (vm.withUpvalue ptr made upvalue).gcHeap := extends_updated _ found (.closure rfl)

theorem Captured.extends {tracked : TrackedUpvalue}
    (captured : Captured platform activation ptr vm tracked after) :
    vm.gcHeap.Extends after.gcHeap := by
  cases captured with
  | shared _ _ _ _ there | passed _ _ there => exact extends_withUpvalue _ there
  | @opened _ enclosing _ _ _ middle _ here _ made there _ _ _ same =>
      have both : vm.gcHeap.Extends (middle.withUpvalue ptr _ (vm.fresh platform)).gcHeap :=
        (made ▸ extends_made _).trans (extends_withUpvalue _ there)
      obtain ⟨other, found, function⟩ := both.closure here
      subst same
      exact both.trans (extends_updated _ found (.closure function.symm))

theorem CapturedAll.extends {captures : List TrackedUpvalue}
    (captured : CapturedAll platform activation ptr vm captures after) :
    vm.gcHeap.Extends after.gcHeap := by
  induction captured with
  | nil => exact .refl _
  | cons first _ ih => exact first.extends.trans ih

theorem Closes.extends {upvalues : List Ptr} (closes : Closes vm upvalues after) :
    vm.gcHeap.Extends after.gcHeap := by
  induction closes with
  | nil => exact .refl _
  | cons found _ _ ih => exact (extends_updated _ found .upvalue).trans ih

theorem VM.OpenAt.hasKind {property : Nat → Prop} (isOpen : vm.OpenAt ptr property) :
    vm.gcHeap.HasKind ptr .upvalue := by
  obtain ⟨index, found, -⟩ := isOpen
  exact ⟨_, found, rfl⟩

theorem typed_withUpvalue {made : Closure} {upvalue : Ptr} (typed : vm.gcHeap.Typed)
    (found : vm.gcHeap.valueAt ptr = some (.closure made))
    (there : vm.gcHeap.HasKind upvalue .upvalue) :
    (vm.withUpvalue ptr made upvalue).gcHeap.Typed := by
  have extends_ := extends_withUpvalue upvalue found
  obtain ⟨function, upvalues, openUpvalues⟩ := (typed ptr _ found).extend extends_
  refine typed_updated typed found (.closure rfl) ⟨function, fun other member => ?_, openUpvalues⟩
  rcases List.mem_append.mp member with old | new
  · exact upvalues other old
  · rw [List.mem_singleton.mp new]
    exact extends_.hasKind there

theorem Captured.typed {tracked : TrackedUpvalue}
    (captured : Captured platform activation ptr vm tracked after) (typed : vm.gcHeap.Typed) :
    after.gcHeap.Typed := by
  cases captured with
  | shared _ _ _ isOpen there => exact typed_withUpvalue typed there isOpen.hasKind
  | passed here inside there =>
      exact typed_withUpvalue typed there ((typed _ _ here).2.1 _ (List.mem_of_getElem? inside))
  | @opened _ enclosing _ lower upper middle _ here _ made there split _ _ same =>
      have first : vm.gcHeap.Extends middle.gcHeap := made ▸ extends_made _
      have second := extends_withUpvalue (vm.fresh platform) there
      have fresh : middle.gcHeap.HasKind (vm.fresh platform) .upvalue := made ▸ hasKind_made _
      have typed₁ : middle.gcHeap.Typed := made ▸ typed_made _ typed trivial
      have typed₂ := typed_withUpvalue typed₁ there fresh
      obtain ⟨other, found, function⟩ := (first.trans second).closure here
      subst same
      have third := extends_updated (.closure
        { enclosing with openUpvalues := lower ++ vm.fresh platform :: upper }) found
        (.closure function.symm)
      obtain ⟨ofFunction, upvalues, openUpvalues⟩ :=
        ((typed _ _ here).extend ((first.trans second).trans third))
      refine typed_updated typed₂ found (.closure function.symm) ⟨ofFunction, upvalues, ?_⟩
      intro upvalue member
      rw [split] at openUpvalues
      rcases List.mem_append.mp member with old | new
      · exact openUpvalues upvalue (List.mem_append_left _ old)
      · rcases List.mem_cons.mp new with rfl | old
        · exact (second.trans third).hasKind fresh
        · exact openUpvalues upvalue (List.mem_append_right _ old)

theorem CapturedAll.typed {captures : List TrackedUpvalue}
    (captured : CapturedAll platform activation ptr vm captures after) (typed : vm.gcHeap.Typed) :
    after.gcHeap.Typed := by
  induction captured with
  | nil => exact typed
  | cons first _ ih => exact ih (first.typed typed)

/-- What an upvalue reads is typed. -/
theorem typed_value {upvalue : Upvalue N} {value : Value N} (typed : vm.gcHeap.Typed)
    (stack : ∀ value ∈ vm.stack, value.Typed vm.gcHeap)
    (found : vm.gcHeap.valueAt ptr = some (.upvalue upvalue))
    (reads : upvalue.value? vm.stack = some value) : value.Typed vm.gcHeap := by
  cases upvalue with
  | open_ index => exact stack value (slot?_mem reads)
  | closed inside =>
      cases reads
      exact typed ptr _ found

theorem Closes.typed {upvalues : List Ptr} (closes : Closes vm upvalues after)
    (typed : vm.gcHeap.Typed) (stack : ∀ value ∈ vm.stack, value.Typed vm.gcHeap) :
    after.gcHeap.Typed := by
  induction closes with
  | nil => exact typed
  | @cons _ _ _ _ _ value found reads _ ih =>
      have extends_ := extends_updated (.upvalue (.closed value)) found .upvalue
      refine ih (typed_updated typed found .upvalue ?_) fun other member =>
        (stack other member).extend extends_
      exact (typed_value typed stack found reads).extend extends_

namespace VM.Typed

/-- The frames and the globals stay typed while the heap extends. -/
theorem extend (typed : vm.Typed) (extends_ : vm.gcHeap.Extends after.gcHeap)
    (heap : after.gcHeap.Typed) (frames : ∀ frame ∈ after.callFrames, frame ∈ vm.callFrames ∨
      after.gcHeap.HasKind frame.closure .closure)
    (stack : ∀ value ∈ after.stack, value ∈ vm.stack ∨ value.Typed after.gcHeap)
    (globals : ∀ entry ∈ after.globals, entry ∈ vm.globals ∨
      after.gcHeap.HasKind entry.1 .string ∧ entry.2.Typed after.gcHeap) : after.Typed where
  frames frame member := (frames frame member).elim
    (fun old => extends_.hasKind (typed.frames frame old)) id
  stack value member := (stack value member).elim
    (fun old => (typed.stack value old).extend extends_) id
  globals entry member := (globals entry member).elim
    (fun old => ⟨extends_.hasKind (typed.globals entry old).1,
      (typed.globals entry old).2.extend extends_⟩) id
  heap := heap

/-- Only the stack changes. -/
theorem withStack (typed : vm.Typed) {stack : List (Value N)}
    (values : ∀ value ∈ stack, value ∈ vm.stack ∨ value.Typed vm.gcHeap) :
    ({ vm with stack } : VM N).Typed :=
  typed.extend (.refl _) typed.heap (fun _ => .inl) values fun _ => .inl

theorem push (typed : vm.Typed) (value : Value N) (sound : value.Typed vm.gcHeap) :
    ({ vm with stack := value :: vm.stack } : VM N).Typed :=
  typed.withStack fun _ member => (List.mem_cons.mp member).elim
    (fun same => .inr (same ▸ sound)) .inl

theorem made (typed : vm.Typed) (platform : Platform N) (object : Object N)
    (sound : object.Typed (vm.made platform object).gcHeap) :
    (vm.made platform object).Typed :=
  typed.extend (extends_made object) (typed_made _ typed.heap sound) (fun _ => .inl) (fun _ => .inl)
    fun _ => .inl

theorem updated (typed : vm.Typed) {old : Object N} (object : Object N) (found : vm.gcHeap.valueAt ptr = some old)
    (becomes : old.Becomes object) (sound : object.Typed (vm.updated ptr object).gcHeap) :
    (vm.updated ptr object).Typed :=
  typed.extend (extends_updated _ found becomes) (typed_updated typed.heap found becomes sound)
    (fun _ => .inl) (fun _ => .inl) fun _ => .inl

theorem onlyHeap {gcHeap : GcHeap (Object N)} {nMade : Nat} (typed : vm.Typed)
    (extends_ : vm.gcHeap.Extends gcHeap) (heap : gcHeap.Typed) :
    ({ vm with gcHeap, nMade } : VM N).Typed :=
  typed.extend extends_ heap (fun _ => .inl) (fun _ => .inl) fun _ => .inl

theorem interned {chars : Text} (typed : vm.Typed)
    (interns : intern platform chars vm = .ok ptr after) : after.Typed := by
  refine typed.extend (intern_extends interns) (intern_typed typed.heap interns) ?_ ?_ ?_ <;>
    rcases intern_ok.mp interns with ⟨-, rfl⟩ | ⟨-, -, rfl⟩ <;> exact fun _ => .inl

theorem called (typed : vm.Typed) {closure : Ptr} {argCount : Nat}
    (there : vm.gcHeap.HasKind closure .closure) : (vm.called closure argCount).Typed :=
  typed.extend (.refl _) typed.heap (fun _ member => (List.mem_cons.mp member).elim
    (fun same => .inr (same ▸ there)) .inl) (fun _ => .inl) fun _ => .inl

theorem below (typed : vm.Typed) {top : Value N} {rest : List (Value N)}
    (stack : vm.stack = top :: rest) : ({ vm with stack := rest } : VM N).Typed :=
  typed.withStack fun _ member => .inl (stack ▸ List.mem_cons_of_mem _ member)

theorem top (typed : vm.Typed) {top : Value N} {rest : List (Value N)}
    (stack : vm.stack = top :: rest) : top.Typed vm.gcHeap :=
  typed.stack top (stack ▸ List.mem_cons_self)

theorem at_ (typed : vm.Typed) {value : Value N} {depth : Nat}
    (found : vm.stack[depth]? = some value) : value.Typed vm.gcHeap :=
  typed.stack value (List.mem_of_getElem? found)

end VM.Typed

theorem intern_interned {chars : Text} (interned : vm.Interned)
    (interns : intern platform chars vm = .ok ptr after) : after.Interned := by
  obtain ⟨_, _, runs, kept, -⟩ := interned.intern platform chars
  rw [interns] at runs
  cases runs
  exact kept

theorem intern_string {chars : Text} (interned : vm.Interned)
    (interns : intern platform chars vm = .ok ptr after) :
    after.gcHeap.valueAt ptr = some (.string chars) := by
  obtain ⟨other, later, runs, -, holds⟩ := interned.intern platform chars
  rw [interns] at runs
  cases runs
  exact holds

section

variable [Number N] {instr : Instr}

theorem Effect.extends (effect : Effect platform activation vm instr after) :
    vm.gcHeap.Extends after.gcHeap := by
  cases effect with
  | concatenates _ _ _ interns =>
      have extends_ := intern_extends interns
      exact extends_
  | setClosed _ _ _ found => exact extends_updated _ found .upvalue
  | bind | getSuper | class_ => exact extends_made _
  | setProperty _ _ found => exact extends_updated _ found (.instance_ rfl)
  | inherit _ _ found | method _ _ found => exact extends_updated _ found (.class_ rfl)
  | callInitializer _ interns => exact (intern_extends interns).trans (extends_made _)
  | callClass _ interns => exact (intern_extends interns).trans (extends_made _)
  | closure _ captured => exact (extends_made (.closure _)).trans captured.extends
  | @closeUpvalue _ top _ _ _ _ here _ isOpen =>
      obtain ⟨_, there, -⟩ := isOpen
      have first := extends_updated (.upvalue (.closed top)) there .upvalue
      obtain ⟨other, found, function⟩ := first.closure here
      exact first.trans (extends_updated _ found (.closure function.symm))
  | return_ _ _ closes => exact closes.extends
  | _ => exact .refl _

omit [Number N] in
theorem typed_name {index : Nat} {name : Ptr}
    (constants : ∀ value ∈ activation.chunk.constants, value.Typed vm.gcHeap)
    (found : activation.chunk.constants[index]? = some (.string name)) :
    vm.gcHeap.HasKind name .string := constants _ (List.mem_of_getElem? found)

omit [Number N] in
theorem old_or_sound {A : Type} {old sound : A → Prop} {value new : A}
    (either : old value ∨ value = new) (holds : sound new) : old value ∨ sound value := by
  rcases either with there | rfl
  · exact .inl there
  · exact .inr holds

omit [Number N] in
theorem typed_assign {V : Type} {entries : List (Ptr × V)} {key : Ptr} {value : V}
    {property : Ptr × V → Prop} (all : ∀ entry ∈ entries, property entry)
    (new : property (key, value)) : ∀ entry ∈ assign entries key value, property entry :=
  fun entry member => (mem_assign member).elim (all entry) fun same => same ▸ new

/-- An instruction keeps a machine typed. -/
theorem Effect.typed (effect : Effect platform activation vm instr after) (typed : vm.Typed)
    (interned : vm.Interned)
    (constants : ∀ value ∈ activation.chunk.constants, value.Typed vm.gcHeap) : after.Typed := by
  have extends_ := effect.extends
  cases effect with
  | @computes opcode taken rest value stack computes =>
      refine typed.withStack fun other member => ?_
      rcases List.mem_cons.mp member with rfl | old
      · exact .inr (by cases computes <;> trivial)
      · exact .inl (stack ▸ List.mem_append_right _ old)
  | @concatenates _ _ _ rest _ _ after stack _ _ interns =>
      have below : ({ vm with stack := rest } : VM N).Typed :=
        typed.withStack fun value member => .inl (by simp [stack, member])
      have done := below.interned interns
      have onStack := intern_stack interns
      have popped : ({ vm with stack := rest } : VM N).Interned :=
        ⟨interned.ready, interned.waiting, interned.tables⟩
      have new := intern_string popped interns
      refine done.withStack fun value member => ?_
      rcases List.mem_cons.mp member with rfl | old
      · exact .inr ⟨_, new, rfl⟩
      · exact .inl (onStack ▸ old)
  | constant found => exact typed.push _ (constants _ (List.mem_of_getElem? found))
  | pop stack => exact typed.below stack
  | @print _ rest _ stack =>
      exact typed.extend extends_ typed.heap (fun _ => .inl)
        (fun value member => .inl (stack ▸ List.mem_cons_of_mem _ member)) fun _ => .inl
  | getLocal found => exact typed.push _ (typed.stack _ (slot?_mem found))
  | setLocal stack =>
      exact typed.withStack fun _ member => old_or_sound (mem_setSlot member) (typed.top stack)
  | getUpvalue here inside there reads =>
      exact typed.push _ (typed_value typed.heap typed.stack there reads)
  | setOpen stack =>
      exact typed.withStack fun _ member => old_or_sound (mem_setSlot member) (typed.top stack)
  | setClosed stack _ _ found =>
      exact typed.updated _ found .upvalue ((typed.top stack).extend extends_)
  | getGlobal _ found => exact typed.push _ (typed.globals _ (lookup_mem found)).2
  | defineGlobal stack named =>
      refine typed.extend extends_ typed.heap (fun _ => .inl) (fun value member => .inl ?_)
        fun entry member => ?_
      · exact stack ▸ List.mem_cons_of_mem _ member
      · rcases mem_assign member with old | rfl
        · exact .inl old
        · exact .inr ⟨typed_name constants named, typed.top stack⟩
  | setGlobal stack named =>
      refine typed.extend extends_ typed.heap (fun _ => .inl) (fun _ => .inl) fun entry member => ?_
      rcases mem_assign member with old | rfl
      · exact .inl old
      · exact .inr ⟨typed_name constants named, typed.top stack⟩
  | getField stack _ found field =>
      refine typed.withStack fun value member => ?_
      rcases List.mem_cons.mp member with rfl | old
      · exact .inr ((typed.heap _ _ found).2 _ (lookup_mem field)).2
      · exact .inl (stack ▸ List.mem_cons_of_mem _ old)
  | @bind _ _ ptr _ rest _ _ stack _ found _ ofClass method =>
      have done := typed.made platform (.boundMethod ⟨ptr, _⟩)
        ⟨extends_.hasKind (typed.top stack),
          extends_.hasKind ((typed.heap _ _ ofClass).2 _ (lookup_mem method)).2⟩
      refine done.withStack fun value member => ?_
      rcases List.mem_cons.mp member with rfl | old
      · exact .inr (hasKind_made (.boundMethod _))
      · exact .inl (stack ▸ List.mem_cons_of_mem _ old : value ∈ vm.stack)
  | @setProperty _ name ptr value rest inst stack named found =>
      have sound := typed.heap _ _ found
      have top : value.Typed vm.gcHeap := typed.stack value (by simp [stack])
      have done := typed.updated (.instance_
        { inst with fields := assign inst.fields name value }) found (.instance_ rfl)
        ⟨extends_.hasKind sound.1, typed_assign
          (fun entry member => ⟨extends_.hasKind (sound.2 entry member).1,
            (sound.2 entry member).2.extend extends_⟩)
          ⟨extends_.hasKind (typed_name constants named), top.extend extends_⟩⟩
      refine done.withStack fun other member => .inl ?_
      exact (stack ▸ List.mem_cons_of_mem _ member : other ∈ vm.stack)
  | @getSuper _ _ superclass ptr method rest _ stack _ found known =>
      have receiver : vm.gcHeap.HasKind ptr .instance_ :=
        typed.stack (.instance_ ptr) (by simp [stack])
      have done := typed.made platform (.boundMethod ⟨ptr, method⟩)
        ⟨extends_.hasKind receiver,
          extends_.hasKind ((typed.heap _ _ found).2 _ (lookup_mem known)).2⟩
      refine done.withStack fun value member => ?_
      rcases List.mem_cons.mp member with rfl | old
      · exact .inr (hasKind_made (.boundMethod _))
      · exact .inl (show value ∈ vm.stack by simp [stack, old])
  | class_ named =>
      have done := typed.made platform (.class_ { name := _ })
        ⟨extends_.hasKind (typed_name constants named), by simp⟩
      exact done.push _ (hasKind_made (.class_ _))
  | @inherit parent child rest parentClass childClass stack isParent isChild =>
      have sound := (typed.heap _ _ isChild).extend extends_
      have inherited := (typed.heap _ _ isParent).extend extends_
      have done := typed.updated (.class_ { childClass with
        methods := insertAll childClass.methods parentClass.methods }) isChild (.class_ rfl)
        ⟨sound.1, fun entry member => (mem_insertAll member).elim (sound.2 entry) (inherited.2 entry)⟩
      exact done.push _ ⟨_, by rw [valueAt_updated isChild, if_pos rfl], rfl⟩
  | @method _ name made owner rest klass stack named found =>
      have sound := (typed.heap _ _ found).extend extends_
      have done := typed.updated (.class_ { klass with
        methods := assign klass.methods name made }) found (.class_ rfl)
        ⟨sound.1, typed_assign sound.2 ⟨extends_.hasKind (typed_name constants named),
          extends_.hasKind (typed.top stack)⟩⟩
      refine done.withStack fun value member => .inl ?_
      exact (stack ▸ List.mem_cons_of_mem _ member : value ∈ vm.stack)
  | callClosure callee => exact typed.called (typed.at_ callee)
  | @callInitializer argCount owner _ initializer _ after callee interns found init arity =>
      obtain ⟨closure, _, isClosure, -⟩ := arity
      have done := (typed.interned interns).made platform (.instance_ { klass := owner })
        ⟨extends_.hasKind (typed.at_ callee), by simp⟩
      refine (done.withStack fun value member => ?_).called
        ((extends_made _).hasKind ⟨_, isClosure, rfl⟩)
      rcases List.mem_or_eq_of_mem_set member with old | rfl
      · exact .inl (show value ∈ after.stack from intern_stack interns ▸ old)
      · exact .inr (hasKind_made (.instance_ _))
  | @callClass owner _ _ rest after stack interns =>
      have done := (typed.interned interns).made platform (.instance_ { klass := owner }) ⟨extends_.hasKind (typed.top stack), by simp⟩
      refine done.withStack fun value member => ?_
      rcases List.mem_cons.mp member with rfl | old
      · exact .inr (hasKind_made (.instance_ _))
      · refine .inl (show value ∈ after.stack from ?_)
        rw [intern_stack interns, stack]
        exact List.mem_cons_of_mem _ old
  | callBoundMethod callee found =>
      have sound := typed.heap _ _ found
      refine (typed.withStack fun value member => ?_).called sound.2
      exact old_or_sound (List.mem_or_eq_of_mem_set member) sound.1
  | callNative =>
      refine typed.extend extends_ typed.heap (fun _ => .inl) (fun value member => ?_) fun _ => .inl
      rcases List.mem_cons.mp member with rfl | old
      · exact .inr trivial
      · exact .inl (List.mem_of_mem_drop old)
  | closure found captured =>
      have made := typed.made platform (.closure { function := _ })
        ⟨(extends_made _).hasKind (constants _ (List.mem_of_getElem? found)), by simp, by simp⟩
      have done := made.push (.closure _) (hasKind_made (.closure _))
      rw [captured.onlyHeap]
      exact done.onlyHeap captured.extends (captured.typed done.heap)
  | keepUpvalue stack => exact typed.below stack
  | @closeUpvalue closure top rest lower last stack here split isOpen =>
      obtain ⟨_, there, -⟩ := isOpen
      have first := typed.updated (.upvalue (.closed top)) there .upvalue
        ((typed.top stack).extend (extends_updated _ there .upvalue))
      have extends₁ := extends_updated (.upvalue (.closed top)) there .upvalue
      obtain ⟨other, found, function⟩ := extends₁.closure here
      obtain ⟨ofFunction, upvalues, openUpvalues⟩ := (typed.heap _ _ here).extend extends_
      have second := first.updated (.closure { closure with openUpvalues := lower }) found
        (.closure function.symm) ⟨ofFunction, upvalues, fun upvalue member =>
          openUpvalues upvalue (split ▸ List.mem_append_left _ member)⟩
      refine second.withStack fun value member => .inl ?_
      exact (stack ▸ List.mem_cons_of_mem _ member : value ∈ vm.stack)
  | return_ stack here closes =>
      rw [closes.onlyHeap]
      refine typed.extend extends_ (closes.typed typed.heap typed.stack)
        (fun frame member => .inl (List.mem_of_mem_tail member)) (fun value member => ?_) fun _ => .inl
      rcases List.mem_cons.mp member with rfl | old
      · exact .inl (stack ▸ List.mem_cons_self)
      · exact .inl (List.mem_of_mem_drop old)
  | stays => exact typed
  | @jumps _ _ _ frame _ frames =>
      refine typed.extend extends_ typed.heap (fun other member => ?_) (fun _ => .inl) fun _ => .inl
      rcases List.mem_cons.mp member with rfl | old
      · exact .inr (typed.frames frame (frames ▸ List.mem_cons_self))
      · exact .inl (frames ▸ List.mem_cons_of_mem _ old)

end

/-- What a collection keeps. -/
def VM.Kept (vm : VM N) : Ptr → Prop :=
  GcHeap.Reachable (Object.traceRefs vm.stack) vm.gcHeap vm.roots

theorem collect_ok {result : Unit} (interned : vm.Interned)
    (collects : collect platform vm = .ok result after) :
    ∃ gcHeap internedStrings, after = { vm with gcHeap, internedStrings } ∧
      ∀ ptr object, gcHeap.valueAt ptr = some object ↔
        vm.gcHeap.valueAt ptr = some object ∧ vm.Kept ptr := by
  have collects := get_bind collects
  dsimp only at collects
  split at collects
  · exact (VmM.throw_ok.mp collects).elim
  · obtain rfl := VmM.set_ok.mp collects
    refine ⟨_, _, rfl, fun ptr object => ?_⟩
    obtain ⟨removed, later, runs, -, -, -, -, -, kept⟩ :=
      GcHeap.collectGarbage_contents (Object.traceRefs vm.stack) platform.controlBlockSize
        [vm.roots] [InternedStrings.onDestroy] (fun _ strings => strings) vm.internedStrings
        interned.ready
    rw [runs, kept, interned.waiting]
    simp [VM.Kept]

theorem kept_frame (vm : VM N) {frame : Frame} (member : frame ∈ vm.callFrames) : vm.Kept frame.closure :=
  .root (by simp only [VM.roots, List.mem_append, List.mem_map, List.mem_reverse]
            exact .inl (.inl ⟨frame, member, rfl⟩))

theorem kept_stack (vm : VM N) {value : Value N} (member : value ∈ vm.stack) : ∀ ptr ∈ value.refs, vm.Kept ptr :=
  fun ptr inside => .root (by
    simp only [VM.roots, List.mem_append, List.mem_flatMap, List.mem_reverse]
    exact .inl (.inr ⟨value, member, inside⟩))

theorem kept_globals (vm : VM N) {entry : Ptr × Value N} (member : entry ∈ vm.globals) :
    ∀ ptr ∈ entry.1 :: entry.2.refs, vm.Kept ptr :=
  fun ptr inside => .root (by
    simp only [VM.roots, List.mem_append, List.mem_flatMap]
    exact .inr ⟨entry, member, inside⟩)

theorem collect_typed {result : Unit} (interned : vm.Interned) (typed : vm.Typed)
    (collects : collect platform vm = .ok result after) : after.Typed := by
  obtain ⟨gcHeap, internedStrings, rfl, kept⟩ := collect_ok interned collects
  have survives (ptr : Ptr) (reached : vm.Kept ptr) (kind : Kind)
      (there : vm.gcHeap.HasKind ptr kind) : gcHeap.HasKind ptr kind := by
    obtain ⟨object, found, same⟩ := there
    exact ⟨object, (kept ptr object).mpr ⟨found, reached⟩, same⟩
  refine ⟨fun frame member => ?_, fun value member => ?_, fun entry member => ⟨?_, ?_⟩,
    fun ptr object found => ?_⟩
  · exact survives _ (kept_frame vm member) _ (typed.frames frame member)
  · exact (typed.stack value member).mono _ fun ptr inside =>
      survives ptr (kept_stack vm member ptr inside)
  · exact survives _ (kept_globals vm member _ List.mem_cons_self) _ (typed.globals entry member).1
  · exact (typed.globals entry member).2.mono _ fun ptr inside =>
      survives ptr (kept_globals vm member ptr (List.mem_cons_of_mem _ inside))
  · obtain ⟨there, reached⟩ := (kept ptr object).mp found
    exact (typed.heap ptr object there).mono vm.stack fun other traced =>
      survives other (.ref reached there traced)

theorem start_ok {function : Ptr} {result : Unit} : start platform function vm = .ok result after ↔
    after = { vm.made platform (.closure { function }) with
      callFrames := { closure := vm.fresh platform, stackBeginIndex := 0 } :: vm.callFrames } := by
  constructor
  · intro starts
    obtain ⟨made, middle, makes, modifies⟩ := VmM.bind_ok.mp starts
    obtain ⟨rfl, rfl⟩ := make_ok.mp makes
    exact VmM.modify_ok.mp modifies
  · rintro rfl
    exact VmM.bind_ok.mpr ⟨_, _, run_make _, rfl⟩

theorem start_typed {function : Ptr} {result : Unit} (typed : vm.Typed)
    (code : vm.gcHeap.HasKind function .function)
    (starts : start platform function vm = .ok result after) : after.Typed := by
  obtain rfl := start_ok.mp starts
  have made := typed.made platform (.closure { function })
    ⟨(extends_made _).hasKind code, by simp, by simp⟩
  refine made.extend (.refl _) made.heap (fun frame member => ?_) (fun _ => .inl) fun _ => .inl
  rcases List.mem_cons.mp member with rfl | old
  · exact .inr (hasKind_made (.closure _))
  · exact .inl old

theorem construct_ok {result : Unit} (constructs : construct platform vm = .ok result after) :
    ∃ name named, intern platform "clock".toList vm = .ok name named ∧
      after = { named.made platform .nativeFn with
        globals := assign named.globals name (.nativeFn (named.fresh platform)) } := by
  obtain ⟨name, named, interns, rest⟩ := VmM.bind_ok.mp constructs
  obtain ⟨native, made, makes, modifies⟩ := VmM.bind_ok.mp rest
  obtain ⟨rfl, rfl⟩ := make_ok.mp makes
  exact ⟨name, named, interns, VmM.modify_ok.mp modifies⟩

theorem typed_initial : ({} : VM N).Typed :=
  ⟨by simp, by simp, by simp, fun ptr object found => by simp at found⟩

theorem construct_typed {result : Unit} (interned : vm.Interned) (typed : vm.Typed)
    (constructs : construct platform vm = .ok result after) : after.Typed := by
  obtain ⟨name, named, interns, rfl⟩ := construct_ok constructs
  have made := (typed.interned interns).made platform .nativeFn trivial
  refine made.extend (.refl _) made.heap (fun _ => .inl) (fun _ => .inl) fun entry member => ?_
  rcases mem_assign member with old | rfl
  · exact .inl old
  · exact .inr ⟨(extends_made _).hasKind ⟨_, intern_string interned interns, rfl⟩,
      hasKind_made .nativeFn⟩

end Cpplox
