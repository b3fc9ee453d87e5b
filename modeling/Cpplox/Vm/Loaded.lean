import Cpplox.Bytecode.WellFormed
import Cpplox.Data.Matched
import Cpplox.Vm.Made

namespace Cpplox

open Data Lower

/-! Functions on the heap, and the lowered functions they hold. -/

variable {N : Type}

section

variable [Number N]

/-- A source the compiler accepts, with its declarations and what they are lowered to. -/
structure Program (N : Type) [Number N] where
  source : Text
  decls : Decls
  code : LoweredCode
  lower : Lower N
  lowers : Lowers {} (.decls decls) code lower
  accepted : ∃ fuel functions, compile fuel source = .ok functions ∧ parse fuel source = .ok decls ∧
    Assembles functions (lower.functions ++ [lower.script code])

namespace Program

/-- All its functions, the root script last. -/
def functions (program : Program N) : List (LoweredFunction N) :=
  program.lower.functions ++ [program.lower.script program.code]

theorem of_compile {fuel : Nat} {source : Text} {functions : List (Function (Constant N) Text)}
    (accepted : compile fuel source = .ok functions) :
    ∃ program : Program N, program.source = source ∧
      functions = program.functions.map LoweredFunction.assemble := by
  obtain ⟨decls, code, lower, parses, lowers, assembles⟩ := compile_factors accepted
  exact ⟨⟨source, decls, code, lower, lowers, fuel, functions, accepted, parses, assembles⟩, rfl,
    assembles.made⟩

theorem fits (program : Program N) : ∀ function ∈ program.functions, function.Fits := by
  obtain ⟨_, _, -, -, assembles⟩ := program.accepted
  exact assembles.fits

theorem certified (program : Program N) :
    ∀ function ∈ program.functions, function.Certified program.functions :=
  program.lowers.certified_program

end Program

end

/-- A constant of a chunk on the heap; `ptrs` are the functions made so far. -/
inductive ConstantAt (heap : GcHeap (Object N)) (ptrs : Nat → Ptr) : Constant N → Value N → Prop
  | number {value : N} : ConstantAt heap ptrs (.number value) (.number value)
  | string {chars : Text} {ptr : Ptr} : heap.valueAt ptr = some (.string chars) →
      ConstantAt heap ptrs (.string chars) (.string ptr)
  | function {position : Nat} :
      ConstantAt heap ptrs (.function position) (.function (ptrs position))

def TokenAt (heap : GcHeap (Object N)) (token : SourceMapToken Text) (loaded : SourceMapToken Ptr) :
    Prop :=
  heap.valueAt loaded.lexeme = some (.string token.lexeme) ∧ loaded.line = token.line

/-- The object of a function. -/
structure ObjectOf (heap : GcHeap (Object N)) (ptrs : Nat → Ptr) (function : Function (Constant N) Text)
    (object : HeapFunction N) : Prop where
  name : heap.valueAt object.name = some (.string function.name)
  arity : object.arity = function.arity
  bytecode : object.chunk.bytecode = function.chunk.bytecode
  constants : List.Forall₂ (ConstantAt heap ptrs) function.chunk.constants object.chunk.constants
  tokens : List.Forall₂ (TokenAt heap) function.chunk.sourceMapTokens object.chunk.sourceMapTokens

/-- A live function object holds a function of a program, and so do those it refers to. -/
inductive Embodies (heap : GcHeap (Object N)) (functions : List (LoweredFunction N)) :
    LoweredFunction N → Ptr → Prop
  | intro {function : LoweredFunction N} {ptr : Ptr} {object : HeapFunction N} {ptrs : Nat → Ptr}
      {inner : Nat → LoweredFunction N} : heap.valueAt ptr = some (.function object) →
      ObjectOf heap ptrs function.assemble object →
      (∀ position, .function position ∈ function.constants →
        functions[position]? = some (inner position)) →
      (∀ position, .function position ∈ function.constants →
        Embodies heap functions (inner position) (ptrs position)) →
      Embodies heap functions function ptr

section

variable {heap later : GcHeap (Object N)} {ptrs : Nat → Ptr} {functions : List (LoweredFunction N)}
  {function : LoweredFunction N} {ptr : Ptr}

theorem ConstantAt.mono {constant : Constant N} {value : Value N}
    (here : ConstantAt heap ptrs constant value)
    (strings : ∀ ptr chars, ptr ∈ value.refs → heap.valueAt ptr = some (.string chars) →
      later.valueAt ptr = some (.string chars)) : ConstantAt later ptrs constant value := by
  cases here with
  | number => exact .number
  | string found => exact .string (strings _ _ (List.mem_singleton.mpr rfl) found)
  | function => exact .function

/-- A function object survives where what it refers to does. -/
theorem Embodies.mono (keeps : Ptr → Prop) (embodies : Embodies heap functions function ptr)
    (strings : ∀ ptr chars, keeps ptr → heap.valueAt ptr = some (.string chars) →
      later.valueAt ptr = some (.string chars))
    (objects : ∀ ptr object, keeps ptr → heap.valueAt ptr = some (.function object) →
      later.valueAt ptr = some (.function object) ∧ keeps object.name ∧
        (∀ value ∈ object.chunk.constants, ∀ ptr ∈ value.refs, keeps ptr) ∧
        ∀ token ∈ object.chunk.sourceMapTokens, keeps token.lexeme)
    (kept : keeps ptr) : Embodies later functions function ptr := by
  induction embodies with
  | @intro function ptr object ptrs inner found object_ known _ ih =>
      obtain ⟨stays, name, constants, tokens⟩ := objects ptr object kept found
      refine .intro stays ⟨strings _ _ name object_.name, object_.arity, object_.bytecode, ?_, ?_⟩
        known fun position member => ih position member ?_
      · exact matched_mono object_.constants fun constant value member here =>
          here.mono fun ptr chars inside => strings ptr chars (constants value member ptr inside)
      · exact matched_mono object_.tokens fun token loaded member here =>
          ⟨strings _ _ (tokens loaded member) here.1, here.2⟩
      · obtain ⟨value, inside, here⟩ := matched_member object_.constants member
        cases here
        exact constants _ inside _ (List.mem_singleton.mpr rfl)

theorem Embodies.extend (embodies : Embodies heap functions function ptr)
    (extends_ : heap.Extends later) : Embodies later functions function ptr :=
  embodies.mono (fun _ => True) (fun _ _ _ => extends_.string)
    (fun _ _ _ found => ⟨extends_.function found, trivial, fun _ _ _ _ => trivial,
      fun _ _ => trivial⟩) trivial

end

/-- The machine with strings and functions made on its heap. -/
structure VM.Loads (vm after : VM N) : Prop where
  extends_ : vm.gcHeap.Extends after.gcHeap
  old : ∀ ptr object, after.gcHeap.valueAt ptr = some object →
    vm.gcHeap.valueAt ptr = some object ∨ object.kind = .string ∨ object.kind = .function
  stack : after.stack = vm.stack
  callFrames : after.callFrames = vm.callFrames
  globals : after.globals = vm.globals
  interned : after.Interned
  typed : after.Typed

section

variable {platform : Platform N} {vm middle after : VM N} {made : List Ptr} {ptr : Ptr}

theorem VM.Loads.refl (interned : vm.Interned) (typed : vm.Typed) : vm.Loads vm :=
  ⟨.refl _, fun _ _ => .inl, rfl, rfl, rfl, interned, typed⟩

theorem VM.Loads.trans (one : vm.Loads middle) (two : middle.Loads after) : vm.Loads after where
  extends_ := one.extends_.trans two.extends_
  old ptr object found := (two.old ptr object found).elim (one.old ptr object) .inr
  stack := two.stack.trans one.stack
  callFrames := two.callFrames.trans one.callFrames
  globals := two.globals.trans one.globals
  interned := two.interned
  typed := two.typed

theorem made_old {object found : Object N}
    (there : (vm.made platform object).gcHeap.valueAt ptr = some found) :
    vm.gcHeap.valueAt ptr = some found ∨ found = object := by
  rw [valueAt_made] at there
  split at there
  · exact .inr (Option.some.inj there).symm
  · exact .inl there

theorem intern_loads {chars : Text} (interned : vm.Interned) (typed : vm.Typed)
    (interns : intern platform chars vm = .ok ptr after) : vm.Loads after := by
  have laterInterned := intern_interned interned interns
  have laterTyped := typed.interned interns
  have extends_ := intern_extends interns
  rcases intern_ok.mp interns with ⟨-, rfl⟩ | ⟨-, -, rfl⟩
  · exact .refl interned typed
  · refine ⟨extends_, fun other object found => ?_, rfl, rfl, rfl, laterInterned, laterTyped⟩
    exact (made_old found).imp_right fun same => by rw [same]; exact .inl rfl

theorem make_loads (platform : Platform N) {object : HeapFunction N} (interned : vm.Interned) (typed : vm.Typed)
    (sound : (Object.function object).Typed vm.gcHeap) :
    vm.Loads (vm.made platform (.function object)) where
  extends_ := extends_made _
  old other found there := (made_old there).imp_right fun same => by rw [same]; exact .inr rfl
  stack := rfl
  callFrames := rfl
  globals := rfl
  interned := interned.made nofun
  typed := typed.made _ _ (sound.extend (extends_made _))

/-- The functions made so far are at their pointers. -/
def pointerAt (made : List Ptr) (position : Nat) : Ptr := made.getD position 0

theorem loadConstant_ok {constant : Constant N} {value : Value N} (interned : vm.Interned)
    (typed : vm.Typed) (functions : ∀ ptr ∈ made, vm.gcHeap.HasKind ptr .function)
    (loads : loadConstant platform made constant vm = .ok value after) :
    vm.Loads after ∧ value.Typed after.gcHeap ∧
      ConstantAt after.gcHeap (pointerAt made) constant value ∧
      ∀ position, constant = .function position → position < made.length := by
  cases constant with
  | number number =>
      obtain ⟨rfl, rfl⟩ := VmM.pure_ok.mp loads
      exact ⟨.refl interned typed, trivial, .number, nofun⟩
  | string chars =>
      obtain ⟨ptr, middle, interns, returns⟩ := VmM.bind_ok.mp loads
      obtain ⟨rfl, rfl⟩ := VmM.pure_ok.mp returns
      have found := intern_string interned interns
      exact ⟨intern_loads interned typed interns, ⟨_, found, rfl⟩, .string found, nofun⟩
  | function position =>
      simp only [loadConstant] at loads
      cases found : made[position]? with
      | none =>
          rw [found] at loads
          exact (VmM.throw_ok.mp loads).elim
      | some ptr =>
          rw [found] at loads
          obtain ⟨rfl, rfl⟩ := VmM.pure_ok.mp loads
          have same : pointerAt made position = ptr := by simp [pointerAt, found]
          refine ⟨.refl interned typed, functions ptr (List.mem_of_getElem? found),
            same ▸ .function, ?_⟩
          rintro _ ⟨⟩
          exact (List.getElem?_eq_some_iff.mp found).1

theorem loadConstants_ok {constants : List (Constant N)} {values : List (Value N)}
    (interned : vm.Interned) (typed : vm.Typed)
    (functions : ∀ ptr ∈ made, vm.gcHeap.HasKind ptr .function)
    (loads : loadConstants platform made constants vm = .ok values after) :
    vm.Loads after ∧ (∀ value ∈ values, value.Typed after.gcHeap) ∧
      List.Forall₂ (ConstantAt after.gcHeap (pointerAt made)) constants values ∧
      ∀ position, .function position ∈ constants → position < made.length := by
  induction constants generalizing vm values with
  | nil =>
      obtain ⟨rfl, rfl⟩ := VmM.pure_ok.mp loads
      exact ⟨.refl interned typed, by simp, .nil, by simp⟩
  | cons constant rest ih =>
      obtain ⟨value, middle, first, loads⟩ := VmM.bind_ok.mp loads
      obtain ⟨others, last, second, returns⟩ := VmM.bind_ok.mp loads
      obtain ⟨rfl, rfl⟩ := VmM.pure_ok.mp returns
      obtain ⟨loads₁, sound, here, bound⟩ := loadConstant_ok interned typed functions first
      obtain ⟨loads₂, sounds, there, bounds⟩ := ih loads₁.interned loads₁.typed
        (fun ptr member => loads₁.extends_.hasKind (functions ptr member)) second
      refine ⟨loads₁.trans loads₂, List.forall_mem_cons.mpr ⟨sound.extend loads₂.extends_, sounds⟩,
        .cons (here.mono fun _ _ _ => loads₂.extends_.string) there, fun position member => ?_⟩
      rcases List.mem_cons.mp member with same | later
      · exact bound position same.symm
      · exact bounds position later

theorem loadTokens_ok {tokens : List (SourceMapToken Text)} {loaded : List (SourceMapToken Ptr)}
    (interned : vm.Interned) (typed : vm.Typed)
    (loads : loadTokens platform tokens vm = .ok loaded after) :
    vm.Loads after ∧ List.Forall₂ (TokenAt after.gcHeap) tokens loaded := by
  induction tokens generalizing vm loaded with
  | nil =>
      obtain ⟨rfl, rfl⟩ := VmM.pure_ok.mp loads
      exact ⟨.refl interned typed, .nil⟩
  | cons token rest ih =>
      obtain ⟨lexeme, middle, first, loads⟩ := VmM.bind_ok.mp loads
      obtain ⟨others, last, second, returns⟩ := VmM.bind_ok.mp loads
      obtain ⟨rfl, rfl⟩ := VmM.pure_ok.mp returns
      have loads₁ := intern_loads interned typed first
      obtain ⟨loads₂, there⟩ := ih loads₁.interned loads₁.typed second
      exact ⟨loads₁.trans loads₂,
        .cons ⟨loads₂.extends_.string (intern_string interned first), rfl⟩ there⟩

theorem loadFunction_ok {function : Function (Constant N) Text} (interned : vm.Interned)
    (typed : vm.Typed) (functions : ∀ ptr ∈ made, vm.gcHeap.HasKind ptr .function)
    (loads : loadFunction platform made function vm = .ok ptr after) :
    vm.Loads after ∧ (∃ object, after.gcHeap.valueAt ptr = some (.function object) ∧
      ObjectOf after.gcHeap (pointerAt made) function object) ∧
      ∀ position, .function position ∈ function.chunk.constants → position < made.length := by
  obtain ⟨name, vm₁, first, loads⟩ := VmM.bind_ok.mp loads
  obtain ⟨constants, vm₂, second, loads⟩ := VmM.bind_ok.mp loads
  obtain ⟨tokens, vm₃, third, makes⟩ := VmM.bind_ok.mp loads
  obtain ⟨rfl, rfl⟩ := make_ok.mp makes
  have loads₁ := intern_loads interned typed first
  obtain ⟨loads₂, sounds, values, bounds⟩ := loadConstants_ok loads₁.interned loads₁.typed
    (fun ptr member => loads₁.extends_.hasKind (functions ptr member)) second
  obtain ⟨loads₃, lexemes⟩ := loadTokens_ok loads₂.interned loads₂.typed third
  have named := (loads₂.extends_.trans loads₃.extends_).string (intern_string interned first)
  have sound : (Object.function { name, arity := function.arity, chunk :=
      { bytecode := function.chunk.bytecode, constants, sourceMapTokens := tokens } }).Typed
      vm₃.gcHeap := by
    refine ⟨⟨_, named, rfl⟩, fun value member => (sounds value member).extend loads₃.extends_,
      fun token member => ?_⟩
    obtain ⟨index, found⟩ := List.mem_iff_getElem?.mp member
    obtain ⟨_, -, lexeme, -⟩ := matched_right lexemes found
    exact ⟨_, lexeme, rfl⟩
  have loads₄ := make_loads platform loads₃.interned loads₃.typed sound
  have still := loads₄.extends_
  refine ⟨((loads₁.trans loads₂).trans loads₃).trans loads₄,
    ⟨_, by rw [valueAt_made, if_pos rfl], still.string named, rfl, rfl, ?_, ?_⟩, bounds⟩
  · exact matched_mono values fun constant value _ here =>
      here.mono fun _ _ _ => (loads₃.extends_.trans still).string
  · exact matched_mono lexemes fun token loaded _ here => ⟨still.string here.1, here.2⟩

theorem loadAll_ok {functions : List (Function (Constant N) Text)} {all : List Ptr}
    (interned : vm.Interned) (typed : vm.Typed)
    (before : ∀ ptr ∈ made, vm.gcHeap.HasKind ptr .function)
    (loads : loadAll platform made functions vm = .ok all after) :
    vm.Loads after ∧ ∀ ptr ∈ all, after.gcHeap.HasKind ptr .function := by
  induction functions generalizing vm made with
  | nil =>
      obtain ⟨rfl, rfl⟩ := VmM.pure_ok.mp loads
      exact ⟨.refl interned typed, before⟩
  | cons function rest ih =>
      obtain ⟨ptr, middle, first, second⟩ := VmM.bind_ok.mp loads
      obtain ⟨loads₁, ⟨object, found, -⟩, -⟩ := loadFunction_ok interned typed before first
      have live : ∀ other ∈ made ++ [ptr], middle.gcHeap.HasKind other .function := by
        intro other member
        rcases List.mem_append.mp member with old | new
        · exact loads₁.extends_.hasKind (before other old)
        · rw [List.mem_singleton.mp new]
          exact ⟨_, found, rfl⟩
      obtain ⟨loads₂, all⟩ := ih loads₁.interned loads₁.typed live second
      exact ⟨loads₁.trans loads₂, all⟩

/-- The function objects of a program hold its functions. -/
theorem loadAll_embodies {functions earlier rest : List (LoweredFunction N)} {all : List Ptr}
    (split : functions = earlier ++ rest) (interned : vm.Interned) (typed : vm.Typed)
    (before : List.Forall₂ (Embodies vm.gcHeap functions) earlier made)
    (loads : loadAll platform made (rest.map LoweredFunction.assemble) vm = .ok all after) :
    List.Forall₂ (Embodies after.gcHeap functions) functions all := by
  induction rest generalizing vm made earlier with
  | nil =>
      obtain ⟨rfl, rfl⟩ := VmM.pure_ok.mp loads
      rw [List.append_nil] at split
      exact split ▸ before
  | cons function rest ih =>
      obtain ⟨ptr, middle, first, second⟩ := VmM.bind_ok.mp loads
      have live : ∀ ptr ∈ made, vm.gcHeap.HasKind ptr .function := by
        intro ptr member
        obtain ⟨index, found⟩ := List.mem_iff_getElem?.mp member
        obtain ⟨_, -, embodies⟩ := matched_right before found
        cases embodies with
        | intro there => exact ⟨_, there, rfl⟩
      obtain ⟨loads₁, ⟨object, found, isObject⟩, bounds⟩ := loadFunction_ok interned typed live first
      have laterEarlier := matched_mono before fun _ _ _ embodies => embodies.extend loads₁.extends_
      have inner (position : Nat) (member : .function position ∈ function.constants) :
          ∃ lowered, functions[position]? = some lowered ∧
            Embodies middle.gcHeap functions lowered (pointerAt made position) := by
        have bound := bounds position member
        obtain ⟨lowered, at_, embodies⟩ := matched_right laterEarlier (List.getElem?_eq_getElem bound)
        refine ⟨lowered, ?_, ?_⟩
        · rw [split, List.getElem?_append_left (List.getElem?_eq_some_iff.mp at_).1, at_]
        · simpa [pointerAt, List.getD, List.getElem?_eq_getElem bound] using embodies
      have at_ (position : Nat) (member : .function position ∈ function.constants) :
          functions[position]? = some ((functions[position]?).getD function) := by
        obtain ⟨lowered, there, -⟩ := inner position member
        rw [there]
        rfl
      have embodies : Embodies middle.gcHeap functions function ptr :=
        .intro found isObject at_ fun position member => by
          obtain ⟨lowered, there, embodies⟩ := inner position member
          rw [there]
          exact embodies
      have next : functions = (earlier ++ [function]) ++ rest := by simp [split]
      exact ih next loads₁.interned loads₁.typed (matched_snoc laterEarlier embodies) second

end

section

variable {platform : Platform N} {vm after : VM N} {ptr : Ptr} {frame : Frame} {closure : Closure}
  {object : HeapFunction N} {result : Unit} [Number N] {program : Program N}
  {function : LoweredFunction N}

/-- The closure is of a function of a program. -/
structure Closure.Of (closure : Closure) (heap : GcHeap (Object N)) (program : Program N)
    (function : LoweredFunction N) : Prop where
  member : function ∈ program.functions
  embodies : Embodies heap program.functions function closure.function

def VM.Loaded (vm : VM N) : Prop :=
  ∀ ptr closure, vm.gcHeap.valueAt ptr = some (.closure closure) →
    ∃ program function, closure.Of vm.gcHeap program function

theorem Closure.Of.extend {later : GcHeap (Object N)} (of : closure.Of vm.gcHeap program function)
    (extends_ : vm.gcHeap.Extends later) : closure.Of later program function :=
  ⟨of.member, of.embodies.extend extends_⟩

theorem Closure.Of.congr {heap : GcHeap (Object N)} {other : Closure}
    (of : closure.Of heap program function) (same : other.function = closure.function) :
    other.Of heap program function :=
  ⟨of.member, same ▸ of.embodies⟩

/-- A closure made of a constant of a running function is of a function of its program. -/
theorem Closure.Of.inner {constant : Nat} {made : Closure} (of : closure.Of vm.gcHeap program function)
    (code : vm.gcHeap.valueAt closure.function = some (.function object))
    (known : object.chunk.constants[constant]? = some (.function made.function)) :
    ∃ position inner, function.constants[constant]? = some (.function position) ∧
      program.functions[position]? = some inner ∧ made.Of vm.gcHeap program inner := by
  obtain ⟨member, embodies⟩ := of
  obtain ⟨ptr, _, _⟩ := made
  cases embodies with
  | intro found isObject positions inners =>
      obtain rfl : object = _ := Object.function.inj (Option.some.inj (code.symm.trans found))
      obtain ⟨lowered, at_, here⟩ := matched_right isObject.constants known
      cases lowered with
      | number | string => cases here
      | function position =>
          have inside : .function position ∈ function.constants := List.mem_of_getElem? at_
          refine ⟨position, _, at_, positions position inside,
            List.mem_of_getElem? (positions position inside), ?_⟩
          have same := inners position inside
          cases here
          exact same

/-- The closures of a later heap are the old ones or of loaded functions. -/
theorem VM.Loaded.extend (loaded : vm.Loaded) (extends_ : vm.gcHeap.Extends after.gcHeap)
    (new : ∀ ptr closure, vm.gcHeap.valueAt ptr = none →
      after.gcHeap.valueAt ptr = some (.closure closure) →
      ∃ program function, closure.Of after.gcHeap program function) : after.Loaded := by
  intro ptr closure found
  cases here : vm.gcHeap.valueAt ptr with
  | none => exact new ptr closure here found
  | some old =>
      obtain ⟨other, laterFound, becomes⟩ := extends_ ptr old here
      obtain rfl := Option.some.inj (found.symm.trans laterFound)
      cases becomes with
      | same =>
          obtain ⟨program, function, of⟩ := loaded ptr closure here
          exact ⟨program, function, of.extend extends_⟩
      | closure same =>
          obtain ⟨program, function, of⟩ := loaded ptr _ here
          exact ⟨program, function, (of.extend extends_).congr same⟩

theorem Effect.loaded {activation : Activation N} {instr : Instr}
    (effect : Effect platform activation vm instr after) (loaded : vm.Loaded)
    (live : vm.gcHeap.valueAt activation.closure = some (.closure closure))
    (code : vm.gcHeap.valueAt closure.function = some (.function object))
    (chunk : activation.chunk = object.chunk) : after.Loaded := by
  refine loaded.extend effect.extends fun ptr made absent found => ?_
  obtain ⟨index, captures, rfl, known⟩ := effect.new absent found
  obtain ⟨program, function, of⟩ := loaded _ _ live
  obtain ⟨_, inner, -, -, ofInner⟩ := of.inner code (chunk ▸ known)
  exact ⟨program, inner, ofInner.extend effect.extends⟩

theorem VM.Loads.loaded (loads : vm.Loads after) (loaded : vm.Loaded) : after.Loaded := by
  refine loaded.extend loads.extends_ fun ptr made absent found => ?_
  rcases loads.old ptr _ found with old | kind | kind
  · rw [absent] at old
    cases old
  · cases kind
  · cases kind

/-- A collection keeps what a closure it keeps is of. -/
theorem Closure.Of.collected (of : closure.Of vm.gcHeap program function) (interned : vm.Interned)
    (collects : collect platform vm = .ok result after)
    (found : after.gcHeap.valueAt ptr = some (.closure closure)) :
    closure.Of after.gcHeap program function := by
  obtain ⟨gcHeap, internedStrings, rfl, kept⟩ := collect_ok interned collects
  obtain ⟨there, reached⟩ := (kept ptr _).mp found
  have code : vm.Kept closure.function := .ref reached there (by simp [Object.traceRefs])
  refine ⟨of.member, of.embodies.mono vm.Kept
    (fun other chars keeps held => (kept other _).mpr ⟨held, keeps⟩)
    (fun other object keeps held => ⟨(kept other _).mpr ⟨held, keeps⟩, ?_, ?_, ?_⟩) code⟩
  · exact .ref keeps held (by simp [Object.traceRefs])
  · intro value member other inside
    exact .ref keeps held (List.mem_cons_of_mem _ (List.mem_append_left _
      (List.mem_flatMap.mpr ⟨value, member, inside⟩)))
  · intro token member
    exact .ref keeps held (List.mem_cons_of_mem _ (List.mem_append_right _
      (List.mem_map.mpr ⟨token, member, rfl⟩)))

theorem collect_loaded (interned : vm.Interned) (loaded : vm.Loaded)
    (collects : collect platform vm = .ok result after) : after.Loaded := by
  intro ptr closure found
  obtain ⟨gcHeap, internedStrings, rfl, kept⟩ := collect_ok interned collects
  obtain ⟨program, function, of⟩ := loaded ptr closure ((kept ptr _).mp found).1
  exact ⟨program, function, of.collected interned collects found⟩

end

end Cpplox
