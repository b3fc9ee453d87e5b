import Cpplox.Data.Pairing
import Cpplox.Data.Twins
import Cpplox.Vm.Interning
import Cpplox.Vm.Run

namespace Cpplox

open Data

/-! Twin machines: the same state under other addresses, with other garbage. -/

variable {N : Type}

abbrev Addresses := Pairing Ptr Ptr

inductive Value.Twin (pairing : Addresses) : Value N → Value N → Prop where
  | nil : Value.Twin pairing .nil .nil
  | bool (value : Bool) : Value.Twin pairing (.bool value) (.bool value)
  | number (value : N) : Value.Twin pairing (.number value) (.number value)
  | boundMethod {ptr twinPtr : Ptr} : pairing.pairs ptr twinPtr →
      Value.Twin pairing (.boundMethod ptr) (.boundMethod twinPtr)
  | class_ {ptr twinPtr : Ptr} : pairing.pairs ptr twinPtr →
      Value.Twin pairing (.class_ ptr) (.class_ twinPtr)
  | closure {ptr twinPtr : Ptr} : pairing.pairs ptr twinPtr →
      Value.Twin pairing (.closure ptr) (.closure twinPtr)
  | function {ptr twinPtr : Ptr} : pairing.pairs ptr twinPtr →
      Value.Twin pairing (.function ptr) (.function twinPtr)
  | instance_ {ptr twinPtr : Ptr} : pairing.pairs ptr twinPtr →
      Value.Twin pairing (.instance_ ptr) (.instance_ twinPtr)
  | nativeFn {ptr twinPtr : Ptr} : pairing.pairs ptr twinPtr →
      Value.Twin pairing (.nativeFn ptr) (.nativeFn twinPtr)
  | string {ptr twinPtr : Ptr} : pairing.pairs ptr twinPtr →
      Value.Twin pairing (.string ptr) (.string twinPtr)

structure BoundMethod.Twin (pairing : Addresses) (bound twinBound : BoundMethod) : Prop where
  instance_ : pairing.pairs bound.instance_ twinBound.instance_
  method : pairing.pairs bound.method twinBound.method

structure Class.Twin (pairing : Addresses) (klass twinKlass : Class) : Prop where
  name : pairing.pairs klass.name twinKlass.name
  methods : Entries pairing pairing.pairs klass.methods twinKlass.methods

structure Closure.Twin (pairing : Addresses) (closure twinClosure : Closure) : Prop where
  function : pairing.pairs closure.function twinClosure.function
  upvalues : List.Forall₂ pairing.pairs closure.upvalues twinClosure.upvalues
  openUpvalues : List.Forall₂ pairing.pairs closure.openUpvalues twinClosure.openUpvalues

structure SourceMapToken.Twin (pairing : Addresses) (token twinToken : SourceMapToken Ptr) : Prop where
  lexeme : pairing.pairs token.lexeme twinToken.lexeme
  line : token.line = twinToken.line

structure Chunk.Twin (pairing : Addresses) (chunk twinChunk : Chunk (Value N) Ptr) : Prop where
  bytecode : chunk.bytecode = twinChunk.bytecode
  constants : List.Forall₂ (Value.Twin pairing) chunk.constants twinChunk.constants
  sourceMapTokens :
    List.Forall₂ (SourceMapToken.Twin pairing) chunk.sourceMapTokens twinChunk.sourceMapTokens

structure Function.Twin (pairing : Addresses) (function twinFunction : HeapFunction N) : Prop where
  name : pairing.pairs function.name twinFunction.name
  arity : function.arity = twinFunction.arity
  chunk : function.chunk.Twin pairing twinFunction.chunk

structure Instance.Twin (pairing : Addresses) (inst twinInst : Instance N) : Prop where
  klass : pairing.pairs inst.klass twinInst.klass
  fields : Entries pairing (Value.Twin pairing) inst.fields twinInst.fields

/-- Open upvalues refer to the same slot. -/
inductive Upvalue.Twin (pairing : Addresses) : Upvalue N → Upvalue N → Prop where
  | open_ (stackIndex : Nat) : Upvalue.Twin pairing (.open_ stackIndex) (.open_ stackIndex)
  | closed {value twinValue : Value N} : value.Twin pairing twinValue →
      Upvalue.Twin pairing (.closed value) (.closed twinValue)

inductive Object.Twin (pairing : Addresses) : Object N → Object N → Prop where
  | boundMethod {bound twinBound : BoundMethod} : bound.Twin pairing twinBound →
      Object.Twin pairing (.boundMethod bound) (.boundMethod twinBound)
  | class_ {klass twinKlass : Class} : klass.Twin pairing twinKlass →
      Object.Twin pairing (.class_ klass) (.class_ twinKlass)
  | closure {closure twinClosure : Closure} : closure.Twin pairing twinClosure →
      Object.Twin pairing (.closure closure) (.closure twinClosure)
  | function {function twinFunction : HeapFunction N} : function.Twin pairing twinFunction →
      Object.Twin pairing (.function function) (.function twinFunction)
  | instance_ {inst twinInst : Instance N} : inst.Twin pairing twinInst →
      Object.Twin pairing (.instance_ inst) (.instance_ twinInst)
  | nativeFn : Object.Twin pairing .nativeFn .nativeFn
  | string (chars : Text) : Object.Twin pairing (.string chars) (.string chars)
  | upvalue {upvalue twinUpvalue : Upvalue N} : upvalue.Twin pairing twinUpvalue →
      Object.Twin pairing (.upvalue upvalue) (.upvalue twinUpvalue)

structure Frame.Twin (pairing : Addresses) (frame twinFrame : Frame) : Prop where
  closure : pairing.pairs frame.closure twinFrame.closure
  bytecodeIndex : frame.bytecodeIndex = twinFrame.bytecodeIndex
  stackBeginIndex : frame.stackBeginIndex = twinFrame.stackBeginIndex

structure Activation.Twin (pairing : Addresses) (activation twinActivation : Activation N) : Prop where
  closure : pairing.pairs activation.closure twinActivation.closure
  stackBeginIndex : activation.stackBeginIndex = twinActivation.stackBeginIndex
  chunk : activation.chunk.Twin pairing twinActivation.chunk
  token : activation.token.Twin pairing twinActivation.token

/-- Only live objects are paired, and twins are of the same kind with the same contents.
The tables of interned strings and the objects without a partner need not be alike. -/
structure VM.Twins (pairing : Addresses) (vm twinVm : VM N) : Prop where
  objects : ∀ ptr twinPtr, pairing.pairs ptr twinPtr → ∃ object twinObject,
    vm.gcHeap.valueAt ptr = some object ∧
    twinVm.gcHeap.valueAt twinPtr = some twinObject ∧ object.Twin pairing twinObject
  stack : List.Forall₂ (Value.Twin pairing) vm.stack twinVm.stack
  callFrames : List.Forall₂ (Frame.Twin pairing) vm.callFrames twinVm.callFrames
  globals : Entries pairing (Value.Twin pairing) vm.globals twinVm.globals
  output : vm.output = twinVm.output
  nClock : vm.nClock = twinVm.nClock

variable {pairing other : Addresses}

theorem Value.Twin.move {value twinValue : Value N} (twin : value.Twin pairing twinValue)
    (moves : ∀ ptr ∈ value.refs, ∀ twinPtr, pairing.pairs ptr twinPtr → other.pairs ptr twinPtr) :
    value.Twin other twinValue := by
  cases twin with
  | nil => exact .nil
  | bool value => exact .bool value
  | number value => exact .number value
  | boundMethod pair => exact .boundMethod (moves _ List.mem_cons_self _ pair)
  | class_ pair => exact .class_ (moves _ List.mem_cons_self _ pair)
  | closure pair => exact .closure (moves _ List.mem_cons_self _ pair)
  | function pair => exact .function (moves _ List.mem_cons_self _ pair)
  | instance_ pair => exact .instance_ (moves _ List.mem_cons_self _ pair)
  | nativeFn pair => exact .nativeFn (moves _ List.mem_cons_self _ pair)
  | string pair => exact .string (moves _ List.mem_cons_self _ pair)

theorem Object.Twin.move {object twinObject : Object N} (stack : List (Value N))
    (twin : object.Twin pairing twinObject)
    (moves : ∀ ptr ∈ object.traceRefs stack, ∀ twinPtr, pairing.pairs ptr twinPtr →
      other.pairs ptr twinPtr) :
    object.Twin other twinObject := by
  cases twin with
  | boundMethod twin =>
      exact .boundMethod ⟨moves _ (by simp [traceRefs]) _ twin.instance_,
        moves _ (by simp [traceRefs]) _ twin.method⟩
  | class_ twin =>
      refine .class_ ⟨moves _ (by simp [traceRefs]) _ twin.name,
        alike_of_mem twin.methods fun entry member twinEntry both =>
          ⟨moves _ ?_ _ both.1, moves _ ?_ _ both.2⟩⟩
      all_goals
        simp only [traceRefs, List.mem_cons, List.mem_flatMap]
        exact .inr ⟨entry, member, by simp⟩
  | closure twin =>
      refine .closure ⟨moves _ (by simp [traceRefs]) _ twin.function,
        alike_of_mem twin.upvalues fun ptr member => moves ptr ?_,
        alike_of_mem twin.openUpvalues fun ptr member => moves ptr ?_⟩
      all_goals simp [traceRefs, member]
  | function twin =>
      refine .function ⟨moves _ (by simp [traceRefs]) _ twin.name, twin.arity, twin.chunk.bytecode,
        alike_of_mem twin.chunk.constants fun value member twinValue same =>
          same.move fun ptr inside => moves ptr ?_,
        alike_of_mem twin.chunk.sourceMapTokens fun token member twinToken same =>
          ⟨moves _ ?_ _ same.lexeme, same.line⟩⟩
      · simp only [traceRefs, List.mem_cons, List.mem_append, List.mem_flatMap]
        exact .inr (.inl ⟨value, member, inside⟩)
      · simp only [traceRefs, List.mem_cons, List.mem_append, List.mem_map]
        exact .inr (.inr ⟨token, member, rfl⟩)
  | instance_ twin =>
      refine .instance_ ⟨moves _ (by simp [traceRefs]) _ twin.klass,
        alike_of_mem twin.fields fun entry member twinEntry both =>
          ⟨moves _ ?_ _ both.1, both.2.move fun ptr inside => moves ptr ?_⟩⟩
      all_goals
        simp only [traceRefs, List.mem_cons, List.mem_flatMap]
        exact .inr ⟨entry, member, by simp_all⟩
  | nativeFn => exact .nativeFn
  | string chars => exact .string chars
  | upvalue twin =>
      cases twin with
      | open_ stackIndex => exact .upvalue (.open_ stackIndex)
      | closed twin => exact .upvalue (.closed (twin.move moves))

theorem Value.Twin.mono {value twinValue : Value N} (twin : value.Twin pairing twinValue)
    (le : pairing ≤ other) : value.Twin other twinValue :=
  twin.move fun ptr _ twinPtr => le ptr twinPtr

theorem Object.Twin.mono {object twinObject : Object N} (twin : object.Twin pairing twinObject)
    (le : pairing ≤ other) : object.Twin other twinObject :=
  twin.move [] fun ptr _ twinPtr => le ptr twinPtr

theorem Frame.Twin.mono {frame twinFrame : Frame} (twin : frame.Twin pairing twinFrame)
    (le : pairing ≤ other) : frame.Twin other twinFrame :=
  ⟨le _ _ twin.closure, twin.bytecodeIndex, twin.stackBeginIndex⟩

theorem SourceMapToken.Twin.mono {token twinToken : SourceMapToken Ptr}
    (twin : token.Twin pairing twinToken)
    (le : pairing ≤ other) : token.Twin other twinToken :=
  ⟨le _ _ twin.lexeme, twin.line⟩

theorem Activation.Twin.mono {activation twinActivation : Activation N}
    (twin : activation.Twin pairing twinActivation) (le : pairing ≤ other) :
    activation.Twin other twinActivation where
  closure := le _ _ twin.closure
  stackBeginIndex := twin.stackBeginIndex
  chunk := ⟨twin.chunk.bytecode, twin.chunk.constants.imp fun _ _ same => same.mono le,
    twin.chunk.sourceMapTokens.imp fun _ _ same => same.mono le⟩
  token := twin.token.mono le

theorem Value.Twin.swap {value twinValue : Value N} (twin : value.Twin pairing twinValue) :
    twinValue.Twin pairing.swap value := by
  cases twin with
  | nil => exact .nil
  | bool value => exact .bool value
  | number value => exact .number value
  | boundMethod pair => exact .boundMethod pair
  | class_ pair => exact .class_ pair
  | closure pair => exact .closure pair
  | function pair => exact .function pair
  | instance_ pair => exact .instance_ pair
  | nativeFn pair => exact .nativeFn pair
  | string pair => exact .string pair

theorem Object.Twin.swap {object twinObject : Object N} (twin : object.Twin pairing twinObject) :
    twinObject.Twin pairing.swap object := by
  cases twin with
  | boundMethod twin => exact .boundMethod ⟨twin.instance_, twin.method⟩
  | class_ twin => exact .class_ ⟨twin.name, twin.methods.swap fun _ _ pair => pair⟩
  | closure twin => exact .closure ⟨twin.function, twin.upvalues.flip, twin.openUpvalues.flip⟩
  | function twin =>
      exact .function ⟨twin.name, twin.arity.symm, twin.chunk.bytecode.symm,
        (twin.chunk.constants.imp fun _ _ same => same.swap).flip,
        (twin.chunk.sourceMapTokens.imp fun _ _ same => ⟨same.lexeme, same.line.symm⟩).flip⟩
  | instance_ twin => exact .instance_ ⟨twin.klass, twin.fields.swap fun _ _ same => same.swap⟩
  | nativeFn => exact .nativeFn
  | string chars => exact .string chars
  | upvalue twin =>
      cases twin with
      | open_ stackIndex => exact .upvalue (.open_ stackIndex)
      | closed twin => exact .upvalue (.closed twin.swap)

variable {vm twinVm : VM N}

theorem VM.Twins.swap (twins : VM.Twins pairing vm twinVm) : VM.Twins pairing.swap twinVm vm where
  objects twinPtr ptr pair := by
    obtain ⟨object, twinObject, found, twinFound, twin⟩ := twins.objects ptr twinPtr pair
    exact ⟨twinObject, object, twinFound, found, twin.swap⟩
  stack := (twins.stack.imp fun _ _ twin => twin.swap).flip
  callFrames := (twins.callFrames.imp fun _ _ twin =>
    ⟨twin.closure, twin.bytecodeIndex.symm, twin.stackBeginIndex.symm⟩).flip
  globals := twins.globals.swap fun _ _ twin => twin.swap
  output := twins.output.symm
  nClock := twins.nClock.symm

namespace VM.Twins

variable {platform twinPlatform : Platform N} {ptr twinPtr : Ptr} {value twinValue : Value N}

theorem getObject (twins : VM.Twins pairing vm twinVm) (pair : pairing.pairs ptr twinPtr) :
    Finds (Object.Twin pairing) (getObject ptr) (Cpplox.getObject twinPtr) vm twinVm := by
  obtain ⟨object, twinObject, found, twinFound, twin⟩ := twins.objects ptr twinPtr pair
  exact .returns (by rw [getObject_run, found]) (by rw [getObject_run, twinFound]) twin

theorem getBoundMethod (twins : VM.Twins pairing vm twinVm) (pair : pairing.pairs ptr twinPtr) :
    Finds (BoundMethod.Twin pairing) (getBoundMethod ptr)
      (Cpplox.getBoundMethod twinPtr) vm twinVm := by
  refine (twins.getObject pair).bind fun _ _ twin => ?_
  cases twin with
  | boundMethod twin => exact .pure twin
  | _ => exact .throw _

theorem getClass (twins : VM.Twins pairing vm twinVm) (pair : pairing.pairs ptr twinPtr) :
    Finds (Class.Twin pairing) (getClass ptr) (Cpplox.getClass twinPtr) vm twinVm := by
  refine (twins.getObject pair).bind fun _ _ twin => ?_
  cases twin with
  | class_ twin => exact .pure twin
  | _ => exact .throw _

theorem getClosure (twins : VM.Twins pairing vm twinVm) (pair : pairing.pairs ptr twinPtr) :
    Finds (Closure.Twin pairing) (getClosure ptr) (Cpplox.getClosure twinPtr) vm twinVm := by
  refine (twins.getObject pair).bind fun _ _ twin => ?_
  cases twin with
  | closure twin => exact .pure twin
  | _ => exact .throw _

theorem getFunction (twins : VM.Twins pairing vm twinVm) (pair : pairing.pairs ptr twinPtr) :
    Finds (Function.Twin pairing) (getFunction ptr) (Cpplox.getFunction twinPtr) vm twinVm := by
  refine (twins.getObject pair).bind fun _ _ twin => ?_
  cases twin with
  | function twin => exact .pure twin
  | _ => exact .throw _

theorem getInstance (twins : VM.Twins pairing vm twinVm) (pair : pairing.pairs ptr twinPtr) :
    Finds (Instance.Twin pairing) (getInstance ptr) (Cpplox.getInstance twinPtr) vm twinVm := by
  refine (twins.getObject pair).bind fun _ _ twin => ?_
  cases twin with
  | instance_ twin => exact .pure twin
  | _ => exact .throw _

theorem getString (twins : VM.Twins pairing vm twinVm) (pair : pairing.pairs ptr twinPtr) :
    Finds Eq (getString ptr) (Cpplox.getString twinPtr) vm twinVm := by
  refine (twins.getObject pair).bind fun _ _ twin => ?_
  cases twin with
  | string chars => exact .pure rfl
  | _ => exact .throw _

theorem getNativeFn (twins : VM.Twins pairing vm twinVm) (pair : pairing.pairs ptr twinPtr) :
    Finds Eq (getNativeFn ptr) (Cpplox.getNativeFn twinPtr) vm twinVm := by
  refine (twins.getObject pair).bind fun _ _ twin => ?_
  cases twin with
  | nativeFn => exact .pure rfl
  | _ => exact .throw _

theorem getUpvalue (twins : VM.Twins pairing vm twinVm) (pair : pairing.pairs ptr twinPtr) :
    Finds (Upvalue.Twin pairing) (getUpvalue ptr) (Cpplox.getUpvalue twinPtr) vm twinVm := by
  refine (twins.getObject pair).bind fun _ _ twin => ?_
  cases twin with
  | upvalue twin => exact .pure twin
  | _ => exact .throw _

theorem peek (twins : VM.Twins pairing vm twinVm) (depth : Nat) :
    Finds (Value.Twin pairing) (peek depth) (Cpplox.peek depth) vm twinVm := by
  refine .get ?_
  rcases some_or_none (alike_getElem? twins.stack depth) with ⟨_, _, found, twinFound, twin⟩ |
    ⟨none, twinNone⟩
  · simp only [found, twinFound]
    exact .pure twin
  · simp only [none, twinNone]
    exact .throw _

theorem stackIndex (twins : VM.Twins pairing vm twinVm) (pair : pairing.pairs ptr twinPtr) :
    Finds Eq (stackIndex ptr) (Cpplox.stackIndex twinPtr) vm twinVm := by
  refine (twins.getUpvalue pair).bind fun _ _ twin => ?_
  cases twin with
  | open_ stackIndex => exact .pure rfl
  | closed => exact .throw _

theorem upvalueValue (twins : VM.Twins pairing vm twinVm) (pair : pairing.pairs ptr twinPtr) :
    Finds (Value.Twin pairing) (upvalueValue ptr) (Cpplox.upvalueValue twinPtr) vm twinVm := by
  refine (twins.getUpvalue pair).bind fun _ _ twin => .get ?_
  cases twin with
  | open_ stackIndex =>
      simp only [Upvalue.value?]
      rcases some_or_none (alike_slot? twins.stack stackIndex) with
        ⟨_, _, found, twinFound, twin⟩ | ⟨none, twinNone⟩
      · simp only [found, twinFound]
        exact .pure twin
      · simp only [none, twinNone]
        exact .throw _
  | closed twin => exact .pure twin

theorem functionText (twins : VM.Twins pairing vm twinVm) {function twinFunction : HeapFunction N}
    (twin : function.Twin pairing twinFunction) :
    Finds Eq (functionText function) (Cpplox.functionText twinFunction) vm twinVm := by
  refine (twins.getString twin.name).bind fun _ _ same => ?_
  subst same
  exact .pure rfl

theorem closureText (twins : VM.Twins pairing vm twinVm) (pair : pairing.pairs ptr twinPtr) :
    Finds Eq (closureText ptr) (Cpplox.closureText twinPtr) vm twinVm :=
  (twins.getClosure pair).bind fun _ _ made => (twins.getFunction made.function).bind fun _ _ twin =>
    twins.functionText twin

theorem className (twins : VM.Twins pairing vm twinVm) (pair : pairing.pairs ptr twinPtr)
    {before behind : Text} :
    Finds Eq
      (do let klass ← Cpplox.getClass ptr
          return before ++ (← Cpplox.getString klass.name) ++ behind)
      (do let klass ← Cpplox.getClass twinPtr
          return before ++ (← Cpplox.getString klass.name) ++ behind) vm twinVm := by
  refine (twins.getClass pair).bind fun _ _ twin => (twins.getString twin.name).bind fun _ _ same => ?_
  subst same
  exact .pure rfl

/-- Twins print the same. -/
theorem valueText [Number N] (twins : VM.Twins pairing vm twinVm)
    (twin : value.Twin pairing twinValue) :
    Finds Eq (valueText value) (Cpplox.valueText twinValue) vm twinVm := by
  cases twin with
  | nil => exact .pure rfl
  | bool value => cases value <;> exact .pure rfl
  | number value => exact .pure rfl
  | boundMethod pair =>
      exact (twins.getBoundMethod pair).bind fun _ _ twin =>
        twins.closureText twin.method
  | class_ pair => exact twins.className pair
  | closure pair => exact twins.closureText pair
  | function pair => exact (twins.getFunction pair).bind fun _ _ twin => twins.functionText twin
  | instance_ pair => exact (twins.getInstance pair).bind fun _ _ twin => twins.className twin.klass
  | nativeFn pair => exact .pure rfl
  | string pair => exact twins.getString pair

theorem throwAt {A B : Type} {values : A → B → Prop} {token twinToken : SourceMapToken Ptr}
    (twins : VM.Twins pairing vm twinVm) (twin : token.Twin pairing twinToken) (what : Text) :
    Finds values (throwAt token what) (Cpplox.throwAt twinToken what) vm twinVm := by
  refine (twins.getString twin.lexeme).bind fun _ _ same => ?_
  rw [same, twin.line]
  exact .throw _

theorem throwUndefined {A B : Type} {values : A → B → Prop} {token twinToken : SourceMapToken Ptr}
    (twins : VM.Twins pairing vm twinVm) (twin : token.Twin pairing twinToken) (kind : Text)
    (pair : pairing.pairs ptr twinPtr) :
    Finds values (throwUndefined token kind ptr)
      (Cpplox.throwUndefined twinToken kind twinPtr) vm twinVm := by
  refine (twins.getString pair).bind fun _ _ same => ?_
  rw [same, twin.line]
  exact .throw _

end VM.Twins

end Cpplox
