import Cpplox.Object
import Cpplox.Instruction

namespace Cpplox

open Data

/-! The state of the virtual machine and its elementary operations. -/

/-- What leaves `VM::run` as an exception.  `undefined` stands for behaviour C++ leaves
undefined: a read outside the stack, the bytecode or a vector, or a dangling pointer. -/
inductive VmError where
  | runtimeError (what : Text)
  | badVariantAccess
  | outOfRange
  | undefined
deriving DecidableEq, Repr

/-- One activation of `run`: its closure in `call_frames_`, and its own variables. -/
structure Frame where
  closure : Ptr
  bytecodeIndex : Nat := 0
  stackBeginIndex : Nat
deriving DecidableEq, Repr

/-- The stack and the call frames are kept back first.  `output` is what was printed,
one entry for each `print`; `nMade` counts allocations and `nClock` clock readings. -/
structure VM (N : Type) where
  gcHeap : GcHeap (Object N) := {}
  internedStrings : InternedStrings := {}
  stack : List (Value N) := []
  callFrames : List Frame := []
  globals : List (Ptr × Value N) := []
  output : List Text := []
  nMade : Nat := 0
  nClock : Nat := 0

/-- The state survives a thrown exception. -/
abbrev VmM (N : Type) := EStateM VmError (VM N)

variable {N : Type}

def getObject (ptr : Ptr) : VmM N (Object N) := do
  match (← get).gcHeap.valueAt ptr with
  | some object => return object
  | none => throw .undefined

def getBoundMethod (ptr : Ptr) : VmM N BoundMethod := do
  match ← getObject ptr with
  | .boundMethod bound => return bound
  | _ => throw .undefined

def getClass (ptr : Ptr) : VmM N Class := do
  match ← getObject ptr with
  | .class_ klass => return klass
  | _ => throw .undefined

def getClosure (ptr : Ptr) : VmM N Closure := do
  match ← getObject ptr with
  | .closure closure => return closure
  | _ => throw .undefined

def getFunction (ptr : Ptr) : VmM N (HeapFunction N) := do
  match ← getObject ptr with
  | .function function => return function
  | _ => throw .undefined

def getInstance (ptr : Ptr) : VmM N (Instance N) := do
  match ← getObject ptr with
  | .instance_ inst => return inst
  | _ => throw .undefined

def getString (ptr : Ptr) : VmM N Text := do
  match ← getObject ptr with
  | .string chars => return chars
  | _ => throw .undefined

def getNativeFn (ptr : Ptr) : VmM N Unit := do
  match ← getObject ptr with
  | .nativeFn => return ()
  | _ => throw .undefined

def getUpvalue (ptr : Ptr) : VmM N (Upvalue N) := do
  match ← getObject ptr with
  | .upvalue upvalue => return upvalue
  | _ => throw .undefined

/-- Writes through a pointer. -/
def setObject (ptr : Ptr) (object : Object N) : VmM N Unit :=
  modify fun vm => { vm with gcHeap := vm.gcHeap.update ptr object }

def make (platform : Platform N) (object : Object N) : VmM N Ptr := do
  let vm ← get
  let ptr := platform.allocate vm.nMade (vm.gcHeap.allPtrs.map (·.ptr))
  set { vm with
    gcHeap := vm.gcHeap.make platform.controlBlockSize ptr object
    nMade := vm.nMade + 1 }
  return ptr

/-- `Interned_strings::get`. -/
def intern (platform : Platform N) (chars : Text) : VmM N Ptr := do
  match lookup (← get).internedStrings.stringsByChars chars with
  | some ptr => return ptr
  | none => do
      let ptr ← make platform (.string chars)
      modify fun vm => { vm with internedStrings :=
        { stringsByChars := assign vm.internedStrings.stringsByChars chars ptr
          stringsByPtr := assign vm.internedStrings.stringsByPtr ptr ptr } }
      return ptr

/-- `*(stack_.cend() - 1 - depth)`. -/
def peek (depth : Nat) : VmM N (Value N) := do
  match (← get).stack[depth]? with
  | some value => return value
  | none => throw .undefined

def push (value : Value N) : VmM N Unit :=
  modify fun vm => { vm with stack := value :: vm.stack }

/-- Erases the top `count` values. -/
def erase (count : Nat) : VmM N Unit := do
  let vm ← get
  if count ≤ vm.stack.length then set { vm with stack := vm.stack.drop count }
  else throw .undefined

/-- Overwrites the value at a distance from the top. -/
def replace (depth : Nat) (value : Value N) : VmM N Unit :=
  modify fun vm => { vm with stack := vm.stack.set depth value }

/-- `Upvalue::stack_index`. -/
def stackIndex (ptr : Ptr) : VmM N Nat := do
  match ← getUpvalue ptr with
  | .open_ index => return index
  | .closed _ => throw .badVariantAccess

/-- `Upvalue::value`. -/
def upvalueValue (ptr : Ptr) : VmM N (Value N) := do
  match (← getUpvalue ptr).value? (← get).stack with
  | some value => return value
  | none => throw .outOfRange

/-- Assignment to the reference `Upvalue::value` returns. -/
def setUpvalueValue (ptr : Ptr) (value : Value N) : VmM N Unit := do
  match ← getUpvalue ptr with
  | .closed _ => setObject ptr (.upvalue (.closed value))
  | .open_ index => do
      let vm ← get
      if index < vm.stack.length then set { vm with stack := setSlot vm.stack index value }
      else throw .outOfRange

/-- `Upvalue::close`. -/
def closeUpvalue (ptr : Ptr) : VmM N Unit := do
  setObject ptr (.upvalue (.closed (← upvalueValue ptr)))

def functionText (function : HeapFunction N) : VmM N Text := do
  let name ← getString function.name
  return "<fn ".toList ++ (if name.isEmpty then "(anonymous)".toList else name) ++ ">".toList

def closureText (ptr : Ptr) : VmM N Text := do
  functionText (← getFunction (← getClosure ptr).function)

/-- `operator<<` of a value. -/
def valueText [Number N] : Value N → VmM N Text
  | .nil => return "nil".toList
  | .bool true => return "true".toList
  | .bool false => return "false".toList
  | .number value => return Number.print value
  | .boundMethod ptr => do closureText (← getBoundMethod ptr).method
  | .class_ ptr => do
      return "<class ".toList ++ (← getString (← getClass ptr).name) ++ ">".toList
  | .closure ptr => closureText ptr
  | .function ptr => do functionText (← getFunction ptr)
  | .instance_ ptr => do
      let klass ← getClass (← getInstance ptr).klass
      return "<instance ".toList ++ (← getString klass.name) ++ ">".toList
  | .nativeFn _ => return "<native fn>".toList
  | .string ptr => getString ptr

end Cpplox
