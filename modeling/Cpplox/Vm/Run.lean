import Cpplox.Vm.State

namespace Cpplox

open Data

/-! `VM::run`, one instruction a step. -/

/-- What one iteration of the loop refers to: the closure of the current frame, the base
of its locals, the chunk and the source map token of the instruction. -/
structure Activation (N : Type) where
  closure : Ptr
  stackBeginIndex : Nat
  chunk : Chunk (Value N) Ptr
  token : SourceMapToken Ptr

variable {N : Type}

/-- `[Line n] Error at "lexeme": what`. -/
def throwAt (token : SourceMapToken Ptr) (what : Text) : VmM N α := do
  let lexeme ← getString token.lexeme
  throw (.runtimeError (atLine token.line.toNat ++ " at \"".toList ++ lexeme ++ "\": ".toList ++ what))

/-- `[Line n] Error: Undefined kind "name".` -/
def throwUndefined (token : SourceMapToken Ptr) (kind : Text) (name : Ptr) : VmM N α := do
  let chars ← getString name
  throw (.runtimeError (atLine token.line.toNat ++ ": Undefined ".toList ++ kind ++ " \"".toList ++
    chars ++ "\".".toList))

def operandsMustBeNumbers : Text := "Operands must be numbers.".toList
def operandMustBeNumber : Text := "Operand must be a number.".toList
def operandsMustBeNumbersOrStrings : Text :=
  "Operands must be two numbers or two strings.".toList
def canOnlyCall : Text := "Can only call functions and classes.".toList
def onlyInstancesHaveFields : Text := "Only instances have fields.".toList
def superclassMustBeClass : Text := "Superclass must be a class.".toList

def expectedArguments (arity argCount : Nat) : Text :=
  "Expected ".toList ++ decimal arity ++ " arguments but got ".toList ++ decimal argCount ++
    ".".toList

/-- `constants[index]`. -/
def constantAt (chunk : Chunk (Value N) Ptr) (index : Nat) : VmM N (Value N) :=
  match chunk.constants[index]? with
  | some value => pure value
  | none => throw .undefined

/-- `std::get<GC_ptr<const std::string>>(constants[index])`. -/
def nameAt (chunk : Chunk (Value N) Ptr) (index : Nat) : VmM N Ptr := do
  match ← constantAt chunk index with
  | .string ptr => return ptr
  | _ => throw .badVariantAccess

def functionAt (chunk : Chunk (Value N) Ptr) (index : Nat) : VmM N Ptr := do
  match ← constantAt chunk index with
  | .function ptr => return ptr
  | _ => throw .badVariantAccess

/-- The binary operators on two numbers. -/
def binaryNumbers (operation : N → N → Value N) (token : SourceMapToken Ptr) : VmM N Unit := do
  let rhs ← peek 0
  let lhs ← peek 1
  match lhs, rhs with
  | .number left, .number right => do
      erase 2
      push (operation left right)
  | _, _ => throwAt token operandsMustBeNumbers

def add [Number N] (platform : Platform N) (token : SourceMapToken Ptr) : VmM N Unit := do
  let rhs ← peek 0
  let lhs ← peek 1
  match lhs, rhs with
  | .number left, .number right => do
      erase 2
      push (.number (Number.add left right))
  | .string left, .string right => do
      let chars := (← getString left) ++ (← getString right)
      erase 2
      push (.string (← intern platform chars))
  | _, _ => throwAt token operandsMustBeNumbersOrStrings

def equal [Number N] : VmM N Unit := do
  let rhs ← peek 0
  let lhs ← peek 1
  erase 2
  push (.bool (lhs.equal rhs))

def negate [Number N] (token : SourceMapToken Ptr) : VmM N Unit := do
  match ← peek 0 with
  | .number value => do
      erase 1
      push (.number (Number.negate value))
  | _ => throwAt token operandMustBeNumber

def not_ : VmM N Unit := do
  let value ← peek 0
  erase 1
  push (.bool (!value.isTruthy))

def print [Number N] : VmM N Unit := do
  let text ← valueText (← peek 0)
  modify fun vm => { vm with output := vm.output ++ [text] }
  erase 1

def defineGlobal (name : Ptr) : VmM N Unit := do
  let value ← peek 0
  modify fun vm => { vm with globals := assign vm.globals name value }
  erase 1

def getGlobal (token : SourceMapToken Ptr) (name : Ptr) : VmM N Unit := do
  match lookup (← get).globals name with
  | some value => push value
  | none => throwUndefined token "variable".toList name

def setGlobal (token : SourceMapToken Ptr) (name : Ptr) : VmM N Unit := do
  match lookup (← get).globals name with
  | some _ => do
      let value ← peek 0
      modify fun vm => { vm with globals := assign vm.globals name value }
  | none => throwUndefined token "variable".toList name

/-- `stack_[stack_begin_index + index]`, which is not checked. -/
def getLocal (index : Nat) : VmM N Unit := do
  match slot? (← get).stack index with
  | some value => push value
  | none => throw .undefined

/-- `stack_.at(stack_begin_index + index) = stack_.back()`. -/
def setLocal (index : Nat) : VmM N Unit := do
  let vm ← get
  let value ← peek 0
  if index < vm.stack.length then set { vm with stack := setSlot vm.stack index value }
  else throw .outOfRange

/-- `upvalues.at(index)`. -/
def upvalueAt (closure : Ptr) (index : Nat) : VmM N Ptr := do
  match (← getClosure closure).upvalues[index]? with
  | some upvalue => return upvalue
  | none => throw .outOfRange

def getUpvalueInstr (closure : Ptr) (index : Nat) : VmM N Unit := do
  push (← upvalueValue (← upvalueAt closure index))

def setUpvalueInstr (closure : Ptr) (index : Nat) : VmM N Unit := do
  let upvalue ← upvalueAt closure index
  setUpvalueValue upvalue (← peek 0)

def getProperty (platform : Platform N) (token : SourceMapToken Ptr) (name : Ptr) :
    VmM N Unit := do
  match ← peek 0 with
  | .instance_ ptr => do
      erase 1
      let inst ← getInstance ptr
      match lookup inst.fields name with
      | some field => push field
      | none => do
          match lookup (← getClass inst.klass).methods name with
          | some method => do
              push (.boundMethod (← make platform (.boundMethod { instance_ := ptr, method })))
          | none => throwUndefined token "property".toList name
  | _ => throwAt token onlyInstancesHaveFields

def setProperty (token : SourceMapToken Ptr) (name : Ptr) : VmM N Unit := do
  match ← peek 0 with
  | .instance_ ptr => do
      let inst ← getInstance ptr
      let value ← peek 1
      setObject ptr (.instance_ { inst with fields := assign inst.fields name value })
      erase 1
  | _ => throwAt token onlyInstancesHaveFields

def getSuper (platform : Platform N) (token : SourceMapToken Ptr) (name : Ptr) : VmM N Unit := do
  match ← peek 0, ← peek 1 with
  | .class_ superclass, .instance_ inst => do
      match lookup (← getClass superclass).methods name with
      | some method => do
          let bound ← make platform (.boundMethod { instance_ := inst, method })
          erase 2
          push (.boundMethod bound)
      | none => throwUndefined token "property".toList name
  | _, _ => throw .badVariantAccess

def inherit (token : SourceMapToken Ptr) : VmM N Unit := do
  match ← peek 0 with
  | .class_ parent => do
      match ← peek 1 with
      | .class_ child => do
          let parentClass ← getClass parent
          let childClass ← getClass child
          setObject child (.class_ { childClass with
            methods := insertAll childClass.methods parentClass.methods })
          push (.class_ child)
      | _ => throw .badVariantAccess
  | _ => throwAt token superclassMustBeClass

def method (name : Ptr) : VmM N Unit := do
  match ← peek 0, ← peek 1 with
  | .closure closure, .class_ klass => do
      let owner ← getClass klass
      setObject klass (.class_ { owner with methods := assign owner.methods name closure })
      erase 1
  | _, _ => throw .badVariantAccess

/-- The recursive call of `run`. -/
def pushFrame (closure : Ptr) (argCount : Nat) : VmM N Unit :=
  modify fun vm => { vm with
    callFrames := { closure, stackBeginIndex := vm.stack.length - argCount - 1 } :: vm.callFrames }

def arityOf (closure : Ptr) : VmM N Nat := do
  return (← getFunction (← getClosure closure).function).arity

def callClosure (token : SourceMapToken Ptr) (argCount : Nat) (closure : Ptr) : VmM N Unit := do
  let arity ← arityOf closure
  if arity = argCount then pushFrame closure argCount
  else throwAt token (expectedArguments arity argCount)

/-- The new instance takes the slot of the class, which is where an initializer finds
`this` and also where the result of the call belongs. -/
def callClass (platform : Platform N) (token : SourceMapToken Ptr) (argCount : Nat)
    (klass : Ptr) : VmM N Unit := do
  let initString ← intern platform initName
  match lookup (← getClass klass).methods initString with
  | some initializer => do
      let arity ← arityOf initializer
      if arity = argCount then do
        replace argCount (.instance_ (← make platform (.instance_ { klass })))
        pushFrame initializer argCount
      else throwAt token (expectedArguments arity argCount)
  | none =>
      if 0 = argCount then do
        replace argCount (.instance_ (← make platform (.instance_ { klass })))
      else throwAt token (expectedArguments 0 argCount)

def callBoundMethod (token : SourceMapToken Ptr) (argCount : Nat) (bound : BoundMethod) :
    VmM N Unit := do
  let arity ← arityOf bound.method
  if arity = argCount then do
    replace argCount (.instance_ bound.instance_)
    pushFrame bound.method argCount
  else throwAt token (expectedArguments arity argCount)

/-- `clock` is the only native function. -/
def callNative (platform : Platform N) (argCount : Nat) : VmM N Unit := do
  let vm ← get
  set { vm with nClock := vm.nClock + 1 }
  erase (argCount + 1)
  push (.number (platform.clock vm.nClock))

def call (platform : Platform N) (token : SourceMapToken Ptr) (argCount : Nat) : VmM N Unit := do
  match ← peek argCount with
  | .closure closure => callClosure token argCount closure
  | .class_ klass => callClass platform token argCount klass
  | .boundMethod ptr => do callBoundMethod token argCount (← getBoundMethod ptr)
  | .nativeFn ptr => do
      getNativeFn ptr
      callNative platform argCount
  | _ => throwAt token canOnlyCall

/-- The search among the open upvalues; a closed one in front of the match throws. -/
def findOpenUpvalue (index : Nat) : List Ptr → VmM N (Option Ptr)
  | [] => return none
  | upvalue :: rest => do
      if (← stackIndex upvalue) = index then return some upvalue
      else findOpenUpvalue index rest

/-- Inserts in front of the first open upvalue with a greater index. -/
def insertOpenUpvalue (index : Nat) (new : Ptr) : List Ptr → VmM N (List Ptr)
  | [] => return [new]
  | upvalue :: rest => do
      if (← stackIndex upvalue) > index then return new :: upvalue :: rest
      else return upvalue :: (← insertOpenUpvalue index new rest)

def addUpvalue (closure upvalue : Ptr) : VmM N Unit := do
  let made ← getClosure closure
  setObject closure (.closure { made with upvalues := made.upvalues ++ [upvalue] })

/-- One iteration of the loop over the captures of a new closure. -/
def capture (platform : Platform N) (activation : Activation N) (newClosure : Ptr) :
    TrackedUpvalue → VmM N Unit
  | .upvalueIndex index => do
      let index := activation.stackBeginIndex + index
      let enclosing ← getClosure activation.closure
      match ← findOpenUpvalue index enclosing.openUpvalues with
      | some upvalue => addUpvalue newClosure upvalue
      | none => do
          let upvalue ← make platform (.upvalue (.open_ index))
          addUpvalue newClosure upvalue
          let openUpvalues ← insertOpenUpvalue index upvalue enclosing.openUpvalues
          setObject activation.closure (.closure { enclosing with openUpvalues })
  | .upUpvalueIndex index => do
      match (← getClosure activation.closure).upvalues[index]? with
      | some upvalue => addUpvalue newClosure upvalue
      | none => throw .undefined

def captureAll (platform : Platform N) (activation : Activation N) (newClosure : Ptr) :
    List TrackedUpvalue → VmM N Unit
  | [] => return ()
  | upvalue :: rest => do
      capture platform activation newClosure upvalue
      captureAll platform activation newClosure rest

def closure (platform : Platform N) (activation : Activation N) (constant : Nat)
    (captures : List TrackedUpvalue) : VmM N Unit := do
  let function ← functionAt activation.chunk constant
  let newClosure ← make platform (.closure { function })
  push (.closure newClosure)
  captureAll platform activation newClosure captures

/-- The local may never have been captured at run time, so the latest open upvalue is
closed only if it refers to the top of the stack. -/
def closeUpvalueInstr (activation : Activation N) : VmM N Unit := do
  let closure ← getClosure activation.closure
  match closure.openUpvalues.getLast? with
  | none => erase 1
  | some upvalue => do
      if (← stackIndex upvalue) + 1 = (← get).stack.length then do
        closeUpvalue upvalue
        setObject activation.closure
          (.closure { closure with openUpvalues := closure.openUpvalues.dropLast })
        erase 1
      else erase 1

def closeAll : List Ptr → VmM N Unit
  | [] => return ()
  | upvalue :: rest => do
      closeUpvalue upvalue
      closeAll rest

def return_ (activation : Activation N) : VmM N Unit := do
  closeAll (← getClosure activation.closure).openUpvalues
  let result ← peek 0
  let vm ← get
  if activation.stackBeginIndex < vm.stack.length then
    set { vm with
      stack := result :: vm.stack.drop (vm.stack.length - activation.stackBeginIndex)
      callFrames := vm.callFrames.tail }
  else throw .undefined

/-- Moves the iterator of the current activation. -/
def moveTo (target : Nat → Option Nat) : VmM N Unit := do
  let vm ← get
  match vm.callFrames with
  | [] => return ()
  | frame :: callers =>
      match target frame.bytecodeIndex with
      | some bytecodeIndex => set { vm with callFrames := { frame with bytecodeIndex } :: callers }
      | none => throw .undefined

def jumpForward (distance index : Nat) : Option Nat := some (index + distance)

def jumpBackward (distance index : Nat) : Option Nat :=
  if distance ≤ index then some (index - distance) else none

def jump (opcode : Opcode) (distance : Nat) : VmM N Unit :=
  match opcode with
  | .jump => moveTo (jumpForward distance)
  | .jumpIfFalse => do
      if (← peek 0).isTruthy then return () else moveTo (jumpForward distance)
  | .loop => moveTo (jumpBackward distance)
  | _ => throw .undefined

def opcodeText (byte : Nat) : VmM N Text :=
  match Opcode.ofByte? byte with
  | some .invoke => return "INVOKE".toList
  | some .superInvoke => return "SUPER_INVOKE".toList
  -- printing the opcode throws `std::logic_error`; no chunk has such a byte
  | _ => throw .undefined

def unexpectedOpcode (token : SourceMapToken Ptr) (byte : Nat) : VmM N Unit := do
  let opcode ← opcodeText byte
  let lexeme ← getString token.lexeme
  throw (.runtimeError (atLine token.line.toNat ++ ": Unexpected opcode ".toList ++ opcode ++
    ", generated from source \"".toList ++ lexeme ++ "\".".toList))

variable [Number N]

def executeSimple (platform : Platform N) (activation : Activation N) : Opcode → VmM N Unit
  | .nil => push .nil
  | .true_ => push (.bool true)
  | .false_ => push (.bool false)
  | .pop => erase 1
  | .equal => equal
  | .greater => binaryNumbers (fun left right => .bool (Number.greater left right)) activation.token
  | .less => binaryNumbers (fun left right => .bool (Number.less left right)) activation.token
  | .add => add platform activation.token
  | .subtract =>
      binaryNumbers (fun left right => .number (Number.subtract left right)) activation.token
  | .multiply =>
      binaryNumbers (fun left right => .number (Number.multiply left right)) activation.token
  | .divide => binaryNumbers (fun left right => .number (Number.divide left right)) activation.token
  | .not_ => not_
  | .negate => negate activation.token
  | .print => print
  | .closeUpvalue => closeUpvalueInstr activation
  | .return_ => return_ activation
  | .inherit => inherit activation.token
  | _ => throw .undefined

def executeOperand (platform : Platform N) (activation : Activation N) (index : Nat) :
    Opcode → VmM N Unit
  | .constant => do push (← constantAt activation.chunk index)
  | .getLocal => getLocal (activation.stackBeginIndex + index)
  | .setLocal => setLocal (activation.stackBeginIndex + index)
  | .getGlobal => do getGlobal activation.token (← nameAt activation.chunk index)
  | .defineGlobal => do defineGlobal (← nameAt activation.chunk index)
  | .setGlobal => do setGlobal activation.token (← nameAt activation.chunk index)
  | .getUpvalue => getUpvalueInstr activation.closure index
  | .setUpvalue => setUpvalueInstr activation.closure index
  | .getProperty => do getProperty platform activation.token (← nameAt activation.chunk index)
  | .setProperty => do setProperty activation.token (← nameAt activation.chunk index)
  | .getSuper => do getSuper platform activation.token (← nameAt activation.chunk index)
  | .call => call platform activation.token index
  | .class_ => do
      let name ← nameAt activation.chunk index
      push (.class_ (← make platform (.class_ { name })))
  | .method => do method (← nameAt activation.chunk index)
  | _ => throw .undefined

/-- The `switch` over the opcode. -/
def execute (platform : Platform N) (activation : Activation N) : Instr → VmM N Unit
  | .simple opcode => executeSimple platform activation opcode
  | .operand opcode index => executeOperand platform activation index opcode
  | .jump opcode distance => jump opcode distance
  | .closure constant captures => closure platform activation constant captures
  | .unexpected byte => unexpectedOpcode activation.token byte

/-- One iteration of the loop in the innermost `run`, without the collection at its end.
Where the bytecode ends, that `run` returns. -/
def step (platform : Platform N) : VmM N Unit := do
  let vm ← get
  match vm.callFrames with
  | [] => return ()
  | frame :: callers => do
      let function ← getFunction (← getClosure frame.closure).function
      let chunk := function.chunk
      if frame.bytecodeIndex = chunk.bytecode.length then set { vm with callFrames := callers }
      else
        match decode (chunk.bytecode.drop frame.bytecodeIndex),
            chunk.sourceMapTokens[frame.bytecodeIndex]? with
        | some (instr, size), some token => do
            let advanced := { frame with bytecodeIndex := frame.bytecodeIndex + size }
            set { vm with callFrames := advanced :: callers }
            execute platform
              { closure := frame.closure, stackBeginIndex := frame.stackBeginIndex, chunk, token } instr
        | _, _ => throw .undefined

/-- What the callback in `VM::VM` marks. -/
def VM.roots (vm : VM N) : List Ptr :=
  vm.callFrames.reverse.map (·.closure) ++ vm.stack.reverse.flatMap Value.refs ++
    vm.globals.flatMap fun (key, value) => key :: value.refs

/-- `gc_heap_.collect_garbage()` on the heap of this machine.  Tracing an open upvalue
whose slot is gone throws. -/
def collect (platform : Platform N) : VmM N Unit := do
  let vm ← get
  let marked := GcHeap.markPhase (Object.traceRefs vm.stack) [vm.roots] vm.gcHeap
  if marked.allPtrs.any fun block => block.marked && block.value.isDangling vm.stack then
    throw .outOfRange
  else
    let (gcHeap, internedStrings) := GcHeap.collectGarbage (Object.traceRefs vm.stack)
      platform.controlBlockSize [vm.roots] [InternedStrings.onDestroy] (fun _ strings => strings)
      vm.gcHeap vm.internedStrings
    set { vm with gcHeap, internedStrings }

/-- `run(GC_ptr<Function>)` up to the loop. -/
def start (platform : Platform N) (function : Ptr) : VmM N Unit := do
  let closure ← make platform (.closure { function })
  modify fun vm => { vm with
    callFrames := { closure, stackBeginIndex := 0 } :: vm.callFrames }

/-- `VM::VM`: the only global is `clock`. -/
def construct (platform : Platform N) : VmM N Unit := do
  let name ← intern platform "clock".toList
  let nativeFn ← make platform .nativeFn
  modify fun vm => { vm with globals := assign vm.globals name (.nativeFn nativeFn) }

end Cpplox
