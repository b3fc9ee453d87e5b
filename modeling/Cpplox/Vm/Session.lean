import Cpplox.Compiler.Compile
import Cpplox.Vm.Effect

namespace Cpplox

open Data

/-! Sessions: one machine runs one compiled source after the other. -/

variable {N : Type}

/-- A function refers to functions made before it. -/
def loadConstant (platform : Platform N) (made : List Ptr) : Constant N → VmM N (Value N)
  | .number value => return .number value
  | .string chars => do return .string (← intern platform chars)
  | .function index =>
      match made[index]? with
      | some ptr => return .function ptr
      | none => throw .undefined

def loadConstants (platform : Platform N) (made : List Ptr) :
    List (Constant N) → VmM N (List (Value N))
  | [] => return []
  | constant :: rest => do
      let value ← loadConstant platform made constant
      return value :: (← loadConstants platform made rest)

def loadTokens (platform : Platform N) :
    List (SourceMapToken Text) → VmM N (List (SourceMapToken Ptr))
  | [] => return []
  | token :: rest => do
      let lexeme ← intern platform token.lexeme
      return { lexeme, line := token.line } :: (← loadTokens platform rest)

def loadFunction (platform : Platform N) (made : List Ptr)
    (function : Function (Constant N) Text) : VmM N Ptr := do
  let name ← intern platform function.name
  let constants ← loadConstants platform made function.chunk.constants
  let sourceMapTokens ← loadTokens platform function.chunk.sourceMapTokens
  make platform (.function
    { name, arity := function.arity
      chunk := { bytecode := function.chunk.bytecode, constants, sourceMapTokens } })

/-- The function objects of a source, in the order they are made. -/
def loadAll (platform : Platform N) (made : List Ptr) :
    List (Function (Constant N) Text) → VmM N (List Ptr)
  | [] => return made
  | function :: rest => do
      let ptr ← loadFunction platform made function
      loadAll platform (made ++ [ptr]) rest

structure Fetched (N : Type) where
  instr : Instr
  size : Nat
  activation : Activation N

namespace VM

def fetchFrom (vm : VM N) (frame : Frame) : Option (Fetched N) :=
  match vm.gcHeap.valueAt frame.closure with
  | some (.closure closure) =>
      match vm.gcHeap.valueAt closure.function with
      | some (.function function) =>
          match decode (function.chunk.bytecode.drop frame.bytecodeIndex),
              function.chunk.sourceMapTokens[frame.bytecodeIndex]? with
          | some (instr, size), some token =>
              some { instr, size, activation :=
                { closure := frame.closure, stackBeginIndex := frame.stackBeginIndex
                  chunk := function.chunk, token } }
          | _, _ => none
      | _ => none
  | _ => none

/-- The instruction the next iteration executes. -/
def fetch? (vm : VM N) : Option (Fetched N) := vm.callFrames.head?.bind vm.fetchFrom

/-- The iterator is moved over an instruction before the instruction is executed. -/
def advanced (vm : VM N) (frame : Frame) (callers : List Frame) (size : Nat) : VM N :=
  { vm with
    callFrames := { frame with bytecodeIndex := frame.bytecodeIndex + size } :: callers }

/-- The closure of a frame, and the function it is of. -/
structure Runs (vm : VM N) (frame : Frame) (closure : Closure) (function : HeapFunction N) :
    Prop where
  live : vm.gcHeap.valueAt frame.closure = some (.closure closure)
  code : vm.gcHeap.valueAt closure.function = some (.function function)

/-- What is fetched in a frame. -/
structure Fetches (vm : VM N) (frame : Frame) (closure : Closure) (function : HeapFunction N)
    (fetched : Fetched N) : Prop where
  runs : vm.Runs frame closure function
  decodes : decode (function.chunk.bytecode.drop frame.bytecodeIndex) =
    some (fetched.instr, fetched.size)
  token : function.chunk.sourceMapTokens[frame.bytecodeIndex]? = some fetched.activation.token
  activation : fetched.activation =
    { closure := frame.closure, stackBeginIndex := frame.stackBeginIndex
      chunk := function.chunk, token := fetched.activation.token }

variable {vm : VM N} {frame : Frame} {callers : List Frame} {fetched : Fetched N}

theorem fetchFrom_some : vm.fetchFrom frame = some fetched ↔
    ∃ closure function, vm.Fetches frame closure function fetched := by
  unfold fetchFrom
  constructor
  · intro found
    split at found
    next closure isClosure =>
        split at found
        next function isFunction =>
            split at found
            next instr size token decodes atIndex =>
                cases found
                exact ⟨closure, function, ⟨isClosure, isFunction⟩, decodes, atIndex, rfl⟩
            next => cases found
        next => cases found
    next => cases found
  · rintro ⟨closure, function, ⟨isClosure, isFunction⟩, decodes, atIndex, same⟩
    simp only [isClosure, isFunction, decodes, atIndex]
    rw [← same]

theorem fetch?_cons (frames : vm.callFrames = frame :: callers) :
    vm.fetch? = vm.fetchFrom frame := by
  rw [fetch?, frames]
  rfl

end VM

variable [Number N]

/-- What happens between two instructions.  An exception other than a `runtime_error` is
not caught: it ends the session. -/
inductive Between (platform : Platform N) : VM N → VM N → Prop
  /-- The scanner interns what it reads. -/
  | scan {vm after : VM N} {chars : Text} {ptr : Ptr} : vm.callFrames = [] →
      intern platform chars vm = .ok ptr after → Between platform vm after
  /-- A source is refused when some of its functions are made. -/
  | refuse {vm after : VM N} {functions : List (Function (Constant N) Text)} {made : List Ptr} :
      vm.callFrames = [] → loadAll platform [] functions vm = .ok made after →
      Between platform vm after
  /-- A source is compiled, and its root script starts. -/
  | run {vm loaded after : VM N} {fuel : Nat} {source : Text} {made : List Ptr} {root : Ptr}
      {functions : List (Function (Constant N) Text)} : vm.callFrames = [] →
      compile fuel source = .ok functions →
      loadAll platform [] functions vm = .ok (made ++ [root]) loaded →
      start platform root loaded = .ok () after → Between platform vm after
  | collect {vm after : VM N} : vm.callFrames ≠ [] → collect platform vm = .ok () after →
      Between platform vm after
  /-- Every activation of `run` pops its frame when an exception leaves it. -/
  | throw {vm after : VM N} {what : Text} : step platform vm = .error (.runtimeError what) after →
      Between platform vm { after with callFrames := [] }

/-- What a session reaches from a new machine, and what `observe` makes of the states in
which an instruction was executed. -/
inductive Attains (platform : Platform N) {H : Type} (observe : VM N → H → H) (nothing : H) :
    VM N → H → Prop
  | construct {vm : VM N} : construct platform {} = .ok () vm →
      Attains platform observe nothing vm nothing
  | step {vm after : VM N} {observed : H} : Attains platform observe nothing vm observed →
      step platform vm = .ok () after → Attains platform observe nothing after (observe vm observed)
  | between {vm after : VM N} {observed : H} : Attains platform observe nothing vm observed →
      Between platform vm after → Attains platform observe nothing after observed

variable {platform : Platform N} {vm after : VM N} {result : Unit}

/-- An iteration either finds no frame, or ends the innermost activation at the end of
its bytecode, or executes what was fetched. -/
theorem step_ok (steps : step platform vm = .ok result after) :
    (vm.callFrames = [] ∧ after = vm) ∨
    ∃ frame callers closure function, vm.callFrames = frame :: callers ∧
      vm.Runs frame closure function ∧
      (frame.bytecodeIndex = function.chunk.bytecode.length ∧
          after = { vm with callFrames := callers } ∨
        ∃ fetched, vm.Fetches frame closure function fetched ∧
          Effect platform fetched.activation (vm.advanced frame callers fetched.size)
            fetched.instr after) := by
  have steps := get_bind steps
  cases frames : vm.callFrames with
  | nil =>
      rw [frames] at steps
      exact .inl ⟨rfl, (VmM.pure_ok.mp steps).2⟩
  | cons frame callers =>
      rw [frames] at steps
      obtain ⟨closure, reads, steps⟩ := (reads_getClosure _).bind_ok steps
      obtain ⟨function, laterReads, steps⟩ := (reads_getFunction _).bind_ok steps
      have runs : vm.Runs frame closure function :=
        ⟨(getClosure_ok.mp reads).2, (getFunction_ok.mp laterReads).2⟩
      refine .inr ⟨frame, callers, closure, function, rfl, runs, ?_⟩
      dsimp only at steps
      split at steps
      next atEnd => exact .inl ⟨atEnd, VmM.set_ok.mp steps⟩
      next =>
          cases decodes : decode (function.chunk.bytecode.drop frame.bytecodeIndex) with
          | none =>
              rw [decodes] at steps
              exact (VmM.throw_ok.mp steps).elim
          | some found =>
              cases atIndex : function.chunk.sourceMapTokens[frame.bytecodeIndex]? with
              | none =>
                  rw [decodes, atIndex] at steps
                  exact (VmM.throw_ok.mp steps).elim
              | some token =>
                  rw [decodes, atIndex] at steps
                  obtain ⟨done, middle, sets, executes⟩ := VmM.bind_ok.mp steps
                  obtain rfl := VmM.set_ok.mp sets
                  exact .inr ⟨⟨found.1, found.2, frame.closure, frame.stackBeginIndex,
                    function.chunk, token⟩, ⟨runs, decodes, atIndex, rfl⟩, execute_effect rfl executes⟩

end Cpplox
