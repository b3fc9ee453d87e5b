import Cpplox.Bytecode.Decoding
import Cpplox.Bytecode.Disassembly

namespace Cpplox

/-! Sequences of the operations that emit into a chunk. -/

/-- The opcodes that each `emit` template is instantiated for. -/
def plainOpcodes : List Opcode :=
  [.add, .closeUpvalue, .divide, .equal, .false_, .greater, .inherit, .less, .multiply, .negate,
    .nil, .not_, .pop, .print, .return_, .subtract, .true_]

def nameOpcodes : List Opcode :=
  [.class_, .defineGlobal, .getGlobal, .getProperty, .getSuper, .method, .setGlobal, .setProperty]

def indexOpcodes : List Opcode := [.getLocal, .getUpvalue, .setLocal, .setUpvalue]

/-- A public operation.  A backpatch is named by the number of jumps emitted before its own. -/
inductive Operation (K L F : Type) where
  | emit (opcode : { opcode : Opcode // opcode ∈ plainOpcodes }) (token : SourceMapToken L)
  | emitName (opcode : { opcode : Opcode // opcode ∈ nameOpcodes }) (identifierName : L)
      (token : SourceMapToken L)
  | emitIndex (opcode : { opcode : Opcode // opcode ∈ indexOpcodes }) (index : Nat)
      (token : SourceMapToken L)
  | emitCall (argCount : Nat) (token : SourceMapToken L)
  | emitClosure (function : F) (trackedUpvalues : List TrackedUpvalue)
      (token : SourceMapToken L)
  | emitConstant (value : K) (token : SourceMapToken L)
  | emitJump (token : SourceMapToken L)
  | emitJumpIfFalse (token : SourceMapToken L)
  | toNextOpcode (jump : Nat)
  | emitLoop (loopBeginBytecodeIndex : Nat) (token : SourceMapToken L)

/-- A chunk and the `jump_begin_index_` of every backpatch made for it. -/
structure Emitter (K L : Type) where
  chunk : Chunk K L := {}
  backpatches : List Nat := []

namespace Operation

variable {K L F : Type}

/-- The bytes it emits. -/
def size : Operation K L F → Nat
  | emit _ _ => 1
  | emitName _ _ _ | emitIndex _ _ _ | emitCall _ _ | emitConstant _ _ => 2
  | emitClosure _ trackedUpvalues _ => 3 + 2 * trackedUpvalues.length
  | emitJump _ | emitJumpIfFalse _ | emitLoop _ _ => 3
  | toNextOpcode _ => 0

def token? : Operation K L F → Option (SourceMapToken L)
  | emit _ token | emitName _ _ token | emitIndex _ _ token | emitCall _ token
  | emitClosure _ _ token | emitConstant _ token | emitJump token | emitJumpIfFalse token
  | emitLoop _ token => some token
  | toNextOpcode _ => none

def isJump : Operation K L F → Bool
  | emitJump _ | emitJumpIfFalse _ => true
  | _ => false

variable [Constants K L F]

def run (emitter : Emitter K L) : Operation K L F → Except Error (Emitter K L)
  | emit opcode token => .ok { emitter with chunk := emitter.chunk.emit opcode token }
  | emitName opcode name token => do
      return { emitter with chunk := ← emitter.chunk.emitName opcode name token }
  | emitIndex opcode index token => do
      return { emitter with chunk := ← emitter.chunk.emitIndex opcode index token }
  | emitCall argCount token => do
      return { emitter with chunk := ← emitter.chunk.emitCall argCount token }
  | emitClosure function captures token => do
      return { emitter with chunk := ← emitter.chunk.emitClosure function captures token }
  | emitConstant value token => do
      return { emitter with chunk := ← emitter.chunk.emitConstant value token }
  | emitJump token =>
      let (chunk, backpatch) := emitter.chunk.emitJump .jump token
      .ok ⟨chunk, emitter.backpatches ++ [backpatch]⟩
  | emitJumpIfFalse token =>
      let (chunk, backpatch) := emitter.chunk.emitJump .jumpIfFalse token
      .ok ⟨chunk, emitter.backpatches ++ [backpatch]⟩
  | toNextOpcode jump =>
      match emitter.backpatches[jump]? with
      | some jumpBeginIndex => do
          return { emitter with chunk := ← emitter.chunk.toNextOpcode jumpBeginIndex }
      | none => .ok emitter
  | emitLoop begins token => do
      return { emitter with chunk := ← emitter.chunk.emitLoop begins token }

def runAll (emitter : Emitter K L) : List (Operation K L F) → Except Error (Emitter K L)
  | [] => .ok emitter
  | operation :: rest => do runAll (← operation.run emitter) rest

end Operation

section

variable {K L F : Type}

def extentOf (operations : List (Operation K L F)) : Nat := (operations.map Operation.size).sum

def jumpsOf (operations : List (Operation K L F)) : Nat := operations.countP Operation.isJump

/-- An operation that can follow: a backpatch is used once, and a loop goes to the beginning
of an instruction. -/
def Operation.Follows (earlier : List (Operation K L F)) : Operation K L F → Prop
  | .toNextOpcode jump => jump < jumpsOf earlier ∧ .toNextOpcode jump ∉ earlier
  | .emitLoop begins _ => ∃ before after, earlier = before ++ after ∧ extentOf before = begins
  | _ => True

/-- Every operation can follow those before it. -/
inductive InOrder : List (Operation K L F) → Prop where
  | nil : InOrder []
  | snoc {operations : List (Operation K L F)} {operation : Operation K L F} : InOrder operations →
      operation.Follows operations → InOrder (operations ++ [operation])

/-- Where the chunk ended when a jump was patched. -/
def landing : List (Operation K L F) → Nat → Option Nat
  | [], _ => none
  | .toNextOpcode patched :: rest, jump =>
      if patched = jump then some 0 else landing rest jump
  | operation :: rest, jump => (landing rest jump).map (operation.size + ·)

/-- The constant is the value given, or one that compares equal. -/
def Denotes [Constants K L F] (constant value : K) : Prop :=
  constant = value ∨ Constants.equal constant value = true

/-- The instruction that an operation emits at an offset, after a number of jumps. -/
inductive Realizes [Constants K L F] (landings : Nat → Option Nat) (constants : List K)
    (offset jumps : Nat) : Operation K L F → Instr → Prop where
  | emit {opcode : { opcode : Opcode // opcode ∈ plainOpcodes }} {token : SourceMapToken L} :
      Realizes landings constants offset jumps (.emit opcode token) (.simple opcode)
  | emitName {opcode : { opcode : Opcode // opcode ∈ nameOpcodes }} {name : L}
      {token : SourceMapToken L} {index : Nat} {constant : K} :
      constants[index]? = some constant → Denotes constant (Constants.string name) →
      Realizes landings constants offset jumps (.emitName opcode name token) (.operand opcode index)
  | emitIndex {opcode : { opcode : Opcode // opcode ∈ indexOpcodes }} {index : Nat}
      {token : SourceMapToken L} :
      Realizes landings constants offset jumps (.emitIndex opcode index token)
        (.operand opcode index)
  | emitCall {argCount : Nat} {token : SourceMapToken L} :
      Realizes landings constants offset jumps (.emitCall argCount token) (.operand .call argCount)
  | emitClosure {function : F} {captures : List TrackedUpvalue} {token : SourceMapToken L}
      {index : Nat} {constant : K} :
      constants[index]? = some constant → Denotes constant (Constants.function function) →
      Realizes landings constants offset jumps (.emitClosure function captures token)
        (.closure index captures)
  | emitConstant {value : K} {token : SourceMapToken L} {index : Nat}
      {constant : K} :
      constants[index]? = some constant → Denotes constant value →
      Realizes landings constants offset jumps (.emitConstant value token)
        (.operand .constant index)
  /-- An unpatched jump keeps the dummy bytes. -/
  | emitJump {token : SourceMapToken L} {distance : Nat} :
      (∀ target, landings jumps = some target → offset + 3 + distance = target) →
      (landings jumps = none → distance = 0) →
      Realizes landings constants offset jumps (.emitJump token) (.jump .jump distance)
  | emitJumpIfFalse {token : SourceMapToken L} {distance : Nat} :
      (∀ target, landings jumps = some target → offset + 3 + distance = target) →
      (landings jumps = none → distance = 0) →
      Realizes landings constants offset jumps (.emitJumpIfFalse token) (.jump .jumpIfFalse distance)
  | emitLoop {begins distance : Nat} {token : SourceMapToken L} :
      begins + distance = offset + 3 →
      Realizes landings constants offset jumps (.emitLoop begins token) (.jump .loop distance)

/-- The instructions of a sequence, in its order; a patch is none. -/
inductive Realized [Constants K L F] (landings : Nat → Option Nat) (constants : List K) :
    Nat → Nat → List (Operation K L F) → List (Nat × Instr) → Prop where
  | nil {offset jumps : Nat} : Realized landings constants offset jumps [] []
  | patch {offset jumps jump : Nat} {rest : List (Operation K L F)} {instrs : List (Nat × Instr)} :
      Realized landings constants offset jumps rest instrs →
      Realized landings constants offset jumps (.toNextOpcode jump :: rest) instrs
  | instr {offset jumps : Nat} {operation : Operation K L F} {instr : Instr}
      {rest : List (Operation K L F)} {instrs : List (Nat × Instr)} :
      Realizes landings constants offset jumps operation instr →
      Realized landings constants (offset + operation.size)
        (jumps + if operation.isJump then 1 else 0) rest instrs →
      Realized landings constants offset jumps (operation :: rest) ((offset, instr) :: instrs)

/-- One entry for each byte, with the token given. -/
def tokensGiven (operations : List (Operation K L F)) : List (SourceMapToken L) :=
  operations.flatMap fun operation =>
    match operation.token? with
    | some token => List.replicate operation.size token
    | none => []

/-- `jump_begin_index_` of the jumps of a sequence that begins at an offset. -/
def backpatchesOf : Nat → List (Operation K L F) → List Nat
  | _, [] => []
  | offset, operation :: rest =>
      (if operation.isJump then [offset + 3] else []) ++ backpatchesOf (offset + operation.size) rest

end

end Cpplox
