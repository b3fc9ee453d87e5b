import Cpplox.Scanner

namespace Cpplox

/-! Bytecode chunks and the operations that emit into them.

A chunk is generic in its constants and in the lexemes of its source map.  While
compiling, constants and lexemes hold string contents, since strings are interned;
on the heap they hold pointers. -/

/-- C++ `double` and the operations the program uses on it. -/
class Number (N : Type) where
  add : N → N → N
  subtract : N → N → N
  multiply : N → N → N
  divide : N → N → N
  negate : N → N
  less : N → N → Bool
  greater : N → N → Bool
  equal : N → N → Bool
  lexicalCast : Text → N
  print : N → Text
  /-- Literals are neither NaN nor a signed zero, so two that compare equal are
  the same double. -/
  lexicalCast_equal : ∀ left right : Text,
    equal (lexicalCast left) (lexicalCast right) = true → lexicalCast left = lexicalCast right

inductive Opcode where
  | constant | nil | true_ | false_ | pop
  | getLocal | setLocal | getGlobal | defineGlobal | setGlobal
  | getUpvalue | setUpvalue | getProperty | setProperty | getSuper
  | equal | greater | less | add | subtract | multiply | divide | not_ | negate
  | print | jump | jumpIfFalse | loop | call | invoke | superInvoke | closure
  | closeUpvalue | return_ | class_ | inherit | method
deriving DecidableEq, Repr

/-- The opcodes in the order of `MOTTS_LOX_OPCODE_NAMES`, which fixes their bytes. -/
def Opcode.all : List Opcode :=
  [.constant, .nil, .true_, .false_, .pop,
   .getLocal, .setLocal, .getGlobal, .defineGlobal, .setGlobal,
   .getUpvalue, .setUpvalue, .getProperty, .setProperty, .getSuper,
   .equal, .greater, .less, .add, .subtract, .multiply, .divide, .not_, .negate,
   .print, .jump, .jumpIfFalse, .loop, .call, .invoke, .superInvoke, .closure,
   .closeUpvalue, .return_, .class_, .inherit, .method]

def Opcode.toByte (opcode : Opcode) : Nat := Opcode.all.idxOf opcode

def Opcode.ofByte? (byte : Nat) : Option Opcode := Opcode.all[byte]?

@[simp] theorem Opcode.ofByte?_toByte (opcode : Opcode) :
    Opcode.ofByte? opcode.toByte = some opcode := by
  cases opcode <;> rfl

structure SourceMapToken (L : Type) where
  lexeme : L
  line : UInt32
deriving DecidableEq, Repr

/-- `Upvalue_index` refers to a local of the enclosing function, `UpUpvalue_index`
to an upvalue of it. -/
inductive TrackedUpvalue where
  | upvalueIndex (enclosingLocalsIndex : Nat)
  | upUpvalueIndex (enclosingUpvaluesIndex : Nat)
deriving DecidableEq, Repr

/-- A constant while compiling.  A function is named by its position among the
functions made so far. -/
inductive Constant (N : Type) where
  | number (value : N)
  | string (chars : Text)
  | function (index : Nat)
deriving Repr

/-- `==` of the variant: the same alternative with equal contents. -/
def Constant.equal [Number N] : Constant N → Constant N → Bool
  | .number left, .number right => Number.equal left right
  | .string left, .string right => left = right
  | .function left, .function right => left = right
  | _, _ => false

/-- What the constants of a chunk are: `==` of the variant, and the alternatives that names
and functions become. -/
class Constants (K : Type) (L F : outParam Type) where
  equal : K → K → Bool
  string : L → K
  function : F → K

instance {N : Type} [Number N] : Constants (Constant N) Text Nat where
  equal := Constant.equal
  string := .string
  function := .function

section

variable {N : Type} [Number N]

@[simp] theorem Constants.equal_constant (left right : Constant N) :
    Constants.equal left right = left.equal right := rfl

@[simp] theorem Constants.string_constant (chars : Text) :
    (Constants.string chars : Constant N) = .string chars := rfl

@[simp] theorem Constants.function_constant (index : Nat) :
    (Constants.function index : Constant N) = .function index := rfl

end

structure Chunk (K L : Type) where
  bytecode : List Nat := []
  constants : List K := []
  sourceMapTokens : List (SourceMapToken L) := []

/-- `gsl::narrow<std::uint8_t>`. -/
def narrowByte (value : Nat) : Except Error Nat :=
  if value < 256 then .ok value else .error .narrowingError

/-- `gsl::narrow<std::uint16_t>`. -/
def narrowShort (value : Nat) : Except Error Nat :=
  if value < 65536 then .ok value else .error .narrowingError

/-- `insert_constant` on the constants alone: the index of an equal constant, or a
new one at the end. -/
def insertConstant {K L F : Type} [Constants K L F] (constants : List K) (value : K) : Nat × List K :=
  match constants.findIdx? (Constants.equal · value) with
  | some index => (index, constants)
  | none => (constants.length, constants ++ [value])

theorem insertConstant_found {K L F : Type} [Constants K L F] (constants : List K) (value : K) :
    ∃ found, (insertConstant constants value).2[(insertConstant constants value).1]? = some found ∧
      (found = value ∨ Constants.equal found value = true) := by
  unfold insertConstant
  split
  next index search =>
      obtain ⟨bound, same, -⟩ := List.findIdx?_eq_some_iff_getElem.mp search
      exact ⟨_, List.getElem?_eq_getElem bound, .inr same⟩
  next => exact ⟨value, by simp, .inl rfl⟩

theorem insertConstant_longer {K L F : Type} [Constants K L F] (constants : List K) (value : K) :
    constants <+: (insertConstant constants value).2 := by
  unfold insertConstant
  split
  · exact List.prefix_rfl
  · exact List.prefix_append _ _

namespace Chunk

abbrev Compiled (N : Type) := Chunk (Constant N) Text

variable {K L F : Type}

def emitByte (chunk : Chunk K L) (byte : Nat) (token : SourceMapToken L) : Chunk K L :=
  { chunk with
    bytecode := chunk.bytecode ++ [byte]
    sourceMapTokens := chunk.sourceMapTokens ++ [token] }

/-- The single-byte opcodes. -/
def emit (chunk : Chunk K L) (opcode : Opcode) (token : SourceMapToken L) : Chunk K L :=
  chunk.emitByte opcode.toByte token

/-- The opcodes that take a constant. -/
def emitWithConstant [Constants K L F] (chunk : Chunk K L) (opcode : Opcode) (value : K)
    (token : SourceMapToken L) : Except Error (Chunk K L) := do
  let (constantIndex, constants) := insertConstant chunk.constants value
  let chunk := { chunk with constants }.emitByte opcode.toByte token
  return chunk.emitByte (← narrowByte constantIndex) token

/-- The opcodes that name a string constant. -/
def emitName [Constants K L F] (chunk : Chunk K L) (opcode : Opcode) (identifierName : L)
    (token : SourceMapToken L) : Except Error (Chunk K L) :=
  chunk.emitWithConstant opcode (Constants.string identifierName) token

/-- The opcodes of locals and upvalues. -/
def emitIndex (chunk : Chunk K L) (opcode : Opcode) (index : Nat)
    (token : SourceMapToken L) : Except Error (Chunk K L) := do
  let chunk := chunk.emitByte opcode.toByte token
  return chunk.emitByte (← narrowByte index) token

def emitCall (chunk : Chunk K L) (argCount : Nat) (token : SourceMapToken L) :
    Except Error (Chunk K L) :=
  chunk.emitIndex .call argCount token

def emitTrackedUpvalues (chunk : Chunk K L) (trackedUpvalues : List TrackedUpvalue)
    (token : SourceMapToken L) : Except Error (Chunk K L) :=
  match trackedUpvalues with
  | [] => .ok chunk
  | .upvalueIndex index :: rest => do
      let chunk := chunk.emitByte 1 token
      (chunk.emitByte (← narrowByte index) token).emitTrackedUpvalues rest token
  | .upUpvalueIndex index :: rest => do
      let chunk := chunk.emitByte 0 token
      (chunk.emitByte (← narrowByte index) token).emitTrackedUpvalues rest token

def emitClosure [Constants K L F] (chunk : Chunk K L) (function : F)
    (trackedUpvalues : List TrackedUpvalue) (token : SourceMapToken L) :
    Except Error (Chunk K L) := do
  let (constantIndex, constants) := insertConstant chunk.constants (Constants.function function)
  let chunk := { chunk with constants }.emitByte Opcode.closure.toByte token
  let chunk := chunk.emitByte (← narrowByte constantIndex) token
  let chunk := chunk.emitByte (← narrowByte trackedUpvalues.length) token
  chunk.emitTrackedUpvalues trackedUpvalues token

def emitConstant [Constants K L F] (chunk : Chunk K L) (value : K)
    (token : SourceMapToken L) : Except Error (Chunk K L) :=
  chunk.emitWithConstant .constant value token

/-- `emit_jump` and `emit_jump_if_false` leave two dummy bytes; the backpatch they
return remembers the end of the bytecode. -/
def emitJump (chunk : Chunk K L) (opcode : Opcode) (token : SourceMapToken L) :
    Chunk K L × Nat :=
  let chunk := ((chunk.emitByte opcode.toByte token).emitByte 0 token).emitByte 0 token
  (chunk, chunk.bytecode.length)

/-- `Jump_backpatch::to_next_opcode`: the two dummy bytes become the distance, big
endian. -/
def toNextOpcode (chunk : Chunk K L) (jumpBeginIndex : Nat) : Except Error (Chunk K L) := do
  let jumpDistance ← narrowShort (chunk.bytecode.length - jumpBeginIndex)
  return { chunk with
    bytecode := (chunk.bytecode.set (jumpBeginIndex - 2) (jumpDistance / 256)).set
      (jumpBeginIndex - 1) (jumpDistance % 256) }

def emitLoop (chunk : Chunk K L) (loopBeginBytecodeIndex : Nat)
    (token : SourceMapToken L) : Except Error (Chunk K L) := do
  let chunk := ((chunk.emitByte Opcode.loop.toByte token).emitByte 0 token).emitByte 0 token
  let jumpDistance ← narrowShort (chunk.bytecode.length - loopBeginBytecodeIndex)
  let length := chunk.bytecode.length
  return { chunk with
    bytecode := (chunk.bytecode.set (length - 2) (jumpDistance / 256)).set
      (length - 1) (jumpDistance % 256) }

end Chunk

end Cpplox
