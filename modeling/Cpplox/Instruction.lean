import Cpplox.Chunk

namespace Cpplox

/-! Whole instructions: what the virtual machine reads at an offset. -/

inductive Opcode.Shape where
  | simple
  | operand
  | jump
  | closure
  | unhandled
deriving DecidableEq, Repr

/-- How many operand bytes `VM::run` reads after an opcode; `invoke` and
`super_invoke` have no case there. -/
def Opcode.shape : Opcode → Opcode.Shape
  | .nil | .true_ | .false_ | .pop | .equal | .greater | .less | .add | .subtract | .multiply
  | .divide | .not_ | .negate | .print | .closeUpvalue | .return_ | .inherit => .simple
  | .constant | .getLocal | .setLocal | .getGlobal | .defineGlobal | .setGlobal | .getUpvalue
  | .setUpvalue | .getProperty | .setProperty | .getSuper | .call | .class_ | .method => .operand
  | .jump | .jumpIfFalse | .loop => .jump
  | .closure => .closure
  | .invoke | .superInvoke => .unhandled

inductive Instr where
  | simple (opcode : Opcode)
  | operand (opcode : Opcode) (index : Nat)
  | jump (opcode : Opcode) (distance : Nat)
  | closure (constant : Nat) (captures : List TrackedUpvalue)
  | unexpected (byte : Nat)
deriving DecidableEq, Repr

namespace Instr

def encodeCapture : TrackedUpvalue → List Nat
  | .upvalueIndex index => [1, index]
  | .upUpvalueIndex index => [0, index]

def encode : Instr → List Nat
  | simple opcode => [opcode.toByte]
  | operand opcode index => [opcode.toByte, index]
  | jump opcode distance => [opcode.toByte, distance / 256, distance % 256]
  | closure constant captures =>
      Opcode.closure.toByte :: constant :: captures.length :: captures.flatMap encodeCapture
  | unexpected byte => [byte]

def size (instr : Instr) : Nat := instr.encode.length

@[simp] theorem size_simple (opcode : Opcode) : (simple opcode).size = 1 := rfl
@[simp] theorem size_operand (opcode : Opcode) (index : Nat) : (operand opcode index).size = 2 := rfl
@[simp] theorem size_jump (opcode : Opcode) (distance : Nat) : (jump opcode distance).size = 3 := rfl

theorem size_pos (instr : Instr) : 0 < instr.size := by
  cases instr <;> simp [size, encode]

end Instr

/-- The pairs after a closure's count: a nonzero byte means a direct capture. -/
def decodeCaptures : Nat → List Nat → Option (List TrackedUpvalue)
  | 0, _ => some []
  | count + 1, isDirectCapture :: enclosingIndex :: rest =>
      (decodeCaptures count rest).map fun captures =>
        (if isDirectCapture = 0 then .upUpvalueIndex enclosingIndex
          else .upvalueIndex enclosingIndex) :: captures
  | _ + 1, _ => none

/-- The instruction at the beginning of `bytes`, and its length; `none` when an operand
would be read past the end. -/
def decode (bytes : List Nat) : Option (Instr × Nat) :=
  match bytes with
  | [] => none
  | byte :: rest =>
      match Opcode.ofByte? byte with
      | none => some (.unexpected byte, 1)
      | some opcode =>
          match opcode.shape, rest with
          | .simple, _ => some (.simple opcode, 1)
          | .operand, index :: _ => some (.operand opcode index, 2)
          | .jump, high :: low :: _ => some (.jump opcode (256 * high + low), 3)
          | .closure, constant :: count :: rest =>
              (decodeCaptures count rest).map fun captures =>
                (.closure constant captures, 3 + 2 * count)
          | .unhandled, _ => some (.unexpected byte, 1)
          | _, _ => none

/-- The index in the enclosing function. -/
def TrackedUpvalue.index : TrackedUpvalue → Nat
  | .upvalueIndex index => index
  | .upUpvalueIndex index => index

namespace Instr

/-- The opcode takes these operands, and the operands fit their bytes. -/
def Fits : Instr → Prop
  | simple opcode => opcode.shape = .simple
  | operand opcode index => opcode.shape = .operand ∧ index < 256
  | jump opcode distance => opcode.shape = .jump ∧ distance < 65536
  | closure constant captures => constant < 256 ∧ captures.length < 256 ∧
      ∀ capture ∈ captures, capture.index < 256
  | unexpected _ => False

instance : (instr : Instr) → Decidable instr.Fits
  | simple opcode => inferInstanceAs (Decidable (opcode.shape = .simple))
  | operand opcode index => inferInstanceAs (Decidable (opcode.shape = .operand ∧ index < 256))
  | jump opcode distance => inferInstanceAs (Decidable (opcode.shape = .jump ∧ distance < 65536))
  | closure constant captures => inferInstanceAs (Decidable (constant < 256 ∧
      captures.length < 256 ∧ ∀ capture ∈ captures, capture.index < 256))
  | unexpected _ => inferInstanceAs (Decidable False)

end Instr

theorem decodeCaptures_encode (captures : List TrackedUpvalue) (rest : List Nat) :
    decodeCaptures captures.length (captures.flatMap Instr.encodeCapture ++ rest) = some captures := by
  induction captures with
  | nil => rfl
  | cons capture captures ih =>
      cases capture <;> simp [Instr.encodeCapture, decodeCaptures, ih]

theorem length_encodeCaptures (captures : List TrackedUpvalue) :
    (captures.flatMap Instr.encodeCapture).length = 2 * captures.length := by
  induction captures with
  | nil => rfl
  | cons capture captures ih =>
      cases capture <;> simp [Instr.encodeCapture, ih] <;> omega

@[simp] theorem Instr.size_closure (constant : Nat) (captures : List TrackedUpvalue) :
    (Instr.closure constant captures).size = 3 + 2 * captures.length := by
  simp only [Instr.size, Instr.encode, List.length_cons, length_encodeCaptures]
  omega

/-- Decoding is the inverse of encoding. -/
theorem decode_encode {instr : Instr} (fits : instr.Fits) (rest : List Nat) :
    decode (instr.encode ++ rest) = some (instr, instr.size) := by
  cases instr with
  | simple opcode => simp only [Instr.Fits] at fits; simp [Instr.encode, decode, fits]
  | operand opcode index => simp only [Instr.Fits] at fits; simp [Instr.encode, decode, fits.1]
  | jump opcode distance =>
      simp only [Instr.Fits] at fits
      have joined : 256 * (distance / 256) + distance % 256 = distance := Nat.div_add_mod distance 256
      simp [Instr.encode, decode, fits.1, joined]
  | closure constant captures =>
      have shape : Opcode.closure.shape = .closure := rfl
      simp only [Instr.encode, decode, List.cons_append, Opcode.ofByte?_toByte, shape,
        decodeCaptures_encode, Option.map_some, Instr.size_closure]
  | unexpected byte => exact fits.elim

end Cpplox
