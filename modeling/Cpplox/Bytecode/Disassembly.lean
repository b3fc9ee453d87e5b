import Cpplox.Instruction

namespace Cpplox

/-! The disassembler: the listing that `operator<<` prints of a chunk's bytecode. -/

def padLeft (width : Nat) (fill : Char) (text : Text) : Text :=
  List.replicate (width - text.length) fill ++ text

def padRight (width : Nat) (fill : Char) (text : Text) : Text :=
  text ++ List.replicate (width - text.length) fill

def hexadecimal (value : Nat) : Text := Nat.toDigits 16 value

/-- A byte as `std::setw(2) << std::setfill('0') << std::setbase(16)` prints it. -/
def hexByte (byte : Nat) : Text := padLeft 2 '0' (hexadecimal byte)

def signedDecimal : Int → Text
  | .ofNat value => decimal value
  | .negSucc value => '-' :: decimal (value + 1)

/-- Names print as uppercase without trailing underscores. -/
def Opcode.text : Opcode → Text
  | .constant => "CONSTANT".toList
  | .nil => "NIL".toList
  | .true_ => "TRUE".toList
  | .false_ => "FALSE".toList
  | .pop => "POP".toList
  | .getLocal => "GET_LOCAL".toList
  | .setLocal => "SET_LOCAL".toList
  | .getGlobal => "GET_GLOBAL".toList
  | .defineGlobal => "DEFINE_GLOBAL".toList
  | .setGlobal => "SET_GLOBAL".toList
  | .getUpvalue => "GET_UPVALUE".toList
  | .setUpvalue => "SET_UPVALUE".toList
  | .getProperty => "GET_PROPERTY".toList
  | .setProperty => "SET_PROPERTY".toList
  | .getSuper => "GET_SUPER".toList
  | .equal => "EQUAL".toList
  | .greater => "GREATER".toList
  | .less => "LESS".toList
  | .add => "ADD".toList
  | .subtract => "SUBTRACT".toList
  | .multiply => "MULTIPLY".toList
  | .divide => "DIVIDE".toList
  | .not_ => "NOT".toList
  | .negate => "NEGATE".toList
  | .print => "PRINT".toList
  | .jump => "JUMP".toList
  | .jumpIfFalse => "JUMP_IF_FALSE".toList
  | .loop => "LOOP".toList
  | .call => "CALL".toList
  | .invoke => "INVOKE".toList
  | .superInvoke => "SUPER_INVOKE".toList
  | .closure => "CLOSURE".toList
  | .closeUpvalue => "CLOSE_UPVALUE".toList
  | .return_ => "RETURN".toList
  | .class_ => "CLASS".toList
  | .inherit => "INHERIT".toList
  | .method => "METHOD".toList

/-- What the disassembler makes of one instruction: what it takes it for, the lines it
prints, and the bytes behind it. -/
structure Disassembled where
  instr : Instr
  lines : List Text
  rest : List Nat

/-- The loop over the captures of a closure: every one prints a line of its own. -/
def listCaptures : Nat → List Nat → Option (List TrackedUpvalue × List Text × List Nat)
  | 0, rest => some ([], [], rest)
  | count + 1, isDirectCapture :: enclosingIndex :: rest => do
      let (captures, lines, rest) ← listCaptures count rest
      let capture : TrackedUpvalue :=
        if isDirectCapture = 0 then .upUpvalueIndex enclosingIndex else .upvalueIndex enclosingIndex
      let line := List.replicate 11 ' ' ++ hexByte isDirectCapture ++ " ".toList ++
        hexByte enclosingIndex ++ " | ".toList ++
        (if isDirectCapture = 0 then "^^".toList else "^".toList) ++ " [".toList ++
        hexadecimal enclosingIndex ++ "]".toList
      return (capture :: captures, line :: lines, rest)
  | _ + 1, _ => none

/-- One instruction at an index; `none` when the opcode is unexpected or an operand would
be read past the end. -/
def listInstr (index : Nat) : List Nat → Option Disassembled
  | [] => none
  | byte :: rest => do
      let opcode ← Opcode.ofByte? byte
      let begins := padLeft 5 ' ' (decimal index) ++ " : ".toList ++ hexByte byte ++ " ".toList
      match opcode with
      | .add | .closeUpvalue | .divide | .equal | .false_ | .greater | .inherit | .less | .multiply
      | .negate | .nil | .not_ | .pop | .print | .return_ | .subtract | .true_ =>
          return ⟨.simple opcode, [begins ++ List.replicate 6 ' ' ++ opcode.text], rest⟩
      | .call =>
          match rest with
          | argCount :: rest =>
              return ⟨.operand opcode argCount, [begins ++ hexByte argCount ++ "    ".toList ++
                opcode.text ++ " (".toList ++ decimal argCount ++ ")".toList], rest⟩
          | [] => none
      | .class_ | .constant | .defineGlobal | .getGlobal | .getLocal | .getProperty | .getSuper
      | .getUpvalue | .method | .setGlobal | .setLocal | .setProperty | .setUpvalue =>
          match rest with
          | lookupIndex :: rest =>
              return ⟨.operand opcode lookupIndex, [begins ++ hexByte lookupIndex ++ "    ".toList ++
                opcode.text ++ " [".toList ++ decimal lookupIndex ++ "]".toList], rest⟩
          | [] => none
      | .closure =>
          match rest with
          | fnConstantIndex :: trackedUpvalues :: rest => do
              let (captures, lines, rest) ← listCaptures trackedUpvalues rest
              let line := begins ++ hexByte fnConstantIndex ++ " ".toList ++
                hexByte trackedUpvalues ++ " ".toList ++ opcode.text ++ " [".toList ++
                decimal fnConstantIndex ++ "] (".toList ++ decimal trackedUpvalues ++ ")".toList
              return ⟨.closure fnConstantIndex captures, line :: lines, rest⟩
          | _ => none
      | .jump | .jumpIfFalse | .loop =>
          match rest with
          | high :: low :: rest =>
              let jumpDistance := 256 * high + low
              let jumpTarget : Int := index + 3 + jumpDistance * (if opcode = .loop then -1 else 1)
              return ⟨.jump opcode jumpDistance, [begins ++ hexByte high ++ " ".toList ++
                hexByte low ++ " ".toList ++ opcode.text ++ " ".toList ++
                (if opcode = .loop then "-".toList else "+".toList) ++ decimal jumpDistance ++
                " -> ".toList ++ signedDecimal jumpTarget], rest⟩
          | _ => none
      | .invoke | .superInvoke => none

/-- The loop over the bytecode: the instructions with their offsets, and what is printed.
Every instruction takes a byte at least, so the length is fuel enough.  `text` reads a lexeme. -/
def listBytecode {L : Type} (text : L → Text) (tokens : List (SourceMapToken L)) :
    Nat → Nat → List Nat → Option (List (Nat × Instr) × List Text)
  | _, _, [] => some ([], [])
  | 0, _, _ :: _ => none
  | fuel + 1, index, bytes => do
      let token ← tokens[index]?
      let listed ← listInstr index bytes
      let printed := listed.lines.map fun line => padRight 40 ' ' line ++ " ; ".toList ++
        text token.lexeme ++ " @ ".toList ++ decimal token.line.toNat
      let (instrs, lines) ← listBytecode text tokens fuel (index + (bytes.length - listed.rest.length))
        listed.rest
      return ((index, listed.instr) :: instrs, printed ++ lines)

def Chunk.disassemble {K L : Type} (text : L → Text) (chunk : Chunk K L) :
    Option (List (Nat × Instr) × List Text) :=
  listBytecode text chunk.sourceMapTokens chunk.bytecode.length 0 chunk.bytecode

theorem listCaptures_decode {count : Nat} {bytes : List Nat} {captures : List TrackedUpvalue}
    (decoded : decodeCaptures count bytes = some captures) :
    ∃ lines, listCaptures count bytes = some (captures, lines, bytes.drop (2 * count)) := by
  fun_induction decodeCaptures count bytes generalizing captures with
  | case1 bytes =>
      cases decoded
      exact ⟨[], rfl⟩
  | case2 count isDirectCapture enclosingIndex rest ih =>
      obtain ⟨later, inner, rfl⟩ := Option.map_eq_some_iff.mp decoded
      obtain ⟨lines, listed⟩ := ih inner
      exact ⟨_, by simp only [listCaptures, listed]; rfl⟩
  | case3 => cases decoded

theorem decodeCaptures_length {count : Nat} {bytes : List Nat} {captures : List TrackedUpvalue}
    (decoded : decodeCaptures count bytes = some captures) : 2 * count ≤ bytes.length := by
  fun_induction decodeCaptures count bytes generalizing captures with
  | case1 => simp
  | case2 count isDirectCapture enclosingIndex rest ih =>
      obtain ⟨later, inner, -⟩ := Option.map_eq_some_iff.mp decoded
      have shorter := ih inner
      simp only [List.length_cons]
      omega
  | case3 => cases decoded

/-- An instruction takes a byte at least, and none past the end. -/
theorem decode_size {bytes : List Nat} {instr : Instr} {size : Nat}
    (decoded : decode bytes = some (instr, size)) : 0 < size ∧ size ≤ bytes.length := by
  unfold decode at decoded
  split at decoded
  next => cases decoded
  next byte rest =>
      split at decoded
      next => cases decoded; simp
      next opcode _ =>
          split at decoded
          next => cases decoded; simp
          next => cases decoded; simp
          next => cases decoded; simp
          next constant count rest _ =>
              obtain ⟨captures, inner, same⟩ := Option.map_eq_some_iff.mp decoded
              have behind := decodeCaptures_length inner
              cases same
              simp only [List.length_cons]
              omega
          next => cases decoded; simp
          next => cases decoded

theorem listInstr_decode {bytes : List Nat} {instr : Instr} {size : Nat}
    (decoded : decode bytes = some (instr, size)) (fits : instr.Fits) (index : Nat) :
    ∃ lines, listInstr index bytes = some ⟨instr, lines, bytes.drop size⟩ := by
  cases bytes with
  | nil => cases decoded
  | cons byte rest =>
      simp only [decode] at decoded
      cases known : Opcode.ofByte? byte with
      | none =>
          rw [known] at decoded
          cases decoded
          exact fits.elim
      | some opcode =>
          simp only [known] at decoded
          simp only [listInstr, known, Option.bind_eq_bind, Option.bind_some]
          cases shape : opcode.shape with
          | simple =>
              simp only [shape] at decoded
              cases decoded
              cases opcode <;> first | exact ⟨_, rfl⟩ | cases shape
          | operand =>
              cases rest with
              | nil => simp only [shape] at decoded; cases decoded
              | cons operand rest =>
                  simp only [shape] at decoded
                  cases decoded
                  cases opcode <;> first | exact ⟨_, rfl⟩ | cases shape
          | jump =>
              rcases rest with _ | ⟨high, _ | ⟨low, rest⟩⟩
              · simp only [shape] at decoded; cases decoded
              · simp only [shape] at decoded; cases decoded
              · simp only [shape] at decoded
                cases decoded
                cases opcode <;> first | exact ⟨_, rfl⟩ | cases shape
          | closure =>
              rcases rest with _ | ⟨constant, _ | ⟨count, rest⟩⟩
              · simp only [shape] at decoded; cases decoded
              · simp only [shape] at decoded; cases decoded
              · simp only [shape] at decoded
                obtain ⟨captures, inner, same⟩ := Option.map_eq_some_iff.mp decoded
                obtain ⟨lines, listed⟩ := listCaptures_decode inner
                cases same
                have isClosure : opcode = .closure := by cases opcode <;> first | rfl | cases shape
                subst isClosure
                have behind : (byte :: constant :: count :: rest).drop (3 + 2 * count) =
                    rest.drop (2 * count) := by
                  rw [show 3 + 2 * count = 2 * count + 1 + 1 + 1 by omega]
                  rfl
                rw [behind]
                exact ⟨_, by simp only [listed]; rfl⟩
          | unhandled =>
              simp only [shape] at decoded
              cases decoded
              exact fits.elim

end Cpplox
