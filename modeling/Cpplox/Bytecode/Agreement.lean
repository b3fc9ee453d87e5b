import Cpplox.Ast.Emits
import Cpplox.Bytecode.Operations
import Cpplox.Integers
import Cpplox.Object
import Mathlib.Data.List.Induction

namespace Cpplox

/-! What a sequence of operations emits is read back as that sequence. -/

section

variable {K L F : Type} {operations earlier : List (Operation K L F)} {operation : Operation K L F} {jump : Nat}

theorem extentOf_append (left right : List (Operation K L F)) :
    extentOf (left ++ right) = extentOf left + extentOf right := by
  simp [extentOf]

theorem jumpsOf_cons (operation : Operation K L F) (rest : List (Operation K L F)) :
    jumpsOf (operation :: rest) = (if operation.isJump then 1 else 0) + jumpsOf rest := by
  rw [jumpsOf, List.countP_cons, Nat.add_comm]
  rfl

theorem jumpsOf_snoc (operations : List (Operation K L F)) (operation : Operation K L F) :
    jumpsOf (operations ++ [operation]) =
      jumpsOf operations + if operation.isJump then 1 else 0 := by
  simp [jumpsOf, List.countP_append, List.countP_cons]

theorem tokensGiven_append (left right : List (Operation K L F)) :
    tokensGiven (left ++ right) = tokensGiven left ++ tokensGiven right := by
  simp [tokensGiven]

theorem length_tokensGiven (operations : List (Operation K L F)) :
    (tokensGiven operations).length = extentOf operations := by
  induction operations with
  | nil => rfl
  | cons operation rest ih =>
      have split : tokensGiven (operation :: rest) = tokensGiven [operation] ++ tokensGiven rest :=
        tokensGiven_append [operation] rest
      rw [split, List.length_append, ih]
      cases operation <;> simp [tokensGiven, extentOf, Operation.token?, Operation.size]

theorem backpatchesOf_append (offset : Nat) (left right : List (Operation K L F)) :
    backpatchesOf offset (left ++ right) =
      backpatchesOf offset left ++ backpatchesOf (offset + extentOf left) right := by
  induction left generalizing offset with
  | nil => simp [backpatchesOf, extentOf]
  | cons operation rest ih => simp [backpatchesOf, ih, extentOf, Nat.add_assoc]

theorem landing_cons (rest : List (Operation K L F)) (other : operation ≠ .toNextOpcode jump) :
    landing (operation :: rest) jump = (landing rest jump).map (operation.size + ·) := by
  cases operation with
  | toNextOpcode patched =>
      have different : patched ≠ jump := fun same => other (by rw [same])
      simp [landing, different, Operation.size]
  | _ => rfl

theorem landing_append (rest : List (Operation K L F)) (absent : .toNextOpcode jump ∉ earlier) :
    landing (earlier ++ rest) jump = (landing rest jump).map (extentOf earlier + ·) := by
  induction earlier with
  | nil => simp [extentOf]
  | cons operation others ih =>
      have different : operation ≠ .toNextOpcode jump := fun same => absent (by simp [same])
      rw [List.cons_append, landing_cons _ different,
        ih fun member => absent (List.mem_cons_of_mem _ member), Option.map_map]
      congr 1
      funext landed
      simp [extentOf, Nat.add_assoc]

theorem landing_none (absent : .toNextOpcode jump ∉ operations) : landing operations jump = none := by
  simpa [landing] using landing_append [] absent

theorem landing_snoc (other : operation ≠ .toNextOpcode jump) :
    landing (operations ++ [operation]) jump = landing operations jump := by
  induction operations with
  | nil => simp [landing_cons [] other, landing]
  | cons head rest ih =>
      by_cases patches : head = .toNextOpcode jump
      · simp [patches, landing]
      · rw [List.cons_append, landing_cons _ patches, landing_cons _ patches, ih]

theorem inOrder_snoc (inOrder : InOrder (operations ++ [operation])) :
    InOrder operations ∧ operation.Follows operations := by
  generalize same : operations ++ [operation] = all at inOrder
  cases inOrder with
  | nil => simp at same
  | snoc before follows =>
      obtain ⟨rfl, last⟩ := List.append_inj' same rfl
      cases last
      exact ⟨before, follows⟩

/-- A sequence is in order when every operation can follow those in front of it. -/
theorem inOrder_of_take
    (follows : ∀ place, ∀ operation : Operation K L F, operations[place]? = some operation →
      operation.Follows (operations.take place)) : InOrder operations := by
  induction operations using List.reverseRecOn with
  | nil => exact .nil
  | append_singleton rest last ih =>
      refine .snoc (ih fun place operation found => ?_) ?_
      · have inside := (List.getElem?_eq_some_iff.mp found).1
        have here := follows place operation (by rw [List.getElem?_append_left inside, found])
        rwa [List.take_append_of_le_length (Nat.le_of_lt inside)] at here
      · simpa using follows rest.length last (by simp)

theorem InOrder.patched_lt (inOrder : InOrder operations) (member : .toNextOpcode jump ∈ operations) :
    jump < jumpsOf operations := by
  induction inOrder with
  | nil => cases member
  | @snoc operations operation _ follows ih =>
      rw [jumpsOf_snoc]
      rcases List.mem_append.mp member with before | last
      · exact Nat.lt_of_lt_of_le (ih before) (Nat.le_add_right _ _)
      · obtain rfl := List.mem_singleton.mp last
        exact Nat.lt_of_lt_of_le follows.1 (Nat.le_add_right _ _)

end

section

variable {K L F : Type} [Constants K L F] {landings later : Nat → Option Nat} {constants more : List K}
  {offset jumps : Nat} {operation : Operation K L F} {instr : Instr} {operations : List (Operation K L F)}
  {instrs : List (Nat × Instr)}

theorem Realizes.size (realizes : Realizes landings constants offset jumps operation instr) :
    instr.size = operation.size := by
  cases realizes <;> simp [Operation.size]

theorem Realizes.mono (realizes : Realizes landings constants offset jumps operation instr)
    (same : operation.isJump = true → later jumps = landings jumps) (longer : constants <+: more) :
    Realizes later more offset jumps operation instr := by
  have kept {index : Nat} {constant : K} (found : constants[index]? = some constant) :
      more[index]? = some constant := by
    obtain ⟨rest, rfl⟩ := longer
    rw [List.getElem?_append_left (List.getElem?_eq_some_iff.mp found).1, found]
  cases realizes with
  | emit => exact .emit
  | emitName found denotes => exact .emitName (kept found) denotes
  | emitIndex => exact .emitIndex
  | emitCall => exact .emitCall
  | emitClosure found denotes => exact .emitClosure (kept found) denotes
  | emitConstant found denotes => exact .emitConstant (kept found) denotes
  | emitJump lands waits => exact .emitJump (same rfl ▸ lands) (same rfl ▸ waits)
  | emitJumpIfFalse lands waits => exact .emitJumpIfFalse (same rfl ▸ lands) (same rfl ▸ waits)
  | emitLoop goes => exact .emitLoop goes

theorem Realized.mono (realized : Realized landings constants offset jumps operations instrs)
    (same : ∀ jump, jumps ≤ jump → jump < jumps + jumpsOf operations → later jump = landings jump)
    (longer : constants <+: more) : Realized later more offset jumps operations instrs := by
  induction realized with
  | nil => exact .nil
  | patch _ ih =>
      refine .patch (ih fun jump above below => same jump above ?_)
      rw [jumpsOf_cons]
      omega
  | @instr offset jumps operation instr rest instrs realizes _ ih =>
      rw [jumpsOf_cons] at same
      refine .instr (realizes.mono (fun isJump => same jumps (Nat.le_refl _) ?_) longer)
        (ih fun jump above below => same jump (by omega) (by omega))
      rw [if_pos isJump]
      omega

theorem Realized.snoc (realized : Realized landings constants offset jumps operations instrs)
    (last : Realizes landings constants (offset + extentOf operations) (jumps + jumpsOf operations)
      operation instr) :
    Realized landings constants offset jumps (operations ++ [operation])
      (instrs ++ [(offset + extentOf operations, instr)]) := by
  induction realized with
  | nil => exact .instr (by simpa [extentOf, jumpsOf] using last) .nil
  | @patch offset jumps jump rest instrs _ ih =>
      have same : extentOf (.toNextOpcode jump :: rest) = extentOf rest := by
        simp [extentOf, Operation.size]
      rw [same] at last ⊢
      rw [jumpsOf_cons, if_neg (by simp [Operation.isJump]), Nat.zero_add] at last
      exact .patch (ih last)
  | @instr offset jumps first _ rest instrs realizes _ ih =>
      have sum : offset + extentOf (first :: rest) = offset + first.size + extentOf rest := by
        simp [extentOf, Nat.add_assoc]
      rw [sum] at last ⊢
      rw [jumpsOf_cons, ← Nat.add_assoc] at last
      exact .instr realizes (ih last)

theorem Realized.patch_last (realized : Realized landings constants offset jumps operations instrs)
    (jump : Nat) : Realized landings constants offset jumps (operations ++ [.toNextOpcode jump]) instrs := by
  induction realized with
  | nil => exact .patch .nil
  | patch _ ih => exact .patch ih
  | instr realizes _ ih => exact .instr realizes ih

/-- An open jump has its dummy bytes, and may be given the distance to its landing. -/
theorem Realized.open_jump (realized : Realized landings constants offset jumps operations instrs)
    {jump target : Nat} (above : jumps ≤ jump) (below : jump < jumps + jumpsOf operations)
    (waits : landings jump = none) (lands : later jump = some target)
    (others : ∀ other, other ≠ jump → later other = landings other) :
    ∃ before at_ opcode after, instrs = before ++ (at_, .jump opcode 0) :: after ∧
      opcode.shape = .jump ∧ (backpatchesOf offset operations)[jump - jumps]? = some (at_ + 3) ∧
      offset + (before.flatMap fun entry => entry.2.encode).length = at_ ∧
      ∀ distance, at_ + 3 + distance = target →
        Realized later constants offset jumps operations
          (before ++ (at_, .jump opcode distance) :: after) := by
  induction realized with
  | nil => simp [jumpsOf] at below; omega
  | @patch offset jumps patched rest instrs _ ih =>
      rw [jumpsOf_cons, if_neg (by simp [Operation.isJump]), Nat.zero_add] at below
      obtain ⟨before, at_, opcode, after, split, shape, found, place, patches⟩ := ih above below
      refine ⟨before, at_, opcode, after, split, shape, ?_, place, fun distance same =>
        .patch (patches distance same)⟩
      simpa [backpatchesOf, Operation.isJump, Operation.size] using found
  | @instr offset jumps first instr rest instrs realizes more ih =>
      rw [jumpsOf_cons] at below
      by_cases here : first.isJump = true ∧ jumps = jump
      · obtain ⟨isJump, rfl⟩ := here
        have unchanged : Realized later constants (offset + first.size) (jumps + 1) rest instrs := by
          rw [if_pos isJump] at more
          exact more.mono (fun other above _ => others other (by omega)) List.prefix_rfl
        have found : (backpatchesOf offset (first :: rest))[jumps - jumps]? = some (offset + 3) := by
          simp [backpatchesOf, isJump]
        cases realizes with
        | emitJump _ dummy =>
            rw [dummy waits]
            refine ⟨[], offset, .jump, instrs, rfl, rfl, found, rfl, fun distance same => ?_⟩
            refine .instr (.emitJump (fun target other => ?_) fun none => ?_) unchanged
            · rw [lands] at other; cases other; exact same
            · rw [lands] at none; cases none
        | emitJumpIfFalse _ dummy =>
            rw [dummy waits]
            refine ⟨[], offset, .jumpIfFalse, instrs, rfl, rfl, found, rfl, fun distance same => ?_⟩
            refine .instr (.emitJumpIfFalse (fun target other => ?_) fun none => ?_) unchanged
            · rw [lands] at other; cases other; exact same
            · rw [lands] at none; cases none
        | _ => cases isJump
      · have further : (jumps + if first.isJump then 1 else 0) ≤ jump := by
          split
          next isJump => exact Nat.lt_of_le_of_ne above fun same => here ⟨isJump, same⟩
          next => exact above
        obtain ⟨before, at_, opcode, after, split, shape, found, place, patches⟩ :=
          ih further (by omega)
        have kept : Realizes later constants offset jumps first instr :=
          realizes.mono (fun isJump => others jumps fun same => here ⟨isJump, same⟩) List.prefix_rfl
        refine ⟨(offset, instr) :: before, at_, opcode, after, by rw [split]; rfl, shape, ?_, ?_,
          fun distance same => .instr kept (patches distance same)⟩
        · rw [backpatchesOf]
          split
          next isJump =>
              rw [if_pos isJump] at found further
              rw [List.getElem?_append_right (by simp; omega)]
              simpa [Nat.sub_sub] using found
          next notJump =>
              rw [if_neg notJump] at found
              simpa using found
        · rw [← place, ← realizes.size, Instr.size]
          simp [Nat.add_assoc]

/-- The instructions of a sequence, read from their bytes. -/
theorem Realized.decodes (realized : Realized landings constants offset jumps operations instrs)
    (fits : ∀ entry ∈ instrs, entry.2.Fits) {earlier : List Nat} (begins : earlier.length = offset) :
    Decodes (earlier ++ instrs.flatMap fun entry => entry.2.encode) offset instrs := by
  induction realized generalizing earlier with
  | nil =>
      subst begins
      rw [List.flatMap_nil, List.append_nil]
      exact .atEnd
  | patch _ ih => exact ih fits begins
  | @instr offset jumps operation instr rest instrs realizes _ ih =>
      subst begins
      have fit := fits (_, instr) List.mem_cons_self
      have here : decode ((earlier ++ ((earlier.length, instr) :: instrs).flatMap
          fun entry => entry.2.encode).drop earlier.length) = some (instr, operation.size) := by
        rw [List.drop_left, List.flatMap_cons, decode_encode fit, realizes.size]
      refine .instr here ?_
      have split : earlier ++ ((earlier.length, instr) :: instrs).flatMap (fun entry => entry.2.encode) =
          (earlier ++ instr.encode) ++ instrs.flatMap fun entry => entry.2.encode := by simp
      rw [split]
      refine ih (fun entry member => fits entry (List.mem_cons_of_mem _ member)) ?_
      rw [List.length_append, ← realizes.size, Instr.size]

theorem Realized.length (realized : Realized landings constants offset jumps operations instrs) :
    (instrs.flatMap fun entry => entry.2.encode).length = extentOf operations := by
  induction realized with
  | nil => rfl
  | patch _ ih => simpa [extentOf, Operation.size] using ih
  | instr realizes _ ih =>
      have sizes := realizes.size
      rw [Instr.size] at sizes
      rw [List.flatMap_cons, List.length_append, ih, sizes]
      simp [extentOf]

end

section

variable {K L F : Type} [Constants K L F] {operations : List (Operation K L F)} {operation : Operation K L F}
  {emitter after : Emitter K L} {instrs : List (Nat × Instr)}

/-- What has been emitted so far. -/
structure Built (operations : List (Operation K L F)) (emitter : Emitter K L)
    (instrs : List (Nat × Instr)) : Prop where
  realized : Realized (landing operations) emitter.chunk.constants 0 0 operations instrs
  bytecode : emitter.chunk.bytecode = instrs.flatMap fun entry => entry.2.encode
  fits : ∀ entry ∈ instrs, entry.2.Fits
  tokens : emitter.chunk.sourceMapTokens = tokensGiven operations
  backpatches : emitter.backpatches = backpatchesOf 0 operations

/-- What an operation that is no patch appends. -/
structure Appends (emitter : Emitter K L) (operation : Operation K L F) (instr : Instr)
    (after : Emitter K L) : Prop where
  fits : instr.Fits
  bytecode : after.chunk.bytecode = emitter.chunk.bytecode ++ instr.encode
  constants : emitter.chunk.constants <+: after.chunk.constants
  tokens : after.chunk.sourceMapTokens = emitter.chunk.sourceMapTokens ++ tokensGiven [operation]
  backpatches : after.backpatches = emitter.backpatches ++
    backpatchesOf emitter.chunk.bytecode.length [operation]

theorem plain_shape : ∀ opcode ∈ plainOpcodes, opcode.shape = .simple := by decide

theorem name_shape : ∀ opcode ∈ nameOpcodes, opcode.shape = .operand := by decide

theorem index_shape : ∀ opcode ∈ indexOpcodes, opcode.shape = .operand := by decide

/-- The opcodes that take a constant. -/
theorem emitWithConstant_appends (operation : Operation K L F) {made : Chunk K L} {opcode : Opcode} {value : K}
    {token : SourceMapToken L} (shape : opcode.shape = .operand)
    (two : tokensGiven [operation] = [token, token])
    (noJump : backpatchesOf emitter.chunk.bytecode.length [operation] = [])
    (emits : emitter.chunk.emitWithConstant opcode value token = .ok made) :
    ∃ index constant, made.constants[index]? = some constant ∧ Denotes constant value ∧
      Appends emitter operation (.operand opcode index) { emitter with chunk := made } := by
  obtain ⟨small, rfl⟩ := emitWithConstant_ok emits
  obtain ⟨constant, found, denotes⟩ := insertConstant_found emitter.chunk.constants value
  refine ⟨_, constant, found, denotes, ⟨shape, small⟩, ?_, insertConstant_longer _ _, ?_, ?_⟩
  · simp [Chunk.emitByte, Instr.encode]
  · simp [Chunk.emitByte, two]
  · simp [noJump]

omit [Constants K L F] in
/-- The opcodes that take an index. -/
theorem emitIndex_appends {made : Chunk K L} {opcode : Opcode} {index : Nat}
    {token : SourceMapToken L} (shape : opcode.shape = .operand)
    (two : tokensGiven [operation] = [token, token])
    (noJump : backpatchesOf emitter.chunk.bytecode.length [operation] = [])
    (emits : emitter.chunk.emitIndex opcode index token = .ok made) :
    Appends emitter operation (.operand opcode index) { emitter with chunk := made } := by
  obtain ⟨narrowed, narrows, same⟩ := bind_ok.mp emits
  obtain ⟨rfl, small⟩ := narrowByte_ok narrows
  cases same
  refine ⟨⟨shape, small⟩, ?_, List.prefix_rfl, ?_, ?_⟩
  · simp [Chunk.emitByte, Instr.encode]
  · simp [Chunk.emitByte, two]
  · simp [noJump]

omit [Constants K L F] in
theorem emitJump_appends {opcode : Opcode} {token : SourceMapToken L} (shape : opcode.shape = .jump)
    (three : tokensGiven [operation] = [token, token, token])
    (here : backpatchesOf emitter.chunk.bytecode.length [operation] =
      [emitter.chunk.bytecode.length + 3]) :
    Appends emitter operation (.jump opcode 0) ⟨(emitter.chunk.emitJump opcode token).1,
      emitter.backpatches ++ [(emitter.chunk.emitJump opcode token).2]⟩ := by
  refine ⟨⟨shape, by decide⟩, ?_, List.prefix_rfl, ?_, ?_⟩
  · simp [Chunk.emitJump, Chunk.emitByte, Instr.encode]
  · simp [Chunk.emitJump, Chunk.emitByte, three]
  · simp [Chunk.emitJump, Chunk.emitByte, here]

/-- Every operation but a patch appends the instruction it stands for. -/
theorem Operation.run_appends {landings : Nat → Option Nat} {jumps : Nat}
    (runs : operation.run emitter = .ok after) (emits : operation.token?.isSome = true)
    (begins : ∀ begins token, operation = .emitLoop begins token →
      begins ≤ emitter.chunk.bytecode.length)
    (waits : landings jumps = none) :
    ∃ instr, Appends emitter operation instr after ∧
      Realizes landings after.chunk.constants emitter.chunk.bytecode.length jumps operation instr := by
  have open_ (distance : Nat) (target : Nat) (found : landings jumps = some target) :
      emitter.chunk.bytecode.length + 3 + distance = target := by
    rw [waits] at found
    cases found
  cases operation with
  | emit opcode token =>
      cases runs
      have fits : (Instr.simple opcode).Fits := plain_shape _ opcode.2
      refine ⟨.simple opcode, ⟨fits, rfl, List.prefix_rfl, rfl, ?_⟩, .emit⟩
      simp [backpatchesOf, Operation.isJump]
  | emitName opcode name token =>
      obtain ⟨made, emitted, same⟩ := bind_ok.mp runs
      cases same
      obtain ⟨index, constant, found, denotes, appends⟩ :=
        emitWithConstant_appends (.emitName opcode name token) (name_shape _ opcode.2) rfl rfl emitted
      exact ⟨_, appends, .emitName found denotes⟩
  | emitIndex opcode index token =>
      obtain ⟨made, emitted, same⟩ := bind_ok.mp runs
      cases same
      exact ⟨_, emitIndex_appends (index_shape _ opcode.2) rfl rfl emitted, .emitIndex⟩
  | emitCall argCount token =>
      obtain ⟨made, emitted, same⟩ := bind_ok.mp runs
      cases same
      exact ⟨_, emitIndex_appends rfl rfl rfl emitted, .emitCall⟩
  | emitConstant value token =>
      obtain ⟨made, emitted, same⟩ := bind_ok.mp runs
      cases same
      obtain ⟨index, constant, found, denotes, appends⟩ :=
        emitWithConstant_appends (.emitConstant value token) rfl rfl rfl emitted
      exact ⟨_, appends, .emitConstant found denotes⟩
  | emitClosure function captures token =>
      obtain ⟨made, emitted, same⟩ := bind_ok.mp runs
      cases same
      obtain ⟨fits, rfl⟩ := emitClosure_ok rfl emitted
      obtain ⟨constant, found, denotes⟩ :=
        insertConstant_found emitter.chunk.constants (Constants.function function)
      refine ⟨_, ⟨fits, rfl, insertConstant_longer _ _, ?_, ?_⟩, .emitClosure found denotes⟩
      · simp [tokensGiven, Operation.token?, Operation.size]
      · simp [backpatchesOf, Operation.isJump]
  | emitJump token =>
      cases runs
      exact ⟨_, emitJump_appends rfl rfl rfl, .emitJump (open_ 0) fun _ => rfl⟩
  | emitJumpIfFalse token =>
      cases runs
      exact ⟨_, emitJump_appends rfl rfl rfl, .emitJumpIfFalse (open_ 0) fun _ => rfl⟩
  | toNextOpcode jump => cases emits
  | emitLoop loopBegin token =>
      obtain ⟨made, emitted, same⟩ := bind_ok.mp runs
      cases same
      obtain ⟨small, rfl⟩ := emitLoop_ok rfl emitted
      have bound := begins loopBegin token rfl
      have fits : (Instr.jump .loop (emitter.chunk.bytecode.length + 3 - loopBegin)).Fits :=
        ⟨rfl, small⟩
      refine ⟨_, ⟨fits, rfl, List.prefix_rfl, rfl, ?_⟩, .emitLoop (by omega)⟩
      simp [backpatchesOf, Operation.isJump]

omit [Constants K L F] in
theorem inOrder_prefix {rest : List (Operation K L F)} (inOrder : InOrder (operations ++ rest)) :
    InOrder operations := by
  induction rest using List.reverseRecOn with
  | nil => simpa using inOrder
  | append_singleton rest last ih =>
      rw [← List.append_assoc] at inOrder
      exact ih (inOrder_snoc inOrder).1

omit [Constants K L F] in
/-- `to_next_opcode` writes the distance over the two dummy bytes. -/
theorem toNextOpcode_patches {chunk made : Chunk K L} {before after : List Nat} {first : Nat}
    (split : chunk.bytecode = before ++ first :: 0 :: 0 :: after)
    (patches : chunk.toNextOpcode (before.length + 3) = .ok made) :
    ∃ distance, distance < 65536 ∧ before.length + 3 + distance = chunk.bytecode.length ∧
      made = { chunk with
        bytecode := before ++ first :: distance / 256 :: distance % 256 :: after } := by
  obtain ⟨narrowed, narrows, same⟩ := bind_ok.mp patches
  obtain ⟨rfl, small⟩ := narrowShort_ok narrows
  cases same
  have length : chunk.bytecode.length = before.length + 3 + after.length := by
    rw [split]
    simp only [List.length_append, List.length_cons]
    omega
  refine ⟨_, small, by omega, ?_⟩
  have high : before.length + 3 - 2 = before.length + 1 := by omega
  have low : before.length + 3 - 1 = before.length + 2 := by omega
  rw [high, low]
  have sets := set_set_append before after first 0 0
    ((chunk.bytecode.length - (before.length + 3)) / 256)
    ((chunk.bytecode.length - (before.length + 3)) % 256)
  rw [← split] at sets
  rw [sets]

/-- What a patch leaves as it was, and the dummy bytes it writes over. -/
structure Patches (jump : Nat) (emitter after : Emitter K L) : Prop where
  bytes : ∃ at_, emitter.backpatches[jump]? = some (at_ + 3) ∧
    emitter.chunk.bytecode[at_ + 1]? = some 0 ∧ emitter.chunk.bytecode[at_ + 2]? = some 0 ∧
    after.chunk.bytecode.length = emitter.chunk.bytecode.length ∧
    ∀ index, index ≠ at_ + 1 → index ≠ at_ + 2 →
      after.chunk.bytecode[index]? = emitter.chunk.bytecode[index]?
  constants : after.chunk.constants = emitter.chunk.constants
  tokens : after.chunk.sourceMapTokens = emitter.chunk.sourceMapTokens
  backpatches : after.backpatches = emitter.backpatches

omit [Constants K L F] in
theorem getElem?_patched (before after : List Nat) (first high low newHigh newLow : Nat)
    {index : Nat} (notHigh : index ≠ before.length + 1) (notLow : index ≠ before.length + 2) :
    (before ++ first :: newHigh :: newLow :: after)[index]? =
      (before ++ first :: high :: low :: after)[index]? := by
  by_cases early : index < before.length
  · rw [List.getElem?_append_left early, List.getElem?_append_left early]
  · obtain ⟨beyond, rfl⟩ := Nat.exists_eq_add_of_le (Nat.le_of_not_lt early)
    rw [List.getElem?_append_right (by omega), List.getElem?_append_right (by omega),
      Nat.add_sub_cancel_left]
    match beyond with
    | 0 => rfl
    | 1 => exact absurd rfl notHigh
    | 2 => exact absurd rfl notLow
    | beyond + 3 => rfl

theorem Built.patch (built : Built operations emitter instrs) {jump : Nat}
    (follows : Operation.Follows operations (.toNextOpcode jump : Operation K L F))
    (runs : (Operation.toNextOpcode jump).run emitter = .ok after) :
    (∃ patched, Built (operations ++ [.toNextOpcode jump]) after patched) ∧
      Patches jump emitter after := by
  have lands : landing (operations ++ [.toNextOpcode jump]) jump = some (extentOf operations) := by
    simp [landing_append _ follows.2, landing]
  have others (other : Nat) (different : other ≠ jump) :
      landing (operations ++ [.toNextOpcode jump]) other = landing operations other :=
    landing_snoc fun same => different (by cases same; rfl)
  obtain ⟨before, at_, opcode, behind, rfl, shape, found, place, patches⟩ :=
    built.realized.open_jump (Nat.zero_le jump) (by simpa using follows.1)
      (landing_none follows.2) lands others
  rw [Nat.zero_add] at place
  rw [Nat.sub_zero, ← built.backpatches] at found
  simp only [Operation.run, found] at runs
  obtain ⟨made, patched, same⟩ := bind_ok.mp runs
  cases same
  have split : emitter.chunk.bytecode = (before.flatMap fun entry => entry.2.encode) ++
      opcode.toByte :: 0 :: 0 :: (behind.flatMap fun entry => entry.2.encode) := by
    rw [built.bytecode]
    simp [Instr.encode]
  subst place
  obtain ⟨distance, small, reaches, rfl⟩ := toNextOpcode_patches split patched
  have length := built.realized.length
  rw [← built.bytecode] at length
  have realized := (patches distance (reaches.trans length)).patch_last jump
  refine ⟨⟨_, realized, ?_, ?_, ?_, ?_⟩, ⟨_, found, ?_, ?_, ?_, ?_⟩, rfl, rfl, rfl⟩
  · simp [Instr.encode]
  · intro entry member
    simp only [List.mem_append, List.mem_cons] at member
    rcases member with inside | rfl | inside
    · exact built.fits entry (by simp [inside])
    · exact ⟨shape, small⟩
    · exact built.fits entry (by simp [inside])
  · rw [built.tokens, tokensGiven_append]
    simp [tokensGiven, Operation.token?]
  · rw [built.backpatches, backpatchesOf_append]
    simp [backpatchesOf, Operation.isJump]
  · rw [split]
    simp
  · rw [split]
    simp
  · rw [split]
    simp
  · intro index notHigh notLow
    rw [split]
    exact getElem?_patched _ _ _ _ _ _ _ notHigh notLow

theorem Built.append (built : Built operations emitter instrs) {instr : Instr}
    (appends : Appends emitter operation instr after)
    (realizes : Realizes (landing operations) after.chunk.constants emitter.chunk.bytecode.length
      (jumpsOf operations) operation instr)
    (emits : operation.token?.isSome = true) :
    Built (operations ++ [operation]) after
      (instrs ++ [(emitter.chunk.bytecode.length, instr)]) := by
  have other (jump : Nat) : operation ≠ .toNextOpcode jump := by
    rintro rfl
    cases emits
  have length := built.realized.length
  rw [← built.bytecode] at length
  have lands : landing (operations ++ [operation]) = landing operations :=
    funext fun jump => landing_snoc (other jump)
  have earlier := built.realized.mono (fun _ _ _ => rfl) appends.constants
  rw [length] at realizes
  have last := earlier.snoc (by simpa using realizes)
  rw [Nat.zero_add] at last
  refine ⟨?_, ?_, ?_, ?_, ?_⟩
  · rw [lands, length]
    exact last
  · rw [appends.bytecode, built.bytecode]
    simp
  · intro entry member
    rcases List.mem_append.mp member with old | new
    · exact built.fits entry old
    · rw [List.mem_singleton.mp new]
      exact appends.fits
  · rw [appends.tokens, built.tokens, tokensGiven_append]
  · rw [appends.backpatches, built.backpatches, backpatchesOf_append, Nat.zero_add, length]

theorem runAll_append (emitter : Emitter K L) (operations rest : List (Operation K L F)) :
    Operation.runAll emitter (operations ++ rest) =
      (Operation.runAll emitter operations).bind fun middle => Operation.runAll middle rest := by
  induction operations generalizing emitter with
  | nil => rfl
  | cons head others ih =>
      simp only [List.cons_append, Operation.runAll]
      cases head.run emitter with
      | error error => rfl
      | ok middle => exact ih middle

theorem runAll_snoc (emitter : Emitter K L) (operations : List (Operation K L F))
    (operation : Operation K L F) : Operation.runAll emitter (operations ++ [operation]) =
      (Operation.runAll emitter operations).bind operation.run := by
  rw [runAll_append]
  congr 1
  funext middle
  cases ran : operation.run middle <;> simp [Operation.runAll, ran, bind, Except.bind]

/-- A sequence that does not throw has built its instructions. -/
theorem InOrder.built (inOrder : InOrder operations)
    (runs : Operation.runAll {} operations = .ok emitter) :
    ∃ instrs, Built operations emitter instrs := by
  induction inOrder generalizing emitter with
  | nil =>
      cases runs
      exact ⟨[], .nil, rfl, by simp, rfl, rfl⟩
  | @snoc operations operation before follows ih =>
      rw [runAll_snoc] at runs
      obtain ⟨middle, first, last⟩ := bind_ok.mp runs
      obtain ⟨instrs, built⟩ := ih first
      by_cases emits : operation.token?.isSome = true
      · have length := built.realized.length
        rw [← built.bytecode] at length
        have waits : landing operations (jumpsOf operations) = none :=
          landing_none fun member => absurd (before.patched_lt member) (Nat.lt_irrefl _)
        obtain ⟨instr, appends, realizes⟩ := operation.run_appends last emits
          (fun begins token same => by
            subst same
            obtain ⟨earlier, later, rfl, rfl⟩ := follows
            rw [length, extentOf_append]
            exact Nat.le_add_right _ _)
          waits
        exact ⟨_, built.append appends realizes emits⟩
      · cases operation with
        | toNextOpcode jump => exact (built.patch follows last).1
        | _ => exact absurd rfl emits

omit [Constants K L F] in
/-- The disassembler splits decoded bytecode into the same instructions. -/
theorem listBytecode_decodes (text : L → Text) {bytecode : List Nat} {tokens : List (SourceMapToken L)}
    {offset fuel : Nat} (decodes : Decodes bytecode offset instrs)
    (fits : ∀ entry ∈ instrs, entry.2.Fits) (mapped : tokens.length = bytecode.length)
    (enough : bytecode.length ≤ offset + fuel) :
    ∃ lines, listBytecode text tokens fuel offset (bytecode.drop offset) = some (instrs, lines) := by
  induction decodes generalizing fuel with
  | atEnd =>
      rw [List.drop_length]
      exact ⟨[], by cases fuel <;> rfl⟩
  | @instr offset size instr rest decoded _ ih =>
      have some_ : offset < bytecode.length := by
        rcases Nat.lt_or_ge offset bytecode.length with inside | beyond
        · exact inside
        · rw [List.drop_eq_nil_of_le beyond] at decoded
          cases decoded
      obtain ⟨taken, listed⟩ := listInstr_decode decoded (fits _ List.mem_cons_self) offset
      rw [List.drop_drop] at listed
      cases fuel with
      | zero => omega
      | succ fuel =>
          obtain ⟨positive, within⟩ := decode_size decoded
          rw [List.length_drop] at within
          have room : bytecode.length ≤ offset + size + fuel := by omega
          obtain ⟨lines, later⟩ :=
            ih (fun entry member => fits entry (List.mem_cons_of_mem _ member)) room
          have nonempty : 0 < (bytecode.drop offset).length := by
            rw [List.length_drop]
            omega
          obtain ⟨byte, behind, split⟩ :=
            List.exists_cons_of_ne_nil (List.ne_nil_of_length_pos nonempty)
          have consumed : (bytecode.drop offset).length - (bytecode.drop (offset + size)).length = size := by
            simp only [List.length_drop]
            omega
          rw [split] at listed consumed ⊢
          simp only [listBytecode, listed, consumed, List.getElem?_eq_getElem (mapped ▸ some_), later,
            Option.bind_eq_bind, Option.bind_some]
          exact ⟨_, rfl⟩

/-- The operands of an operation fit their fields. -/
def Operation.OperandsFit (emitter : Emitter K L) : Operation K L F → Prop
  | .emit _ _ | .emitJump _ | .emitJumpIfFalse _ => True
  | .emitName _ name _ => (insertConstant emitter.chunk.constants (Constants.string name)).1 < 256
  | .emitIndex _ index _ => index < 256
  | .emitCall argCount _ => argCount < 256
  | .emitClosure function captures _ =>
      (insertConstant emitter.chunk.constants (Constants.function function)).1 < 256 ∧
        captures.length < 256 ∧ ∀ capture ∈ captures, capture.index < 256
  | .emitConstant value _ => (insertConstant emitter.chunk.constants value).1 < 256
  | .toNextOpcode jump => ∀ begins, emitter.backpatches[jump]? = some begins →
      emitter.chunk.bytecode.length - begins < 65536
  | .emitLoop begins _ => emitter.chunk.bytecode.length + 3 - begins < 65536

/-- Runs when the operands fit, and throws otherwise. -/
def RunsIf {A : Type} (fits : Prop) (outcome : Except Error A) : Prop :=
  (fits → ∃ made, outcome = .ok made) ∧ (¬ fits → outcome = .error .narrowingError)

omit [Constants K L F] in
theorem RunsIf.map {A B : Type} {fits : Prop} {outcome : Except Error A}
    (runs : RunsIf fits outcome) (f : A → B) : RunsIf fits (outcome >>= fun made => .ok (f made)) := by
  refine ⟨fun fit => ?_, fun misfit => ?_⟩
  · obtain ⟨made, same⟩ := runs.1 fit
    exact ⟨f made, by rw [same]; rfl⟩
  · rw [runs.2 misfit]
    rfl

omit [Constants K L F] in
theorem narrowByte_runsIf (value : Nat) : RunsIf (value < 256) (narrowByte value) := by
  unfold narrowByte
  exact ⟨fun fit => ⟨value, if_pos fit⟩, fun misfit => if_neg misfit⟩

omit [Constants K L F] in
theorem narrowShort_runsIf (value : Nat) : RunsIf (value < 65536) (narrowShort value) := by
  unfold narrowShort
  exact ⟨fun fit => ⟨value, if_pos fit⟩, fun misfit => if_neg misfit⟩

omit [Constants K L F] in
theorem RunsIf.andThen {A B : Type} {first second : Prop} {outcome : Except Error A}
    {rest : A → Except Error B} (runs : RunsIf first outcome)
    (more : ∀ made, RunsIf second (rest made)) : RunsIf (first ∧ second) (outcome >>= rest) := by
  refine ⟨fun fit => ?_, fun misfit => ?_⟩
  · obtain ⟨made, same⟩ := runs.1 fit.1
    rw [same]
    exact (more made).1 fit.2
  · by_cases fit : first
    · obtain ⟨made, same⟩ := runs.1 fit
      rw [same]
      exact (more made).2 fun also => misfit ⟨fit, also⟩
    · rw [runs.2 fit]
      rfl

omit [Constants K L F] in
theorem emitTrackedUpvalues_runsIf (chunk : Chunk K L) (captures : List TrackedUpvalue)
    (token : SourceMapToken L) : RunsIf (∀ capture ∈ captures, capture.index < 256)
      (chunk.emitTrackedUpvalues captures token) := by
  induction captures generalizing chunk with
  | nil => exact ⟨fun _ => ⟨chunk, rfl⟩, fun misfit => absurd (by simp) misfit⟩
  | cons capture rest ih =>
      rw [List.forall_mem_cons]
      cases capture with
      | upvalueIndex index | upUpvalueIndex index =>
          exact (narrowByte_runsIf index).andThen fun narrowed => ih _

theorem Operation.run_runsIf (emitter : Emitter K L) (operation : Operation K L F) :
    RunsIf (operation.OperandsFit emitter) (operation.run emitter) := by
  cases operation with
  | emit | emitJump | emitJumpIfFalse => exact ⟨fun _ => ⟨_, rfl⟩, fun misfit => absurd trivial misfit⟩
  | emitName opcode name token =>
      exact ((narrowByte_runsIf _).map _).map fun made => { emitter with chunk := made }
  | emitIndex opcode index token =>
      exact ((narrowByte_runsIf _).map _).map fun made => { emitter with chunk := made }
  | emitCall argCount token =>
      exact ((narrowByte_runsIf _).map _).map fun made => { emitter with chunk := made }
  | emitConstant value token =>
      exact ((narrowByte_runsIf _).map _).map fun made => { emitter with chunk := made }
  | emitClosure function captures token =>
      refine RunsIf.map ?_ fun made => { emitter with chunk := made }
      exact (narrowByte_runsIf _).andThen fun index => (narrowByte_runsIf _).andThen fun count =>
        emitTrackedUpvalues_runsIf _ captures token
  | toNextOpcode jump =>
      simp only [OperandsFit, run]
      cases found : emitter.backpatches[jump]? with
      | none => exact ⟨fun _ => ⟨_, rfl⟩, fun misfit => absurd (by simp) misfit⟩
      | some begins =>
          have fits : (∀ other, some begins = some other →
              emitter.chunk.bytecode.length - other < 65536) ↔
              emitter.chunk.bytecode.length - begins < 65536 := by simp
          rw [fits]
          exact ((narrowShort_runsIf _).map _).map fun made => { emitter with chunk := made }
  | emitLoop begins token =>
      have length : (((emitter.chunk.emitByte Opcode.loop.toByte token).emitByte 0 token).emitByte 0
          token).bytecode.length = emitter.chunk.bytecode.length + 3 := by simp [Chunk.emitByte]
      simp only [OperandsFit]
      rw [← length]
      exact ((narrowShort_runsIf _).map _).map fun made => { emitter with chunk := made }

/-- The bytes of a sequence of operations are read back, by the virtual machine and by the
disassembler, as that sequence. -/
theorem operations_agree (text : L → Text) (operations : List (Operation K L F)) (inOrder : InOrder operations) :
    (∀ emitter, Operation.runAll {} operations = .ok emitter → ∃ instrs lines,
      Decodes emitter.chunk.bytecode 0 instrs ∧
      Realized (landing operations) emitter.chunk.constants 0 0 operations instrs ∧
      emitter.chunk.disassemble text = some (instrs, lines) ∧
      emitter.chunk.sourceMapTokens = tokensGiven operations ∧
      emitter.chunk.sourceMapTokens.length = emitter.chunk.bytecode.length ∧
      ∀ before jump after, operations = before ++ .toNextOpcode jump :: after →
        ∃ middle patched, Operation.runAll {} before = .ok middle ∧
          (Operation.toNextOpcode jump).run middle = .ok patched ∧ Patches jump middle patched) ∧
    ∀ emitter, ∀ operation : Operation K L F,
      (∀ begins token, operation = .emitLoop begins token →
        begins ≤ emitter.chunk.bytecode.length) →
      RunsIf (operation.OperandsFit emitter) (operation.run emitter) := by
  refine ⟨fun emitter runs => ?_, fun emitter operation _ => operation.run_runsIf emitter⟩
  obtain ⟨instrs, built⟩ := inOrder.built runs
  have decodes : Decodes emitter.chunk.bytecode 0 instrs := by
    have decodes := built.realized.decodes built.fits (rfl : ([] : List Nat).length = 0)
    rwa [List.nil_append, ← built.bytecode] at decodes
  have mapped : emitter.chunk.sourceMapTokens.length = emitter.chunk.bytecode.length := by
    rw [built.tokens, built.bytecode, built.realized.length, length_tokensGiven]
  obtain ⟨lines, listed⟩ :=
    listBytecode_decodes text decodes built.fits mapped (Nat.le_add_left emitter.chunk.bytecode.length 0)
  refine ⟨instrs, lines, decodes, built.realized, listed, built.tokens, mapped, ?_⟩
  rintro before jump after rfl
  have ahead : InOrder (before ++ [.toNextOpcode jump]) := by
    rw [List.append_cons] at inOrder
    exact inOrder_prefix inOrder
  obtain ⟨first, follows⟩ := inOrder_snoc ahead
  rw [List.append_cons, runAll_append] at runs
  obtain ⟨patched, runs, -⟩ := bind_ok.mp runs
  rw [runAll_snoc] at runs
  obtain ⟨middle, runs, patches⟩ := bind_ok.mp runs
  obtain ⟨earlier, built⟩ := first.built runs
  exact ⟨middle, patched, runs, patches, (built.patch follows patches).2⟩

end

/-- A loop around a call that a condition leaves, in a chunk that can be run. -/
def loopOperations : List (Operation (Value Int) Ptr Ptr) :=
  [.emitName ⟨.getGlobal, by decide⟩ 1 ⟨1, 1⟩,
    .emitJumpIfFalse ⟨2, 1⟩,
    .emit ⟨.pop, by decide⟩ ⟨2, 1⟩,
    .emitConstant .nil ⟨4, 2⟩,
    .emitConstant (.bool true) ⟨4, 2⟩,
    .emitConstant .nil ⟨4, 2⟩,
    .emitCall 2 ⟨4, 2⟩,
    .emitClosure 16 [.upvalueIndex 3, .upUpvalueIndex 1] ⟨8, 2⟩,
    .emitLoop 0 ⟨2, 1⟩,
    .toNextOpcode 0,
    .emit ⟨.pop, by decide⟩ ⟨2, 1⟩]

theorem operations_agree_loop : ∃ emitter instrs lines,
    Operation.runAll {} loopOperations = .ok emitter ∧ Decodes emitter.chunk.bytecode 0 instrs ∧
      Realized (landing loopOperations) emitter.chunk.constants 0 0 loopOperations instrs ∧
      emitter.chunk.disassemble decimal = some (instrs, lines) := by
  have inOrder : InOrder loopOperations := by
    refine inOrder_of_take fun place operation found => ?_
    match place with
    | 0 | 1 | 2 | 3 | 4 | 5 | 6 | 7 | 10 => cases found; trivial
    | 8 => cases found; exact ⟨[], _, rfl, rfl⟩
    | 9 => cases found; exact ⟨by decide, by simp [loopOperations]⟩
    | _ + 11 => cases found
  obtain ⟨emitter, runs⟩ : ∃ emitter, Operation.runAll {} loopOperations = .ok emitter := ⟨_, rfl⟩
  obtain ⟨instrs, lines, decodes, realized, listed, -⟩ :=
    (operations_agree decimal loopOperations inOrder).1 emitter runs
  exact ⟨emitter, instrs, lines, runs, decodes, realized, listed⟩

end Cpplox
