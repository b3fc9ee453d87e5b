import Cpplox.Vm.Iterations
import Cpplox.Vm.Loaded

namespace Cpplox

open Data

/-! Where a runtime error leaves the machine. -/

variable {N A B : Type} {platform : Platform N} {activation : Activation N} {vm after : VM N}
  {token : SourceMapToken Ptr} {what : Text}

/-- The operation throws no runtime error. -/
def Safe (operation : VmM N A) : Prop :=
  ∀ vm what after, operation vm ≠ .error (.runtimeError what) after

namespace Safe

theorem pure (value : A) : Safe (Pure.pure value : VmM N A) := nofun

theorem throw {error : VmError} (other : ∀ what, error ≠ .runtimeError what) :
    Safe (MonadExcept.throw error : VmM N A) := by
  intro vm what after throws
  cases throws
  exact other what rfl

theorem get : Safe (MonadState.get : VmM N (VM N)) := nofun

theorem set (vm : VM N) : Safe (MonadStateOf.set vm : VmM N Unit) := nofun

theorem writes (change : VM N → VM N) : Safe (modify change : VmM N Unit) := nofun

theorem bind {first : VmM N A} {rest : A → VmM N B} (one : Safe first) (two : ∀ value, Safe (rest value)) :
    Safe (first >>= rest) := by
  intro vm what after throws
  rcases VmM.bind_error.mp throws with throws | ⟨value, middle, -, throws⟩
  · exact one _ _ _ throws
  · exact two _ _ _ _ throws

end Safe

theorem safe_getObject (ptr : Ptr) : Safe (getObject ptr : VmM N (Object N)) := by
  refine .bind .get fun vm => ?_
  split
  · exact .pure _
  · exact .throw nofun

theorem safe_getClosure (ptr : Ptr) : Safe (getClosure ptr : VmM N Closure) :=
  .bind (safe_getObject ptr) fun object => by
    cases object <;> first | exact .pure _ | exact .throw nofun

theorem safe_getFunction (ptr : Ptr) : Safe (getFunction ptr : VmM N (HeapFunction N)) :=
  .bind (safe_getObject ptr) fun object => by
    cases object <;> first | exact .pure _ | exact .throw nofun

theorem safe_getUpvalue (ptr : Ptr) : Safe (getUpvalue ptr : VmM N (Upvalue N)) :=
  .bind (safe_getObject ptr) fun object => by
    cases object <;> first | exact .pure _ | exact .throw nofun

theorem safe_peek (depth : Nat) : Safe (peek depth : VmM N (Value N)) := by
  refine .bind .get fun vm => ?_
  split
  · exact .pure _
  · exact .throw nofun

theorem safe_erase (count : Nat) : Safe (erase count : VmM N Unit) := by
  refine .bind .get fun vm => ?_
  split
  · exact .set _
  · exact .throw nofun

theorem safe_push (value : Value N) : Safe (push value) := .writes _

theorem safe_make (object : Object N) : Safe (make platform object) :=
  .bind .get fun _ => .bind (.set _) fun _ => .pure _

theorem safe_intern (chars : Text) : Safe (intern platform chars) := by
  refine .bind .get fun vm => ?_
  split
  · exact .pure _
  · exact .bind (safe_make _) fun _ => .bind (.writes _) fun _ => .pure _

theorem safe_setObject (ptr : Ptr) (object : Object N) : Safe (setObject ptr object) := .writes _

theorem safe_constantAt (chunk : Chunk (Value N) Ptr) (index : Nat) :
    Safe (constantAt chunk index) := by
  unfold constantAt
  split
  · exact .pure _
  · exact .throw nofun

theorem safe_nameAt (chunk : Chunk (Value N) Ptr) (index : Nat) : Safe (nameAt chunk index) :=
  .bind (safe_constantAt _ _) fun value => by
    cases value <;> first | exact .pure _ | exact .throw nofun

theorem safe_functionAt (chunk : Chunk (Value N) Ptr) (index : Nat) :
    Safe (functionAt chunk index) :=
  .bind (safe_constantAt _ _) fun value => by
    cases value <;> first | exact .pure _ | exact .throw nofun

theorem safe_stackIndex (ptr : Ptr) : Safe (stackIndex ptr : VmM N Nat) :=
  .bind (safe_getUpvalue ptr) fun upvalue => by
    cases upvalue <;> first | exact .pure _ | exact .throw nofun

theorem safe_upvalueValue (ptr : Ptr) : Safe (upvalueValue ptr : VmM N (Value N)) := by
  refine .bind (safe_getUpvalue ptr) fun upvalue => .bind .get fun vm => ?_
  split
  · exact .pure _
  · exact .throw nofun

theorem safe_closeUpvalue (ptr : Ptr) : Safe (closeUpvalue ptr : VmM N Unit) :=
  .bind (safe_upvalueValue ptr) fun _ => safe_setObject _ _

theorem safe_upvalueAt (closure : Ptr) (index : Nat) : Safe (upvalueAt closure index : VmM N Ptr) := by
  refine .bind (safe_getClosure closure) fun made => ?_
  split
  · exact .pure _
  · exact .throw nofun

theorem safe_setUpvalueValue (ptr : Ptr) (value : Value N) : Safe (setUpvalueValue ptr value) := by
  refine .bind (safe_getUpvalue ptr) fun upvalue => ?_
  cases upvalue with
  | closed => exact safe_setObject _ _
  | open_ index =>
      refine .bind .get fun vm => ?_
      split
      · exact .set _
      · exact .throw nofun

theorem safe_findOpenUpvalue (index : Nat) (upvalues : List Ptr) :
    Safe (findOpenUpvalue index upvalues : VmM N (Option Ptr)) := by
  induction upvalues with
  | nil => exact .pure _
  | cons upvalue rest ih =>
      refine .bind (safe_stackIndex upvalue) fun here => ?_
      split
      · exact .pure _
      · exact ih

theorem safe_insertOpenUpvalue (index : Nat) (new : Ptr) (upvalues : List Ptr) :
    Safe (insertOpenUpvalue index new upvalues : VmM N (List Ptr)) := by
  induction upvalues with
  | nil => exact .pure _
  | cons upvalue rest ih =>
      refine .bind (safe_stackIndex upvalue) fun here => ?_
      split
      · exact .pure _
      · exact .bind ih fun _ => .pure _

theorem safe_addUpvalue (closure upvalue : Ptr) : Safe (addUpvalue closure upvalue : VmM N Unit) :=
  .bind (safe_getClosure closure) fun _ => safe_setObject _ _

theorem safe_capture (newClosure : Ptr) (tracked : TrackedUpvalue) :
    Safe (capture platform activation newClosure tracked) := by
  cases tracked with
  | upvalueIndex index =>
      refine .bind (safe_getClosure _) fun enclosing => .bind (safe_findOpenUpvalue _ _) fun found => ?_
      cases found with
      | some upvalue => exact safe_addUpvalue _ _
      | none =>
          exact .bind (safe_make _) fun _ => .bind (safe_addUpvalue _ _) fun _ =>
            .bind (safe_insertOpenUpvalue _ _ _) fun _ => safe_setObject _ _
  | upUpvalueIndex index =>
      refine .bind (safe_getClosure _) fun enclosing => ?_
      split
      · exact safe_addUpvalue _ _
      · exact .throw nofun

theorem safe_captureAll (newClosure : Ptr) (captures : List TrackedUpvalue) :
    Safe (captureAll platform activation newClosure captures) := by
  induction captures with
  | nil => exact .pure _
  | cons tracked rest ih => exact .bind (safe_capture _ _) fun _ => ih

theorem safe_closeAll (upvalues : List Ptr) : Safe (closeAll upvalues : VmM N Unit) := by
  induction upvalues with
  | nil => exact .pure _
  | cons upvalue rest ih => exact .bind (safe_closeUpvalue _) fun _ => ih

theorem safe_moveTo (target : Nat → Option Nat) : Safe (moveTo target : VmM N Unit) := by
  refine .bind .get fun vm => ?_
  split
  · exact .pure _
  · split
    · exact .set _
    · exact .throw nofun

def Steady (operation : VmM N A) : Prop :=
  ∀ vm what after, operation vm = .error (.runtimeError what) after → after = vm

theorem Safe.steady {operation : VmM N A} (safe : Safe operation) : Steady operation :=
  fun vm what after failed => absurd failed (safe vm what after)

theorem ReadOnly.steady {operation : VmM N A} (reads : ReadOnly operation) : Steady operation :=
  fun vm _ _ failed => (final_error failed).symm.trans (reads vm)

theorem Steady.bind {first : VmM N A} {rest : A → VmM N B} (reads : ReadOnly first)
    (others : ∀ value, Steady (rest value)) : Steady (first >>= rest) := by
  intro vm what after failed
  rcases VmM.bind_error.mp failed with failed | ⟨value, middle, runs, laterFailed⟩
  · exact reads.steady vm what after failed
  · obtain rfl := reads.ok runs
    exact others value middle what after laterFailed

theorem steady_throwAt : Steady (throwAt token what : VmM N A) := (reads_throwAt token what).steady

theorem steady_throwUndefined (kind : Text) (name : Ptr) :
    Steady (throwUndefined token kind name : VmM N A) := (reads_throwUndefined token kind name).steady

theorem steady_binaryNumbers (operation : N → N → Value N) :
    Steady (binaryNumbers operation token) :=
  .bind (reads_peek 0) fun rhs => .bind (reads_peek 1) fun lhs => by
    cases lhs <;> cases rhs <;> first
      | exact (Safe.bind (safe_erase _) fun _ => safe_push _).steady
      | exact steady_throwAt

theorem steady_add [Number N] : Steady (add platform token) :=
  .bind (reads_peek 0) fun rhs => .bind (reads_peek 1) fun lhs => by
    cases lhs <;> cases rhs <;> first
      | exact (Safe.bind (safe_erase _) fun _ => safe_push _).steady
      | exact steady_throwAt
      | exact .bind (reads_getString _) fun _ => .bind (reads_getString _) fun _ =>
          (Safe.bind (safe_erase _) fun _ => .bind (safe_intern _) fun _ => safe_push _).steady

theorem steady_negate [Number N] : Steady (negate token : VmM N Unit) :=
  .bind (reads_peek 0) fun value => by
    cases value <;> first
      | exact (Safe.bind (safe_erase _) fun _ => safe_push _).steady
      | exact steady_throwAt

theorem steady_print [Number N] : Steady (print : VmM N Unit) :=
  .bind (reads_peek 0) fun value => .bind (reads_valueText value) fun _ =>
    (Safe.bind (.writes _) fun _ => safe_erase 1).steady

theorem steady_getGlobal (name : Ptr) : Steady (getGlobal token name : VmM N Unit) := by
  refine .bind .get fun vm => ?_
  split
  · exact (safe_push _).steady
  · exact steady_throwUndefined _ _

theorem steady_setGlobal (name : Ptr) : Steady (setGlobal token name : VmM N Unit) := by
  refine .bind .get fun vm => ?_
  split
  · exact .bind (reads_peek 0) fun _ => (Safe.writes _).steady
  · exact steady_throwUndefined _ _

theorem steady_setProperty (name : Ptr) : Steady (setProperty token name : VmM N Unit) :=
  .bind (reads_peek 0) fun value => by
    cases value <;> first
      | exact steady_throwAt
      | exact .bind (reads_getInstance _) fun _ => .bind (reads_peek 1) fun _ =>
          (Safe.bind (safe_setObject _ _) fun _ => safe_erase 1).steady

theorem steady_getSuper (name : Ptr) : Steady (getSuper platform token name : VmM N Unit) := by
  refine .bind (reads_peek 0) fun first => .bind (reads_peek 1) fun second => ?_
  split
  · refine .bind (reads_getClass _) fun klass => ?_
    split
    · exact (Safe.bind (safe_make _) fun _ => .bind (safe_erase 2) fun _ => safe_push _).steady
    · exact steady_throwUndefined _ _
  · exact Safe.steady (.throw (by nofun))

theorem steady_inherit : Steady (inherit token : VmM N Unit) := by
  refine .bind (reads_peek 0) fun first => ?_
  split
  · refine .bind (reads_peek 1) fun second => ?_
    split
    · exact .bind (reads_getClass _) fun _ => .bind (reads_getClass _) fun _ =>
        (Safe.bind (safe_setObject _ _) fun _ => safe_push _).steady
    · exact Safe.steady (.throw (by nofun))
  · exact steady_throwAt

theorem steady_callClosure (argCount : Nat) (closure : Ptr) :
    Steady (callClosure token argCount closure : VmM N Unit) := by
  refine .bind (reads_arityOf closure) fun arity => ?_
  split
  · exact (Safe.writes _).steady
  · exact steady_throwAt

theorem steady_callBoundMethod (argCount : Nat) (bound : BoundMethod) :
    Steady (callBoundMethod token argCount bound : VmM N Unit) := by
  refine .bind (reads_arityOf _) fun arity => ?_
  split
  · exact (Safe.bind (.writes _) fun _ => .writes _).steady
  · exact steady_throwAt

/-- The operands an instruction may have taken off the stack when it throws: the instance,
when its property is undefined. -/
def Instr.loses : Instr → Nat
  | .operand .getProperty _ => 1
  | _ => 0

variable {lost : Nat}

variable (platform lost vm) in
/-- The machine is as it was, but that some values may be off the stack, and that a call of a
class has interned `init`. -/
inductive Fails (after : VM N) : Prop
  | mk {middle : VM N} (count : Nat) : count ≤ lost →
      (middle = vm ∨ ∃ ptr, intern platform initName vm = .ok ptr middle) →
      after = { middle with stack := middle.stack.drop count } → Fails after

def Throws (platform : Platform N) (lost : Nat) (operation : VmM N A) : Prop :=
  ∀ vm what after, operation vm = .error (.runtimeError what) after → Fails platform vm lost after

theorem Steady.throws {operation : VmM N A} (steady : Steady operation) :
    Throws platform lost operation := by
  intro vm what after failed
  obtain rfl := steady vm what after failed
  exact .mk 0 (Nat.zero_le lost) (.inl rfl) rfl

theorem Safe.throws {operation : VmM N A} (safe : Safe operation) : Throws platform lost operation :=
  safe.steady.throws

theorem Throws.bind {first : VmM N A} {rest : A → VmM N B} (reads : ReadOnly first)
    (others : ∀ value, Throws platform lost (rest value)) : Throws platform lost (first >>= rest) := by
  intro vm what after failed
  rcases VmM.bind_error.mp failed with failed | ⟨value, middle, runs, laterFailed⟩
  · exact reads.steady.throws vm what after failed
  · obtain rfl := reads.ok runs
    exact others value middle what after laterFailed

/-- What is thrown when the top of the stack is off. -/
theorem Steady.erased_error {rest : VmM N A} (steady : Steady rest) {value : Value N}
    {values : List (Value N)} (stack : vm.stack = value :: values)
    (failed : (erase 1 >>= fun _ => rest) vm = .error (.runtimeError what) after) :
    after = { vm with stack := values } := by
  rcases VmM.bind_error.mp failed with failed | ⟨done, middle, erases, laterFailed⟩
  · exact absurd failed (safe_erase 1 _ _ _)
  · obtain rfl := steady _ _ _ laterFailed
    exact erase_one_ok stack erases

/-- The name of the initializer may be a new string when something is thrown. -/
theorem Throws.interned {rest : Ptr → VmM N A} (steady : ∀ ptr, Steady (rest ptr)) :
    Throws platform lost (intern platform initName >>= rest) := by
  intro vm what after failed
  rcases VmM.bind_error.mp failed with failed | ⟨initString, middle, interns, laterFailed⟩
  · exact absurd failed (safe_intern _ _ _ _)
  · obtain rfl := steady initString _ _ _ laterFailed
    exact .mk 0 (Nat.zero_le lost) (.inr ⟨initString, interns⟩) rfl

/-- There is an instance on top of the stack. -/
def VM.HasInstance (vm : VM N) : Prop := ∃ object rest, vm.stack = .instance_ object :: rest

/-- The instance is off the stack when its property is not found. -/
theorem getProperty_error {name : Ptr}
    (failed : getProperty platform token name vm = .error (.runtimeError what) after) :
    (vm.HasInstance ∧ after = { vm with stack := vm.stack.tail }) ∨ (¬ vm.HasInstance ∧ after = vm) := by
  rcases VmM.bind_error.mp failed with failed | ⟨value, middle, peeks, continues⟩
  · exact absurd failed (safe_peek 0 _ _ _)
  · obtain ⟨rfl, top⟩ := peek_ok.mp peeks
    cases stack : middle.stack with
    | nil =>
        rw [stack] at top
        cases top
    | cons first rest =>
        rw [stack] at top
        obtain rfl := Option.some.inj top
        cases first with
        | instance_ object =>
            refine .inl ⟨⟨object, rest, stack⟩, Steady.erased_error ?_ stack continues⟩
            refine .bind (reads_getInstance object) fun inst => ?_
            split
            · exact (safe_push _).steady
            · refine .bind (reads_getClass _) fun klass => ?_
              split
              · exact (Safe.bind (safe_make _) fun _ => safe_push _).steady
              · exact steady_throwUndefined _ _
        | _ =>
            refine .inr ⟨?_, steady_throwAt _ _ _ continues⟩
            rintro ⟨object, others, same⟩
            rw [stack] at same
            cases same

theorem throws_getProperty (name : Ptr) : Throws platform 1 (getProperty platform token name) := by
  intro vm what after failed
  rcases getProperty_error failed with ⟨⟨object, rest, stack⟩, rfl⟩ | ⟨-, rfl⟩
  · exact .mk 1 (Nat.le_refl 1) (.inl rfl) (by rw [List.drop_one])
  · exact .mk 0 (Nat.zero_le 1) (.inl rfl) rfl

theorem throws_callClass (argCount : Nat) (klass : Ptr) :
    Throws platform lost (callClass platform token argCount klass) := by
  refine .interned fun initString => .bind (reads_getClass _) fun owner => ?_
  split
  · refine .bind (reads_arityOf _) fun arity => ?_
    split
    · exact (Safe.bind (safe_make _) fun _ => .bind (.writes _) fun _ => .writes _).steady
    · exact steady_throwAt
  · split
    · exact (Safe.bind (safe_make _) fun _ => .writes _).steady
    · exact steady_throwAt

theorem throws_call (argCount : Nat) : Throws platform lost (call platform token argCount) := by
  refine .bind (reads_peek argCount) fun callee => ?_
  cases callee with
  | closure ptr => exact (steady_callClosure _ _).throws
  | class_ ptr => exact throws_callClass _ _
  | boundMethod ptr =>
      exact .bind (reads_getBoundMethod ptr) fun _ => (steady_callBoundMethod _ _).throws
  | nativeFn ptr =>
      exact .bind (reads_getNativeFn ptr) fun _ => (Safe.bind .get fun _ =>
        .bind (.set _) fun _ => .bind (safe_erase _) fun _ => safe_push _).throws
  | _ => exact steady_throwAt.throws

theorem Throws.bind_name {chunk : Chunk (Value N) Ptr} {index : Nat} {rest : Ptr → VmM N B}
    (others : ∀ name, Throws platform lost (rest name)) :
    Throws platform lost (nameAt chunk index >>= rest) := .bind (reads_nameAt _ _) others

section

variable [Number N]

theorem throws_executeSimple (opcode : Opcode) :
    Throws platform lost (executeSimple platform activation opcode) := by
  cases opcode with
  | nil | true_ | false_ => exact (safe_push _).throws
  | pop => exact (safe_erase 1).throws
  | equal =>
      exact .bind (reads_peek 0) fun _ => .bind (reads_peek 1) fun _ =>
        (Safe.bind (safe_erase 2) fun _ => safe_push _).throws
  | greater | less | subtract | multiply | divide => exact (steady_binaryNumbers _).throws
  | add => exact steady_add.throws
  | not_ => exact .bind (reads_peek 0) fun _ => (Safe.bind (safe_erase 1) fun _ => safe_push _).throws
  | negate => exact steady_negate.throws
  | print => exact steady_print.throws
  | closeUpvalue =>
      refine Safe.throws (.bind (safe_getClosure _) fun closure => ?_)
      split
      · exact safe_erase 1
      · refine .bind (safe_stackIndex _) fun index => .bind .get fun vm => ?_
        split
        · exact .bind (safe_closeUpvalue _) fun _ => .bind (safe_setObject _ _) fun _ => safe_erase 1
        · exact safe_erase 1
  | return_ =>
      refine Safe.throws (.bind (safe_getClosure _) fun closure => .bind (safe_closeAll _) fun _ =>
        .bind (safe_peek 0) fun result => .bind .get fun vm => ?_)
      split
      · exact .set _
      · exact .throw (by nofun)
  | inherit => exact steady_inherit.throws
  | _ => exact Safe.throws (.throw (by nofun))

omit [Number N] in
theorem throws_executeOperand (index : Nat) (opcode : Opcode) :
    Throws platform (Instr.operand opcode index).loses (executeOperand platform activation index opcode) := by
  cases opcode with
  | constant => exact .bind (reads_constantAt _ _) fun _ => (safe_push _).throws
  | getLocal =>
      refine Safe.throws (.bind .get fun vm => ?_)
      split
      · exact safe_push _
      · exact .throw (by nofun)
  | setLocal =>
      refine Safe.throws (.bind .get fun vm => .bind (safe_peek 0) fun value => ?_)
      split
      · exact .set _
      · exact .throw (by nofun)
  | getGlobal => exact .bind_name fun _ => (steady_getGlobal _).throws
  | defineGlobal =>
      exact .bind_name fun _ => Safe.throws (.bind (safe_peek 0) fun _ => .bind (.writes _) fun _ =>
        safe_erase 1)
  | setGlobal => exact .bind_name fun _ => (steady_setGlobal _).throws
  | getUpvalue =>
      exact Safe.throws (.bind (safe_upvalueAt _ _) fun _ => .bind (safe_upvalueValue _) fun _ =>
        safe_push _)
  | setUpvalue =>
      exact Safe.throws (.bind (safe_upvalueAt _ _) fun _ => .bind (safe_peek 0) fun _ =>
        safe_setUpvalueValue _ _)
  | getProperty => exact .bind_name fun _ => throws_getProperty _
  | setProperty => exact .bind_name fun _ => (steady_setProperty _).throws
  | getSuper => exact .bind_name fun _ => (steady_getSuper _).throws
  | call => exact throws_call index
  | class_ => exact .bind_name fun _ => Safe.throws (.bind (safe_make _) fun _ => safe_push _)
  | method =>
      refine .bind_name fun _ => .bind (reads_peek 0) fun first => .bind (reads_peek 1) fun second => ?_
      split
      · exact .bind (reads_getClass _) fun _ =>
          Safe.throws (.bind (safe_setObject _ _) fun _ => safe_erase 1)
      · exact Safe.throws (.throw (by nofun))
  | _ => exact Safe.throws (.throw (by nofun))

theorem safe_jump (opcode : Opcode) (distance : Nat) :
    Safe (execute platform activation (.jump opcode distance)) := by
  cases opcode with
  | jump => exact safe_moveTo (jumpForward distance)
  | loop => exact safe_moveTo (jumpBackward distance)
  | jumpIfFalse =>
      refine .bind (safe_peek 0) fun value => ?_
      split
      · exact .pure _
      · exact safe_moveTo _
  | _ => exact .throw (by nofun)

theorem throws_execute (instr : Instr) : Throws platform instr.loses (execute platform activation instr) := by
  cases instr with
  | simple opcode => exact throws_executeSimple opcode
  | operand opcode index => exact throws_executeOperand index opcode
  | jump opcode distance => exact (safe_jump opcode distance).throws
  | closure constant captures =>
      exact Safe.throws (.bind (safe_functionAt _ _) fun _ => .bind (safe_make _) fun _ =>
        .bind (safe_push _) fun _ => safe_captureAll _ _)
  | unexpected byte => exact (reads_unexpectedOpcode _ _).steady.throws

/-- An iteration that throws a runtime error does so in the instruction it executes. -/
theorem step_failed (failed : step platform vm = .error (.runtimeError what) after) :
    ∃ frame callers closure function fetched, vm.callFrames = frame :: callers ∧
      vm.Fetches frame closure function fetched ∧
      execute platform fetched.activation fetched.instr (vm.advanced frame callers fetched.size) =
        .error (.runtimeError what) after := by
  have skip {A B : Type} {first : VmM N A} {rest : A → VmM N B} (reads : ReadOnly first)
      (safe : Safe first) (failed : (first >>= rest) vm = .error (.runtimeError what) after) :
      ∃ value, first vm = .ok value vm ∧ rest value vm = .error (.runtimeError what) after := by
    rcases VmM.bind_error.mp failed with failed | ⟨value, middle, runs, laterFailed⟩
    · exact absurd failed (safe _ _ _)
    · obtain rfl := reads.ok runs
      exact ⟨value, runs, laterFailed⟩
  obtain ⟨now, gets, failed⟩ := skip .get .get failed
  rw [(VmM.get_ok.mp gets).1] at failed
  cases frames : vm.callFrames with
  | nil =>
      rw [frames] at failed
      cases failed
  | cons frame callers =>
      rw [frames] at failed
      obtain ⟨closure, reads, failed⟩ := skip (reads_getClosure _) (safe_getClosure _) failed
      obtain ⟨function, laterReads, failed⟩ := skip (reads_getFunction _) (safe_getFunction _) failed
      have runs : vm.Runs frame closure function :=
        ⟨(getClosure_ok.mp reads).2, (getFunction_ok.mp laterReads).2⟩
      refine ⟨frame, callers, closure, function, ?_⟩
      dsimp only at failed
      split at failed
      · cases failed
      · cases decodes : decode (function.chunk.bytecode.drop frame.bytecodeIndex) with
        | none =>
            rw [decodes] at failed
            cases failed
        | some found =>
            cases atIndex : function.chunk.sourceMapTokens[frame.bytecodeIndex]? with
            | none =>
                rw [decodes, atIndex] at failed
                cases failed
            | some token =>
                rw [decodes, atIndex] at failed
                refine ⟨⟨found.1, found.2, frame.closure, frame.stackBeginIndex, function.chunk,
                  token⟩, rfl, ⟨runs, decodes, atIndex, rfl⟩, ?_⟩
                exact failed

/-- What an iteration that throws a runtime error leaves. -/
theorem step_error (failed : step platform vm = .error (.runtimeError what) after) :
    ∃ frame callers closure function fetched, vm.callFrames = frame :: callers ∧
      vm.Fetches frame closure function fetched ∧
      Fails platform (vm.advanced frame callers fetched.size) fetched.instr.loses after := by
  obtain ⟨frame, callers, closure, function, fetched, frames, fetches, failed⟩ := step_failed failed
  exact ⟨frame, callers, closure, function, fetched, frames, fetches, throws_execute _ _ _ _ failed⟩

/-- What is lost is the operand of a `getProperty`. -/
theorem Instr.loses_some {instr : Instr} {count : Nat} (some_ : count + 1 ≤ instr.loses) :
    count = 0 ∧ ∃ index, instr = .operand .getProperty index := by
  unfold Instr.loses at some_
  split at some_
  next index => exact ⟨by omega, index, rfl⟩
  next => omega

/-- An instruction that throws a runtime error has printed, assigned and changed nothing: at
most the operand of a `getProperty` is off the stack, and a string is new. -/
theorem error_unchanged (fails : step platform vm = .error (.runtimeError what) after) :
    after.output = vm.output ∧ after.globals = vm.globals ∧
    (∃ fetched, vm.fetch? = some fetched ∧ (after.stack = vm.stack ∨
      (∃ index, fetched.instr = .operand .getProperty index) ∧ after.stack = vm.stack.tail)) ∧
    after.callFrames.tail = vm.callFrames.tail ∧
    (∀ ptr object, vm.gcHeap.valueAt ptr = some object → after.gcHeap.valueAt ptr = some object) ∧
    ∀ ptr object, after.gcHeap.valueAt ptr = some object →
      vm.gcHeap.valueAt ptr = some object ∨ object = .string initName := by
  obtain ⟨frame, callers, closure, function, fetched, frames, fetches, count, few, middle, rfl⟩ :=
    step_error fails
  have fetched_ : vm.fetch? = some fetched := by
    rw [VM.fetch?_cons frames]
    exact VM.fetchFrom_some.mpr ⟨closure, function, fetches⟩
  have stack : vm.stack.drop count = vm.stack ∨
      (∃ index, fetched.instr = .operand .getProperty index) ∧ vm.stack.drop count = vm.stack.tail := by
    cases count with
    | zero => exact .inl rfl
    | succ count =>
        obtain ⟨rfl, property⟩ := Instr.loses_some few
        exact .inr ⟨property, List.drop_one⟩
  rcases middle with rfl | ⟨name, interns⟩
  · exact ⟨rfl, rfl, ⟨fetched, fetched_, stack⟩, by rw [frames]; rfl, fun _ _ => id, fun _ _ => .inl⟩
  · rcases intern_ok.mp interns with ⟨-, rfl⟩ | ⟨-, -, rfl⟩
    · exact ⟨rfl, rfl, ⟨fetched, fetched_, stack⟩, by rw [frames]; rfl, fun _ _ => id, fun _ _ => .inl⟩
    · refine ⟨rfl, rfl, ⟨fetched, fetched_, stack⟩, by rw [frames]; rfl, fun ptr object found => ?_,
        fun ptr object found => ?_⟩
      · have here : (vm.advanced frame callers fetched.size).gcHeap.valueAt ptr = some object := found
        exact valueAt_made_of here
      · exact made_old found

/-- A property that is not there: the instance is off the stack. -/
theorem error_unchanged_property :
    let vm : VM Int := demonstrate Platform.above 40 "class A {} A().x;".toList 4
    let after := final (step Platform.above) vm
    vm.stack.length = 1 ∧ after.stack = [] ∧ after.globals = vm.globals := by
  intro vm after
  have fails : step Platform.above vm =
      .error (.runtimeError "[Line 1] Error: Undefined property \"x\".".toList) after :=
    error_of_thrown (by decide +kernel)
  have height : vm.stack.length = 1 := by decide +kernel
  have none : after.stack.length = 0 := by decide +kernel
  exact ⟨height, List.length_eq_zero_iff.mp none, (error_unchanged fails).2.1⟩

end

end Cpplox
