import Cpplox.Ast.Emits
import Cpplox.Compiler.Compile

namespace Cpplox

/-! The compiler's actions that read no tokens. -/

/-- The static checks, and operands that do not fit. -/
inductive IsStatic : Error → Prop where
  | redeclared (token : SourceMapToken Text) : IsStatic (redeclaredError token)
  | ownInitializer (token : SourceMapToken Text) : IsStatic (ownInitializerError token)
  | topLevelReturn (line : UInt32) : IsStatic (topLevelReturnError line)
  | initializerReturn (line : UInt32) : IsStatic (initializerReturnError line)
  | selfInheritance (line : UInt32) : IsStatic (selfInheritanceError line)
  | narrowing : IsStatic .narrowingError

variable {N α β : Type}

def Quietly (before : Compiler N) : Except Error (α × Compiler N) → Prop
  | .ok (_, after) => after.tokenIter = before.tokenIter ∧
      after.enclosing.length = before.enclosing.length
  | .error error => IsStatic error

/-- The action reads no token, stays in its function, and fails only statically. -/
def Quiet (action : CompileM N α) : Prop := ∀ before : Compiler N, Quietly before (action.run before)

/-- What is quiet after a change that reads no token is so before it. -/
theorem Quietly.before {before middle : Compiler N} {result : Except Error (α × Compiler N)}
    (iter : middle.tokenIter = before.tokenIter)
    (length : middle.enclosing.length = before.enclosing.length) (quietly : Quietly middle result) :
    Quietly before result := by
  cases result with
  | error error => exact quietly
  | ok pair => exact ⟨quietly.1.trans iter, quietly.2.trans length⟩

namespace Quiet

theorem pure (value : α) : Quiet (pure value : CompileM N α) := fun _ => ⟨rfl, rfl⟩

theorem throw {error : Error} (static : IsStatic error) : Quiet (throw error : CompileM N α) :=
  fun _ => static

theorem get : Quiet (get : CompileM N (Compiler N)) := fun _ => ⟨rfl, rfl⟩

theorem modify {change : Compiler N → Compiler N}
    (same : ∀ compiler, (change compiler).tokenIter = compiler.tokenIter)
    (length : ∀ compiler, (change compiler).enclosing.length = compiler.enclosing.length) :
    Quiet (modify change) :=
  fun before => ⟨same before, length before⟩

theorem bind {first : CompileM N α} {rest : α → CompileM N β} (one : Quiet first)
    (two : ∀ value, Quiet (rest value)) : Quiet (first >>= rest) := by
  intro before
  have here := one before
  rw [StateT.run_bind]
  cases runs : first.run before with
  | error error => rwa [runs] at here
  | ok result =>
      obtain ⟨value, middle⟩ := result
      rw [runs] at here
      exact (two value middle).before here.1 here.2

/-- A change of the current function. -/
theorem withBack (change : Compiler N → FunctionChunk (Chunk.Compiled N)) :
    Quiet (MonadState.modifyGet fun compiler => ((), { compiler with back := change compiler })) :=
  fun _ => ⟨rfl, rfl⟩

/-- The state that was read is the one before. -/
theorem of_get {rest : Compiler N → CompileM N α}
    (reads : ∀ before, Quietly before ((rest before).run before)) :
    Quiet (MonadState.get >>= rest) := reads

theorem optionally {action : CompileM N Unit} (quiet : Quiet action) (condition : Bool) :
    Quiet (optionally condition action) := by
  cases condition with
  | true => exact quiet
  | false => exact .pure ()

theorem iter {action : CompileM N α} (quiet : Quiet action) {before after : Compiler N} {value : α}
    (runs : action.run before = .ok (value, after)) : after.tokenIter = before.tokenIter := by
  have here := quiet before
  rw [runs] at here
  exact here.1

end Quiet

theorem narrowByte_error {value : Nat} {error : Error} (fails : narrowByte value = .error error) :
    error = .narrowingError := by
  unfold narrowByte at fails
  split at fails
  · cases fails
  · cases fails; rfl

theorem narrowShort_error {value : Nat} {error : Error} (fails : narrowShort value = .error error) :
    error = .narrowingError := by
  unfold narrowShort at fails
  split at fails
  · cases fails
  · cases fails; rfl

theorem except_bind_error {first : Except Error α} {rest : α → Except Error β} {error : Error} :
    (first >>= rest) = .error error ↔
      first = .error error ∨ ∃ value, first = .ok value ∧ rest value = .error error := by
  cases first <;> simp [bind, Except.bind]

/-- The emission fails only by narrowing. -/
def Narrows (emission : Except Error α) : Prop :=
  ∀ error, emission = .error error → error = .narrowingError

theorem Narrows.ok (value : α) : Narrows (.ok value : Except Error α) := nofun

theorem Narrows.bind {first : Except Error α} {rest : α → Except Error β} (one : Narrows first)
    (two : ∀ value, Narrows (rest value)) : Narrows (first >>= rest) := by
  intro error fails
  rcases except_bind_error.mp fails with here | ⟨value, -, later⟩
  · exact one error here
  · exact two value error later

theorem narrows_byte (value : Nat) : Narrows (narrowByte value) := fun _ => narrowByte_error

theorem narrows_short (value : Nat) : Narrows (narrowShort value) := fun _ => narrowShort_error

variable {chunk : Chunk.Compiled N} {opcode : Opcode} {token : SourceMapToken Text}

theorem narrows_emitIndex (index : Nat) : Narrows (chunk.emitIndex opcode index token) :=
  (narrows_byte index).bind fun _ => .ok _

theorem narrows_emitTrackedUpvalues (upvalues : List TrackedUpvalue) :
    Narrows (chunk.emitTrackedUpvalues upvalues token) := by
  induction upvalues generalizing chunk with
  | nil => exact .ok _
  | cons upvalue rest ih =>
      cases upvalue <;> exact (narrows_byte _).bind fun _ => ih

theorem narrows_emitWithConstant [Number N] (value : Constant N) :
    Narrows (chunk.emitWithConstant opcode value token) :=
  (narrows_byte _).bind fun _ => .ok _

theorem narrows_emitClosure [Number N] (function : Nat) (upvalues : List TrackedUpvalue) :
    Narrows (chunk.emitClosure function upvalues token) :=
  (narrows_byte _).bind fun _ => (narrows_byte _).bind fun _ => narrows_emitTrackedUpvalues _

theorem narrows_toNextOpcode (jumpBeginIndex : Nat) : Narrows (chunk.toNextOpcode jumpBeginIndex) :=
  (narrows_short _).bind fun _ => .ok _

theorem narrows_emitLoop (loopBegin : Nat) : Narrows (chunk.emitLoop loopBegin token) :=
  (narrows_short _).bind fun _ => .ok _

theorem quiet_emitWith {emission : Chunk.Compiled N → Except Error (Chunk.Compiled N)}
    (narrows : ∀ chunk, Narrows (emission chunk)) : Quiet (emitWith emission) := by
  refine .of_get fun before => ?_
  cases runs : emission before.back.chunk with
  | ok chunk => exact ⟨rfl, rfl⟩
  | error error =>
      change IsStatic error
      rw [narrows _ _ runs]
      exact .narrowing

theorem quiet_emit (opcode : Opcode) (token : SourceMapToken Text) :
    Quiet (emit opcode token : CompileM N Unit) := quiet_emitWith fun _ => .ok _

theorem quiet_emitIndex (opcode : Opcode) (index : Nat) (token : SourceMapToken Text) :
    Quiet (emitIndex opcode index token : CompileM N Unit) :=
  quiet_emitWith fun _ => narrows_emitIndex index

theorem quiet_emitCall (argCount : Nat) (token : SourceMapToken Text) :
    Quiet (emitCall argCount token : CompileM N Unit) :=
  quiet_emitWith fun _ => narrows_emitIndex argCount

theorem quiet_emitJump (opcode : Opcode) (token : SourceMapToken Text) :
    Quiet (emitJump opcode token : CompileM N Nat) := .of_get fun _ => ⟨rfl, rfl⟩

theorem quiet_toNextOpcode (jumpBeginIndex : Nat) :
    Quiet (toNextOpcode jumpBeginIndex : CompileM N Unit) :=
  quiet_emitWith fun _ => narrows_toNextOpcode jumpBeginIndex

theorem quiet_emitLoop (loopBegin : Nat) (token : SourceMapToken Text) :
    Quiet (emitLoop loopBegin token : CompileM N Unit) :=
  quiet_emitWith fun _ => narrows_emitLoop loopBegin

theorem quiet_emitAll (opcodes : List Opcode) (token : SourceMapToken Text) :
    Quiet (emitAll opcodes token : CompileM N Unit) := by
  induction opcodes with
  | nil => exact .pure ()
  | cons opcode rest ih => exact (quiet_emit _ _).bind fun _ => ih

theorem quiet_bytecodeSize : Quiet (bytecodeSize : CompileM N Nat) := Quiet.get.bind fun _ => .pure _

theorem quiet_beginScope : Quiet (beginScope : CompileM N Unit) := .modify (fun _ => rfl) fun _ => rfl

theorem quiet_initializeBack : Quiet (initializeBack : CompileM N Unit) :=
  .modify (fun _ => rfl) fun _ => rfl

theorem quiet_trackLocal (identifierToken : SourceMapToken Text) (initialized : Bool) :
    Quiet (trackLocal identifierToken initialized : CompileM N Unit) := by
  refine .of_get fun before => ?_
  split
  · exact .redeclared identifierToken
  · exact ⟨rfl, rfl⟩

theorem quiet_popLocals (depth : Nat) (token : SourceMapToken Text) (locals : List TrackedLocal) :
    Quiet (popLocals depth token locals : CompileM N Unit) := by
  induction locals with
  | nil => exact .pure ()
  | cons tracked rest ih =>
      rw [popLocals]
      split
      · exact (quiet_emit _ _).bind fun _ => .bind (.withBack _) fun _ => ih
      · exact .pure ()

theorem quiet_popTopScopeDepth (token : SourceMapToken Text) :
    Quiet (popTopScopeDepth token : CompileM N Unit) :=
  Quiet.get.bind fun _ => (quiet_popLocals _ _ _).bind fun _ => .modify (fun _ => rfl) fun _ => rfl

theorem quiet_makeFunction (function : Function (Constant N) Text) :
    Quiet (makeFunction function) := .of_get fun _ => ⟨rfl, rfl⟩

section

variable [Number N]

theorem quiet_emitName (opcode : Opcode) (name : Text) (token : SourceMapToken Text) :
    Quiet (emitName opcode name token : CompileM N Unit) :=
  quiet_emitWith fun _ => narrows_emitWithConstant _

theorem quiet_emitConstant (value : Constant N) (token : SourceMapToken Text) :
    Quiet (emitConstant value token) := quiet_emitWith fun _ => narrows_emitWithConstant _

theorem quiet_emitClosure (function : Nat) (upvalues : List TrackedUpvalue)
    (token : SourceMapToken Text) : Quiet (emitClosure function upvalues token : CompileM N Unit) :=
  quiet_emitWith fun _ => narrows_emitClosure _ _

theorem quiet_emitGetterSetter (localOpcode upvalueOpcode globalOpcode : Opcode)
    (token : SourceMapToken Text) :
    Quiet (emitGetterSetter localOpcode upvalueOpcode globalOpcode token : CompileM N Unit) := by
  refine .of_get fun before => ?_
  split
  · split
    · exact quiet_emitIndex _ _ _ before
    · exact .ownInitializer token
  · split
    next index back enclosing tracks =>
        have chunks := congrArg List.length (trackUpvalue_chunks tracks).2
        simp only [List.length_map] at chunks
        have emits := quiet_emitIndex upvalueOpcode index token { before with back, enclosing }
        refine Quietly.before ?_ ?_ emits
        · rfl
        · exact chunks
    next => exact quiet_emitName _ _ _ before

theorem quiet_emitGetter (token : SourceMapToken Text) :
    Quiet (emitGetter token : CompileM N Unit) := quiet_emitGetterSetter _ _ _ _

theorem quiet_emitSetter (token : SourceMapToken Text) :
    Quiet (emitSetter token : CompileM N Unit) := quiet_emitGetterSetter _ _ _ _

theorem quiet_emitPropertyPath (names : List Token) :
    Quiet (emitPropertyPath names : CompileM N Unit) := by
  induction names with
  | nil => exact .pure ()
  | cons name rest ih =>
      cases rest with
      | nil => exact quiet_emitName _ _ _
      | cons => exact (quiet_emitName _ _ _).bind fun _ => ih

/-- But for an assignment to `this`. -/
theorem quiet_emitAssignment {target equalToken : Token} {names : List Token}
    (other : names ≠ [] ∨ target.lexeme ≠ thisName) :
    Quiet (emitAssignment target equalToken names : CompileM N Unit) := by
  unfold emitAssignment
  split
  · rw [if_neg (other.resolve_left fun nonempty => nonempty rfl)]
    exact quiet_emitSetter _
  · exact (quiet_emitGetter _).bind fun _ => quiet_emitPropertyPath _

omit [Number N] in
theorem quiet_emitDefaultReturnValue (token : SourceMapToken Text) :
    Quiet (emitDefaultReturnValue token : CompileM N Unit) := by
  refine Quiet.get.bind fun compiler => ?_
  split
  · exact quiet_emitIndex _ _ _
  · exact quiet_emit _ _

theorem quiet_emitFunction (name : Text) (compiled : Nat × FunctionChunk (Chunk.Compiled N))
    (token : SourceMapToken Text) : Quiet (emitFunction name compiled token) :=
  (quiet_makeFunction _).bind fun _ => quiet_emitClosure _ _ _

theorem quiet_defineGlobalAtTop (name : Text) (token : SourceMapToken Text) :
    Quiet (defineGlobalAtTop name token : CompileM N Unit) :=
  Quiet.get.bind fun _ => (quiet_emitName _ _ _).optionally _

theorem quiet_beginSuperclass (classNameToken superclassNameToken : Token) :
    Quiet (beginSuperclass classNameToken superclassNameToken : CompileM N Unit) := by
  unfold beginSuperclass
  dsimp only
  split
  · exact .throw (.selfInheritance _)
  · refine Quiet.get.bind fun _ => .bind (.optionally (.withBack _) _)
      fun _ => ?_
    exact quiet_beginScope.bind fun _ => (quiet_emitGetter _).bind fun _ =>
        (quiet_trackLocal _ _).bind fun _ => quiet_emit _ _

omit [Number N] in
theorem quiet_endSuperclass (superclassNameToken : Token) :
    Quiet (endSuperclass superclassNameToken : CompileM N Unit) :=
  (quiet_emit _ _).bind fun _ => (quiet_popTopScopeDepth _).bind fun _ =>
    Quiet.get.bind fun _ => .optionally (.withBack _) _

end

end Cpplox
