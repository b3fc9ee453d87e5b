import Cpplox.Ast.Derivation

namespace Cpplox

open Structured

namespace Lower

variable {N : Type}

/-! What each emit function of lowering leaves, when it does not fail. -/

theorem run_bind_some {first : LowerM N α} {rest : α → LowerM N β} {before after : Lower N}
    {result : β} : (first >>= rest).run before = some (result, after) ↔
      ∃ value middle, first.run before = some (value, middle) ∧
        (rest value).run middle = some (result, after) := by
  rw [StateT.run_bind, Option.bind_eq_bind, Option.bind_eq_some_iff]
  exact ⟨fun ⟨⟨value, middle⟩, runs, rests⟩ => ⟨value, middle, runs, rests⟩,
    fun ⟨value, middle, runs, rests⟩ => ⟨(value, middle), runs, rests⟩⟩

theorem run_get_bind_some {rest : Lower N → LowerM N β} {before after : Lower N} {result : β} :
    (get >>= rest).run before = some (result, after) ↔
      (rest before).run before = some (result, after) := Iff.rfl

def withConstants (lower : Lower N) (constants : List (Constant N)) : Lower N :=
  { lower with back := { lower.back with chunk := constants } }

theorem withConstants_self (lower : Lower N) : lower.withConstants lower.back.chunk = lower :=
  rfl

/-- The code of an instruction. -/
def plain (lower : Lower N) (instr : Instr) (token : SourceMapToken Text)
    (occurrence : Option Text) : LoweredCode :=
  .plain { instr, token, scopes := lower.scopes, occurrence }

variable {l final : Lower N} {code : LoweredCode} {opcode : Opcode} {token : SourceMapToken Text}
  {occurrence : Option Text}

theorem run_emitIndex {index : Nat} (small : index < 256) (occurrence : Option Text) :
    (emitIndex opcode index token occurrence).run l =
      some (l.plain (.operand opcode index) token occurrence, l) := by
  rw [emitIndex, if_pos small]
  rfl

theorem emitIndex_some {index : Nat}
    (runs : (emitIndex opcode index token occurrence).run l = some (code, final)) :
    code = l.plain (.operand opcode index) token occurrence ∧ final = l := by
  by_cases small : index < 256
  · rw [run_emitIndex small] at runs
    cases runs
    exact ⟨rfl, rfl⟩
  · rw [emitIndex, if_neg small] at runs
    cases runs

/-- The return value is `this` in an initializer. -/
theorem emitDefaultReturnValue_some
    (runs : (emitDefaultReturnValue token).run l = some (code, final)) :
    final = l ∧ ((l.back.isClassInitMethod = true ∧
        code = l.plain (.operand .getLocal 0) (thisToken token.line) none) ∨
      (l.back.isClassInitMethod = false ∧ code = l.simple .nil token)) := by
  rw [emitDefaultReturnValue, run_get_bind_some] at runs
  split at runs
  next initializer =>
      obtain ⟨rfl, rfl⟩ := emitIndex_some runs
      exact ⟨rfl, .inl ⟨initializer, rfl⟩⟩
  next ordinary =>
      cases runs
      exact ⟨rfl, .inr ⟨by simpa using ordinary, rfl⟩⟩

/-- The first of the new locals lies lowest. -/
def newLocals (lower : Lower N) (tokens : List (SourceMapToken Text)) : List TrackedLocal :=
  (tokens.map fun token => lower.newLocal token true).reverse

theorem trackAll_some {tokens : List (SourceMapToken Text)} {done : Unit}
    (runs : (trackAll tokens).run l = some (done, final)) :
    final = l.withLocals (l.newLocals tokens ++ l.back.trackedLocals) := by
  induction tokens generalizing l with
  | nil => cases runs; rfl
  | cons token rest ih =>
      obtain ⟨_, middle, tracks, runs⟩ := run_bind_some.mp runs
      obtain ⟨-, -, rfl⟩ := trackLocal_some tracks
      rw [ih runs]
      simp [withLocals, newLocals, newLocal]

theorem leaveFunction_some {compiled : FunctionChunk (List (Constant N))}
    (leaves : l.leaveFunction = some (compiled, final)) :
    compiled = l.back ∧ ∃ outer rest, l.enclosing = outer :: rest ∧
      final = { l with scopeDepth := l.scopeDepth - 1, back := outer, enclosing := rest } := by
  unfold leaveFunction at leaves
  split at leaves
  next => cases leaves
  next outer rest enclosing => cases leaves; exact ⟨rfl, outer, rest, enclosing, rfl⟩

def popOpcode (tracked : TrackedLocal) : Opcode :=
  if tracked.isCaptured then .closeUpvalue else .pop

/-- The code that pops the locals of a depth. -/
def pops (lower : Lower N) (depth : Nat) (token : SourceMapToken Text) :
    List TrackedLocal → LoweredCode
  | [] => .nil
  | tracked :: rest =>
      if tracked.depth = depth then
        .seq ((lower.withLocals (tracked :: rest)).simple (popOpcode tracked) token)
          (lower.pops depth token rest)
      else .nil

/-- The locals that stay. -/
def outerLocals (depth : Nat) : List TrackedLocal → List TrackedLocal
  | [] => []
  | tracked :: rest => if tracked.depth = depth then outerLocals depth rest else tracked :: rest

theorem run_popLocals (l : Lower N) (depth : Nat) (token : SourceMapToken Text)
    (locals : List TrackedLocal) :
    (popLocals depth token locals).run (l.withLocals locals) =
      some (l.pops depth token locals, l.withLocals (outerLocals depth locals)) := by
  induction locals with
  | nil => rfl
  | cons tracked rest ih =>
      simp only [popLocals, pops, outerLocals]
      split
      next here =>
          have modifies : (modify fun lower : Lower N =>
              { lower with back := { lower.back with trackedLocals := rest } } :
                LowerM N Unit).run (l.withLocals (tracked :: rest)) =
              some ((), l.withLocals rest) := rfl
          simp only [StateT.run_bind, run_emit, Option.bind_eq_bind, Option.bind_some, modifies, ih]
          rfl
      next => rfl

theorem popTopScopeDepth_some (runs : (popTopScopeDepth token).run l = some (code, final)) :
    code = l.pops l.scopeDepth token l.back.trackedLocals ∧
      final = { l.withLocals (outerLocals l.scopeDepth l.back.trackedLocals) with
        scopeDepth := l.scopeDepth - 1 } := by
  rw [popTopScopeDepth, run_get_bind_some] at runs
  obtain ⟨popped, middle, pops, runs⟩ := run_bind_some.mp runs
  have all := run_popLocals l l.scopeDepth token l.back.trackedLocals
  rw [show l.withLocals l.back.trackedLocals = l from rfl, pops] at all
  cases all
  cases runs
  exact ⟨rfl, rfl⟩

theorem trackDeclared_some {initialized : Bool}
    (runs : (trackDeclared token initialized).run l = some (code, final)) :
    (0 < l.scopeDepth ∧ (trackLocal token initialized).run l = some (code, final)) ∨
      (l.scopeDepth = 0 ∧ code = .nil ∧ final = l) := by
  rw [trackDeclared, run_get_bind_some] at runs
  split at runs
  next inside => exact .inl ⟨inside, runs⟩
  next top => cases runs; exact .inr ⟨by omega, rfl, rfl⟩

/-- The latest local with its value in place. -/
def initializeHead : List TrackedLocal → List TrackedLocal
  | [] => []
  | tracked :: rest => { tracked with initialized := true } :: rest

theorem initializeDeclared_some (runs : initializeDeclared.run l = some (code, final)) :
    (0 < l.scopeDepth ∧ ∃ tracked rest, l.back.trackedLocals = tracked :: rest ∧
        code = .mark (.tracked { tracked with initialized := true }) ∧
        final = l.withLocals ({ tracked with initialized := true } :: rest)) ∨
      ((0 < l.scopeDepth → l.back.trackedLocals = []) ∧ code = .nil ∧ final = l) := by
  rw [initializeDeclared, run_get_bind_some] at runs
  split at runs
  next inside =>
      rw [initializeBack, run_get_bind_some] at runs
      split at runs
      next none => cases runs; exact .inr ⟨fun _ => none, rfl, rfl⟩
      next tracked rest locals => cases runs; exact .inl ⟨inside, tracked, rest, locals, rfl, rfl⟩
  next top => cases runs; exact .inr ⟨fun inside => absurd inside top, rfl, rfl⟩

theorem pushPlaceholder_some (runs : pushPlaceholder.run l = some (code, final)) :
    (l.scopeDepth = 0 ∧ code = .mark (.tracked { name := [] }) ∧
        final = l.withLocals ({ name := [] } :: l.back.trackedLocals)) ∨
      (0 < l.scopeDepth ∧ code = .nil ∧ final = l) := by
  rw [pushPlaceholder, run_get_bind_some] at runs
  split at runs
  next top => cases runs; exact .inl ⟨top, rfl, rfl⟩
  next inside => cases runs; exact .inr ⟨by omega, rfl, rfl⟩

theorem popPlaceholder_some (runs : popPlaceholder.run l = some (code, final)) :
    (l.scopeDepth = 0 ∧ code = .mark .untracked ∧ final = l.withLocals l.back.trackedLocals.tail) ∨
      (0 < l.scopeDepth ∧ code = .nil ∧ final = l) := by
  rw [popPlaceholder, run_get_bind_some] at runs
  split at runs
  next top => cases runs; exact .inl ⟨top, rfl, rfl⟩
  next inside => cases runs; exact .inr ⟨by omega, rfl, rfl⟩

/-- Popping the class and the scope of `super`. -/
theorem endSuperclass_some {superclass : Token}
    (runs : (endSuperclass superclass).run l = some (code, final)) :
    ∃ scope placeholder l₁,
      (popTopScopeDepth (superTokenAt superclass.line)).run l = some (scope, l₁) ∧
      popPlaceholder.run l₁ = some (placeholder, final) ∧
      code = .seq (l.simple .pop (sourceMapToken superclass)) (.seq scope placeholder) := by
  obtain ⟨_, _, pop, runs⟩ := run_bind_some.mp runs
  rw [run_emit] at pop
  cases pop
  obtain ⟨scope, l₁, scopes, runs⟩ := run_bind_some.mp runs
  obtain ⟨placeholder, _, pops, runs⟩ := run_bind_some.mp runs
  cases runs
  exact ⟨scope, placeholder, l₁, scopes, pops, rfl⟩

variable [Number N]

def withConstant (lower : Lower N) (value : Constant N) : Lower N :=
  lower.withConstants (insertConstant lower.back.chunk value).2

theorem run_constant (lower : Lower N) (value : Constant N) :
    (constant value).run lower =
      some ((insertConstant lower.back.chunk value).1, lower.withConstant value) := rfl

theorem run_emitWithConstant {value : Constant N}
    (small : (insertConstant l.back.chunk value).1 < 256) (occurrence : Option Text) :
    (emitWithConstant opcode value token occurrence).run l =
      some ((l.withConstant value).plain
        (.operand opcode (insertConstant l.back.chunk value).1) token occurrence,
        l.withConstant value) := by
  simp only [emitWithConstant, StateT.run_bind, run_constant, Option.bind_eq_bind,
    Option.bind_some]
  exact run_emitIndex small occurrence

theorem emitWithConstant_some {value : Constant N}
    (runs : (emitWithConstant opcode value token occurrence).run l = some (code, final)) :
    code = final.plain (.operand opcode (insertConstant l.back.chunk value).1) token occurrence ∧
      final = l.withConstant value := by
  obtain ⟨index, middle, makes, runs⟩ := run_bind_some.mp runs
  rw [run_constant] at makes
  cases makes
  obtain ⟨rfl, rfl⟩ := emitIndex_some runs
  exact ⟨rfl, rfl⟩

theorem defineGlobalAtTop_some {name : Text}
    (runs : (defineGlobalAtTop name token).run l = some (code, final)) :
    (l.scopeDepth = 0 ∧ (emitName .defineGlobal name token).run l = some (code, final)) ∨
      (0 < l.scopeDepth ∧ code = .nil ∧ final = l) := by
  rw [defineGlobalAtTop, run_get_bind_some] at runs
  split at runs
  next top => exact .inl ⟨top, runs⟩
  next inside => cases runs; exact .inr ⟨by omega, rfl, rfl⟩

/-- The three ways of an occurrence. -/
inductive Accesses (l : Lower N) (localOpcode upvalueOpcode globalOpcode : Opcode)
    (token : SourceMapToken Text) : LoweredCode → Lower N → Prop
  | local_ {index : Nat} {tracked : TrackedLocal} :
      findLocal l.back.trackedLocals token.lexeme = some (index, tracked) →
      tracked.initialized = true →
      Accesses l localOpcode upvalueOpcode globalOpcode token
        (l.plain (.operand localOpcode index) token (some token.lexeme)) l
  | upvalue {index : Nat} {back : FunctionChunk (List (Constant N))}
      {enclosing : List (FunctionChunk (List (Constant N)))} :
      findLocal l.back.trackedLocals token.lexeme = none →
      trackUpvalue token.lexeme l.back l.enclosing = some (index, back, enclosing) →
      Accesses l localOpcode upvalueOpcode globalOpcode token
        (({ l with back, enclosing } : Lower N).plain (.operand upvalueOpcode index) token
          (some token.lexeme)) { l with back, enclosing }
  | global :
      findLocal l.back.trackedLocals token.lexeme = none →
      trackUpvalue token.lexeme l.back l.enclosing = none →
      Accesses l localOpcode upvalueOpcode globalOpcode token
        ((l.withConstant (.string token.lexeme)).plain
          (.operand globalOpcode (insertConstant l.back.chunk (.string token.lexeme)).1) token
          (some token.lexeme)) (l.withConstant (.string token.lexeme))

theorem emitGetterSetter_some {localOpcode upvalueOpcode globalOpcode : Opcode}
    (runs : (emitGetterSetter localOpcode upvalueOpcode globalOpcode token).run l =
      some (code, final)) :
    token.lexeme ≠ [] ∧ Accesses l localOpcode upvalueOpcode globalOpcode token code final := by
  rw [emitGetterSetter, run_get_bind_some] at runs
  dsimp only at runs
  split at runs
  next => cases runs
  next named =>
      refine ⟨named, ?_⟩
      split at runs
      next index tracked found =>
          split at runs
          next initialized =>
              obtain ⟨rfl, rfl⟩ := emitIndex_some runs
              exact .local_ found initialized
          next => cases runs
      next missing =>
          split at runs
          next index back enclosing tracks =>
              obtain ⟨_, middle, sets, runs⟩ := run_bind_some.mp runs
              cases sets
              obtain ⟨rfl, rfl⟩ := emitIndex_some runs
              exact .upvalue missing tracks
          next untracked =>
              obtain ⟨rfl, rfl⟩ := emitWithConstant_some runs
              exact .global missing untracked

/-- Making a function and emitting its closure. -/
def withFunction (lower : Lower N) (function : LoweredFunction N) : Lower N :=
  ({ lower with functions := lower.functions ++ [function] } : Lower N).withConstant
    (.function lower.functions.length)

theorem emitFunction_some {function : LoweredFunction N} {leading : Bool}
    (runs : (emitFunction function token leading).run l = some (code, final)) :
    final = l.withFunction function ∧ code = .plain {
      instr := .closure (insertConstant l.back.chunk (.function l.functions.length)).1
        function.captures
      token, scopes := final.scopes, leading } := by
  rw [emitFunction, run_get_bind_some] at runs
  obtain ⟨_, made, sets, runs⟩ := run_bind_some.mp runs
  cases sets
  obtain ⟨index, middle, makes, runs⟩ := run_bind_some.mp runs
  rw [run_constant] at makes
  cases makes
  split at runs
  next => cases runs; exact ⟨rfl, rfl⟩
  next => cases runs

/-- The reads of an assignment to a property, and the write at its end. -/
inductive FollowsPath : Lower N → List Token → LoweredCode → Lower N → Prop
  | last {l final : Lower N} {name : Token} {code : LoweredCode} :
      (emitName .setProperty name.lexeme (sourceMapToken name)).run l = some (code, final) →
      FollowsPath l [name] code final
  | step {l l₁ l₂ : Lower N} {name next : Token} {names : List Token} {first rest : LoweredCode} :
      (emitName .getProperty name.lexeme (sourceMapToken name)).run l = some (first, l₁) →
      FollowsPath l₁ (next :: names) rest l₂ →
      FollowsPath l (name :: next :: names) (.seq first rest) l₂

theorem emitPropertyPath_some {name : Token} {names : List Token}
    (runs : (emitPropertyPath (name :: names)).run l = some (code, final)) :
    FollowsPath l (name :: names) code final := by
  induction names generalizing l name code with
  | nil => exact .last runs
  | cons next rest ih =>
      obtain ⟨first, l₁, reads, runs⟩ := run_bind_some.mp runs
      obtain ⟨path, _, follows, runs⟩ := run_bind_some.mp runs
      cases runs
      exact .step reads (ih follows)

theorem emitAssignment_some {target : Token} {names : List Token}
    (runs : (emitAssignment target names).run l = some (code, final)) :
    (names = [] ∧ (emitSetter (sourceMapToken target)).run l = some (code, final)) ∨
      ∃ object path l₁, (emitGetter (sourceMapToken target)).run l = some (object, l₁) ∧
        FollowsPath l₁ names path final ∧ code = .seq object path := by
  cases names with
  | nil =>
      rw [emitAssignment] at runs
      split at runs
      next => cases runs
      next => exact .inl ⟨rfl, runs⟩
  | cons name rest =>
      obtain ⟨object, l₁, reads, runs⟩ := run_bind_some.mp runs
      obtain ⟨path, _, follows, runs⟩ := run_bind_some.mp runs
      cases runs
      exact .inr ⟨object, path, l₁, reads, emitPropertyPath_some follows, rfl⟩

/-- The slot of the superclass becomes `super`. -/
theorem beginSuperclass_some {name superclass : Token}
    (runs : (beginSuperclass name superclass).run l = some (code, final)) :
    ∃ placeholder parent declared l₁ l₂,
      pushPlaceholder.run l = some (placeholder, l₁) ∧
      (emitGetter (sourceMapToken superclass)).run l₁.enterScope = some (parent, l₂) ∧
      (trackLocal (superTokenAt superclass.line)).run l₂ = some (declared, final) ∧
      code = .seq placeholder (.seq parent (.seq declared
        (final.simple .inherit (sourceMapToken superclass)))) := by
  rw [beginSuperclass] at runs
  split at runs
  next => cases runs
  next =>
      obtain ⟨placeholder, l₁, pushes, runs⟩ := run_bind_some.mp runs
      obtain ⟨_, _, begins, runs⟩ := run_bind_some.mp runs
      rw [run_beginScope] at begins
      cases begins
      obtain ⟨parent, l₂, gets, runs⟩ := run_bind_some.mp runs
      obtain ⟨declared, l₃, tracks, runs⟩ := run_bind_some.mp runs
      obtain ⟨_, _, inherits, runs⟩ := run_bind_some.mp runs
      rw [run_emit] at inherits
      cases inherits
      cases runs
      exact ⟨placeholder, parent, declared, l₁, l₂, pushes, gets, tracks, rfl⟩

end Lower

end Cpplox
