import Cpplox.Compiler.Compile
import Cpplox.Data.TwoRuns
import Cpplox.Scanner.Spacing
import Mathlib.Data.List.Forall2

namespace Cpplox

open Data

/-! Two compilers that differ in lines only, and what they emit. -/

section

variable {K L : Type}

def SourceMapToken.withoutLine (token : SourceMapToken L) : SourceMapToken L := { token with line := 0 }

def Chunk.withoutLines (chunk : Chunk K L) : Chunk K L :=
  { chunk with sourceMapTokens := chunk.sourceMapTokens.map (·.withoutLine) }

def Function.withoutLines (function : Function K L) : Function K L :=
  { function with chunk := function.chunk.withoutLines }

end

variable {N α β : Type}

namespace Chunk

@[simp] theorem withoutLines_bytecode (chunk : Compiled N) :
    chunk.withoutLines.bytecode = chunk.bytecode := rfl

@[simp] theorem withoutLines_constants (chunk : Compiled N) :
    chunk.withoutLines.constants = chunk.constants := rfl

theorem withoutLines_emitByte (chunk : Compiled N) (byte : Nat) (token : SourceMapToken Text) :
    (chunk.emitByte byte token).withoutLines =
      chunk.withoutLines.emitByte byte token.withoutLine := by
  simp [withoutLines, emitByte]

theorem withoutLines_emit (chunk : Compiled N) (opcode : Opcode) (token : SourceMapToken Text) :
    (chunk.emit opcode token).withoutLines = chunk.withoutLines.emit opcode token.withoutLine :=
  withoutLines_emitByte _ _ _

theorem withoutLines_emitIndex (chunk : Compiled N) (opcode : Opcode) (index : Nat)
    (token : SourceMapToken Text) : (chunk.emitIndex opcode index token).map (·.withoutLines) =
      chunk.withoutLines.emitIndex opcode index token.withoutLine := by
  unfold emitIndex
  cases narrowByte index with
  | error error => rfl
  | ok byte => exact congrArg Except.ok (by simp only [withoutLines_emitByte])

theorem withoutLines_emitTrackedUpvalues (chunk : Compiled N) (upvalues : List TrackedUpvalue)
    (token : SourceMapToken Text) : (chunk.emitTrackedUpvalues upvalues token).map (·.withoutLines) =
      chunk.withoutLines.emitTrackedUpvalues upvalues token.withoutLine := by
  induction upvalues generalizing chunk with
  | nil => rfl
  | cons upvalue rest ih =>
      cases upvalue with
      | upvalueIndex index =>
          rw [emitTrackedUpvalues, emitTrackedUpvalues]
          cases narrowByte index with
          | error error => rfl
          | ok byte => exact (ih _).trans (by simp only [withoutLines_emitByte]; rfl)
      | upUpvalueIndex index =>
          rw [emitTrackedUpvalues, emitTrackedUpvalues]
          cases narrowByte index with
          | error error => rfl
          | ok byte => exact (ih _).trans (by simp only [withoutLines_emitByte]; rfl)

theorem withoutLines_toNextOpcode (chunk : Compiled N) (jumpBeginIndex : Nat) :
    (chunk.toNextOpcode jumpBeginIndex).map (·.withoutLines) =
      chunk.withoutLines.toNextOpcode jumpBeginIndex := by
  unfold toNextOpcode
  rw [withoutLines_bytecode]
  cases narrowShort (chunk.bytecode.length - jumpBeginIndex) with
  | error error => rfl
  | ok distance => rfl

theorem withoutLines_emitJump (chunk : Compiled N) (opcode : Opcode) (token : SourceMapToken Text) :
    ((chunk.emitJump opcode token).1.withoutLines, (chunk.emitJump opcode token).2) =
      chunk.withoutLines.emitJump opcode token.withoutLine := by
  simp only [emitJump, withoutLines_emitByte]
  rfl

theorem withoutLines_emitLoop (chunk : Compiled N) (loopBeginBytecodeIndex : Nat)
    (token : SourceMapToken Text) :
    (chunk.emitLoop loopBeginBytecodeIndex token).map (·.withoutLines) =
      chunk.withoutLines.emitLoop loopBeginBytecodeIndex token.withoutLine := by
  unfold emitLoop
  simp only [← withoutLines_emitByte, withoutLines_bytecode]
  cases narrowShort _ with
  | error error => rfl
  | ok distance => rfl

section

variable [Number N]

theorem withoutLines_emitWithConstant (chunk : Compiled N) (opcode : Opcode) (value : Constant N)
    (token : SourceMapToken Text) :
    (chunk.emitWithConstant opcode value token).map (·.withoutLines) =
      chunk.withoutLines.emitWithConstant opcode value token.withoutLine := by
  unfold emitWithConstant
  rw [withoutLines_constants]
  cases insertConstant chunk.constants value with
  | mk index constants =>
      dsimp only
      cases narrowByte index with
      | error error => rfl
      | ok byte => exact congrArg Except.ok (by simp only [withoutLines_emitByte]; rfl)

theorem withoutLines_emitClosure (chunk : Compiled N) (function : Nat)
    (upvalues : List TrackedUpvalue) (token : SourceMapToken Text) :
    (chunk.emitClosure function upvalues token).map (·.withoutLines) =
      chunk.withoutLines.emitClosure function upvalues token.withoutLine := by
  unfold emitClosure
  rw [withoutLines_constants]
  cases insertConstant chunk.constants (.function function) with
  | mk index constants =>
      dsimp only
      cases narrowByte index with
      | error error => rfl
      | ok byte =>
          cases narrowByte upvalues.length with
          | error error => rfl
          | ok count =>
              exact (withoutLines_emitTrackedUpvalues _ _ _).trans (by
                simp only [withoutLines_emitByte]
                rfl)

end

end Chunk

def SourceMapToken.Alike (one two : SourceMapToken Text) : Prop := one.withoutLine = two.withoutLine

theorem SourceMapToken.Alike.lines {lexeme : Text} {line otherLine : UInt32} :
    SourceMapToken.Alike ⟨lexeme, line⟩ ⟨lexeme, otherLine⟩ := rfl

/-- What is tracked, and the code without lines. -/
def FunctionChunk.Alike (one two : FunctionChunk (Chunk.Compiled N)) : Prop :=
  one.map (·.withoutLines) = two.map (·.withoutLines)

structure Compiler.Alike (one two : Compiler N) : Prop where
  gcHeap : one.gcHeap.map (·.withoutLines) = two.gcHeap.map (·.withoutLines)
  tokenIter : one.tokenIter.Alike two.tokenIter
  scopeDepth : one.scopeDepth = two.scopeDepth
  back : one.back.Alike two.back
  enclosing : one.enclosing.map (·.map (·.withoutLines)) =
    two.enclosing.map (·.map (·.withoutLines))

/-- Two actions that go together when the compilers differ in lines only. -/
abbrev Same (values : α → β → Prop) (one : CompileM N α) (two : CompileM N β) : Prop :=
  Agree Compiler.Alike values one two

namespace FunctionChunk.Alike

variable {one two : FunctionChunk (Chunk.Compiled N)}

theorem chunk (alike : one.Alike two) : one.chunk.withoutLines = two.chunk.withoutLines :=
  congrArg FunctionChunk.chunk alike

theorem trackedLocals (alike : one.Alike two) : one.trackedLocals = two.trackedLocals := by
  have same := congrArg FunctionChunk.trackedLocals alike
  exact same

theorem trackedUpvalues (alike : one.Alike two) : one.trackedUpvalues = two.trackedUpvalues := by
  have same := congrArg FunctionChunk.trackedUpvalues alike
  exact same

theorem isClassInitMethod (alike : one.Alike two) : one.isClassInitMethod = two.isClassInitMethod := by
  have same := congrArg FunctionChunk.isClassInitMethod alike
  exact same

theorem of_fields (chunk : one.chunk.withoutLines = two.chunk.withoutLines)
    (trackedLocals : one.trackedLocals = two.trackedLocals)
    (trackedUpvalues : one.trackedUpvalues = two.trackedUpvalues)
    (isClassInitMethod : one.isClassInitMethod = two.isClassInitMethod) : one.Alike two := by
  simp only [FunctionChunk.Alike, FunctionChunk.map, chunk, trackedLocals, trackedUpvalues,
    isClassInitMethod]

/-- With other code. -/
theorem emits (alike : one.Alike two) {chunk otherChunk : Chunk.Compiled N}
    (same : chunk.withoutLines = otherChunk.withoutLines) :
    FunctionChunk.Alike { one with chunk } { two with chunk := otherChunk } :=
  of_fields same alike.trackedLocals alike.trackedUpvalues alike.isClassInitMethod

/-- With other locals. -/
theorem tracks (alike : one.Alike two) (trackedLocals : List TrackedLocal) :
    FunctionChunk.Alike { one with trackedLocals } { two with trackedLocals } :=
  of_fields alike.chunk rfl alike.trackedUpvalues alike.isClassInitMethod

end FunctionChunk.Alike

/-- Tokens that differ in their lines only. -/
theorem unlined {P : Token → Token → Prop}
    (all : ∀ type lexeme line otherLine, P ⟨type, lexeme, line⟩ ⟨type, lexeme, otherLine⟩) {one two : Token}
    (type : two.type = one.type) (lexeme : two.lexeme = one.lexeme) : P one two := by
  obtain ⟨_, _, _⟩ := one
  obtain ⟨_, _, _⟩ := two
  cases type
  cases lexeme
  exact all _ _ _ _

namespace Same

section

variable {values : α → β → Prop} {rest : Token → CompileM N α} {otherRest : Token → CompileM N β}
  {opcode : Opcode} {type : TokenType} {lexeme : Text} {line otherLine : UInt32}

theorem optionally {one two : CompileM N Unit} (same : Same Eq one two) (condition : Bool) :
    Same Eq (optionally condition one) (optionally condition two) := by
  cases condition with
  | true => exact same
  | false => exact .pure rfl

theorem current (all : ∀ type lexeme line otherLine, Same values (rest ⟨type, lexeme, line⟩)
      (otherRest ⟨type, lexeme, otherLine⟩)) :
    Same values (current >>= rest) (current >>= otherRest) := fun before otherBefore alike =>
  unlined (P := fun one two => Same values (rest one) (otherRest two)) all alike.tokenIter.type
    alike.tokenIter.lexeme before otherBefore alike

theorem next (all : ∀ type lexeme line otherLine, Same values (rest ⟨type, lexeme, line⟩)
      (otherRest ⟨type, lexeme, otherLine⟩)) :
    Same values (next >>= rest) (next >>= otherRest) := by
  simp only [Cpplox.next, bind_assoc, pure_bind]
  refine .get fun before otherBefore alike => ?_
  refine (Agree.lift alike.tokenIter.advance).bind fun iter otherIter iters => ?_
  refine .set ⟨alike.gcHeap, iters, alike.scopeDepth, alike.back, alike.enclosing⟩ ?_
  exact unlined (P := fun one two => Same values (rest one) (otherRest two)) all alike.tokenIter.type
    alike.tokenIter.lexeme

theorem ensureTokenIs (expected : TokenType) :
    Both Eq (ensureTokenIs ⟨type, lexeme, line⟩ expected)
      (ensureTokenIs ⟨type, lexeme, otherLine⟩ expected) := by
  unfold Cpplox.ensureTokenIs
  dsimp only
  split
  · exact .returns rfl
  · exact .fails

theorem expectNext {expected : TokenType}
    (all : ∀ type lexeme line otherLine, Same values (rest ⟨type, lexeme, line⟩)
      (otherRest ⟨type, lexeme, otherLine⟩)) :
    Same values (expectNext expected >>= rest) (expectNext expected >>= otherRest) := by
  simp only [Cpplox.expectNext, bind_assoc, pure_bind]
  exact next fun type lexeme line otherLine => .skip (.lift (ensureTokenIs expected)) (all _ _ _ _)

theorem expectCurrent {expected : TokenType}
    (all : ∀ type lexeme line otherLine, Same values (rest ⟨type, lexeme, line⟩)
      (otherRest ⟨type, lexeme, otherLine⟩)) :
    Same values (expectCurrent expected >>= rest) (expectCurrent expected >>= otherRest) := by
  simp only [Cpplox.expectCurrent, bind_assoc]
  exact current fun type lexeme line otherLine => .skip (.lift (ensureTokenIs expected)) (next all)

theorem advanceIfMatch (type : TokenType) :
    Same Eq (advanceIfMatch type : CompileM N Bool) (Cpplox.advanceIfMatch type) := by
  refine current fun here _ _ _ => ?_
  dsimp only
  split
  · exact next fun _ _ _ _ => .pure rfl
  · exact .pure rfl

theorem found_or_missing {type : TokenType} {found missing : CompileM N α}
    {otherFound otherMissing : CompileM N β} (here : Same values found otherFound)
    (there : Same values missing otherMissing) :
    Same values (do if ← Cpplox.advanceIfMatch type then found else missing)
      (do if ← Cpplox.advanceIfMatch type then otherFound else otherMissing) := by
  refine (advanceIfMatch type).andThen fun matched => ?_
  cases matched with
  | true => exact here
  | false => exact there

theorem emitWith {emission otherEmission : Chunk.Compiled N → Except Error (Chunk.Compiled N)}
    (emits : ∀ chunk otherChunk, chunk.withoutLines = otherChunk.withoutLines →
      (emission chunk).map (·.withoutLines) = (otherEmission otherChunk).map (·.withoutLines)) :
    Same Eq (emitWith emission) (emitWith otherEmission) := by
  refine .get fun before otherBefore alike => ?_
  have same := emits _ _ alike.back.chunk
  have both : Both (fun one two => Chunk.withoutLines one = Chunk.withoutLines two)
      (emission before.back.chunk) (otherEmission otherBefore.back.chunk) := by
    generalize emission before.back.chunk = one at same
    generalize otherEmission otherBefore.back.chunk = two at same
    cases one with
    | error =>
        cases two with
        | error => exact .fails
        | ok => cases same
    | ok =>
        cases two with
        | error => cases same
        | ok => exact .returns (Except.ok.inj same)
  refine (Agree.lift both).bind fun chunk otherChunk chunks => ?_
  intro _ _ _
  exact .returns ⟨rfl, alike.gcHeap, alike.tokenIter, alike.scopeDepth, alike.back.emits chunks,
    alike.enclosing⟩

end

section

variable {token otherToken : SourceMapToken Text} (alike : token.Alike otherToken)

include alike

/-- What is emitted for a token depends on its line only by the source map. -/
theorem emission {emission : SourceMapToken Text → Chunk.Compiled N → Except Error (Chunk.Compiled N)}
    (emits : ∀ token chunk, (emission token chunk).map (·.withoutLines) =
      emission token.withoutLine chunk.withoutLines) :
    Same Eq (Cpplox.emitWith (emission token)) (Cpplox.emitWith (emission otherToken)) :=
  emitWith fun chunk otherChunk same => by rw [emits, emits, same, show token.withoutLine = _ from alike]

theorem emit (opcode : Opcode) :
    Same Eq (emit opcode token : CompileM N Unit) (Cpplox.emit opcode otherToken) := by
  have emits (token : SourceMapToken Text) (chunk : Chunk.Compiled N) :
      (Except.ok (chunk.emit opcode token) : Except Error _).map (·.withoutLines) =
        .ok (chunk.withoutLines.emit opcode token.withoutLine) :=
    congrArg Except.ok (chunk.withoutLines_emit opcode token)
  exact emission alike emits

theorem emitIndex (opcode : Opcode) (index : Nat) :
    Same Eq (emitIndex opcode index token : CompileM N Unit) (Cpplox.emitIndex opcode index otherToken) :=
  emission alike fun token chunk => chunk.withoutLines_emitIndex opcode index token

theorem emitCall (argCount : Nat) :
    Same Eq (emitCall argCount token : CompileM N Unit) (Cpplox.emitCall argCount otherToken) :=
  emission alike fun token chunk => chunk.withoutLines_emitIndex .call argCount token

theorem emitLoop (loopBeginBytecodeIndex : Nat) :
    Same Eq (emitLoop loopBeginBytecodeIndex token : CompileM N Unit)
      (Cpplox.emitLoop loopBeginBytecodeIndex otherToken) :=
  emission alike fun token chunk => chunk.withoutLines_emitLoop loopBeginBytecodeIndex token

theorem emitAll (opcodes : List Opcode) :
    Same Eq (emitAll opcodes token : CompileM N Unit) (Cpplox.emitAll opcodes otherToken) := by
  induction opcodes with
  | nil => exact .pure rfl
  | cons opcode rest ih => exact (emit alike opcode).skip ih

theorem emitJump (opcode : Opcode) :
    Same Eq (emitJump opcode token : CompileM N Nat) (Cpplox.emitJump opcode otherToken) := by
  intro before otherBefore compilers
  have one := before.back.chunk.withoutLines_emitJump opcode token
  have two := otherBefore.back.chunk.withoutLines_emitJump opcode otherToken
  rw [compilers.back.chunk, show token.withoutLine = _ from alike, ← two] at one
  obtain ⟨chunks, ends⟩ := Prod.ext_iff.mp one
  exact .returns ⟨ends, compilers.gcHeap, compilers.tokenIter, compilers.scopeDepth,
    compilers.back.emits chunks, compilers.enclosing⟩

theorem trackLocal (initialized : Bool) :
    Same Eq (trackLocal token initialized : CompileM N Unit) (Cpplox.trackLocal otherToken initialized) := by
  obtain ⟨lexeme, line⟩ := token
  obtain ⟨otherLexeme, otherLine⟩ := otherToken
  obtain rfl : lexeme = otherLexeme := by
    have same := congrArg SourceMapToken.lexeme alike
    exact same
  refine .get fun before otherBefore compilers => ?_
  rw [compilers.back.trackedLocals, compilers.scopeDepth]
  split
  · exact .throw
  · intro _ _ _
    exact .returns ⟨rfl, compilers.gcHeap, compilers.tokenIter, rfl, compilers.back.tracks _,
      compilers.enclosing⟩

theorem popLocals (depth : Nat) (locals : List TrackedLocal) :
    Same Eq (popLocals depth token locals : CompileM N Unit) (Cpplox.popLocals depth otherToken locals) := by
  induction locals with
  | nil => exact .pure rfl
  | cons tracked rest ih =>
      rw [Cpplox.popLocals, Cpplox.popLocals]
      split
      · refine (emit alike _).skip (Agree.skip (.modify fun before otherBefore compilers => ?_) ih)
        exact ⟨compilers.gcHeap, compilers.tokenIter, compilers.scopeDepth,
          compilers.back.tracks rest, compilers.enclosing⟩
      · exact .pure rfl

theorem popTopScopeDepth :
    Same Eq (popTopScopeDepth token : CompileM N Unit) (Cpplox.popTopScopeDepth otherToken) := by
  refine .get fun before otherBefore compilers => ?_
  rw [compilers.back.trackedLocals, compilers.scopeDepth]
  refine (popLocals alike _ _).skip (.modify fun before otherBefore compilers => ?_)
  exact ⟨compilers.gcHeap, compilers.tokenIter, congrArg (· - 1) compilers.scopeDepth,
    compilers.back, compilers.enclosing⟩

theorem emitDefaultReturnValue :
    Same Eq (emitDefaultReturnValue token : CompileM N Unit) (Cpplox.emitDefaultReturnValue otherToken) := by
  refine .get fun before otherBefore compilers => ?_
  rw [compilers.back.isClassInitMethod]
  split
  · have same : (thisToken token.line).Alike (thisToken otherToken.line) := rfl
    exact emitIndex same _ _
  · exact emit alike _

end

theorem toNextOpcode (jumpBeginIndex : Nat) :
    Same Eq (toNextOpcode jumpBeginIndex : CompileM N Unit) (Cpplox.toNextOpcode jumpBeginIndex) :=
  emitWith fun chunk otherChunk same => by
    rw [chunk.withoutLines_toNextOpcode, otherChunk.withoutLines_toNextOpcode, same]

theorem bytecodeSize : Same Eq (bytecodeSize : CompileM N Nat) Cpplox.bytecodeSize :=
  .get fun before otherBefore compilers => .pure (by
    have same := congrArg (fun chunk : Chunk.Compiled N => chunk.bytecode.length) compilers.back.chunk
    exact same)

theorem beginScope : Same Eq (beginScope : CompileM N Unit) Cpplox.beginScope :=
  .modify fun _ _ compilers => ⟨compilers.gcHeap, compilers.tokenIter,
    congrArg (· + 1) compilers.scopeDepth, compilers.back, compilers.enclosing⟩

theorem initializeBack : Same Eq (initializeBack : CompileM N Unit) Cpplox.initializeBack :=
  .modify fun before otherBefore compilers => ⟨compilers.gcHeap, compilers.tokenIter,
    compilers.scopeDepth, .of_fields compilers.back.chunk (by rw [compilers.back.trackedLocals])
      compilers.back.trackedUpvalues compilers.back.isClassInitMethod, compilers.enclosing⟩

/-- An action that is done in some scopes only. -/
theorem inScopes (scopes : Nat → Bool) {one two : CompileM N Unit} (same : Same Eq one two) :
    Same Eq (do Cpplox.optionally (scopes (← get).scopeDepth) one)
      (do Cpplox.optionally (scopes (← get).scopeDepth) two) :=
  .get fun before otherBefore compilers => by
    rw [compilers.scopeDepth]
    exact same.optionally _

theorem makeFunction {function otherFunction : Function (Constant N) Text}
    (same : function.withoutLines = otherFunction.withoutLines) :
    Same Eq (makeFunction function : CompileM N Nat) (Cpplox.makeFunction otherFunction) := by
  intro before otherBefore compilers
  have length := congrArg List.length compilers.gcHeap
  rw [List.length_map, List.length_map] at length
  refine .returns ⟨length, ?_, compilers.tokenIter, compilers.scopeDepth, compilers.back,
    compilers.enclosing⟩
  change (before.gcHeap ++ [function]).map _ = (otherBefore.gcHeap ++ [otherFunction]).map _
  rw [List.map_append, List.map_append, compilers.gcHeap]
  exact congrArg (_ ++ [·]) same

theorem inFunction {body otherBody : CompileM N Nat} (same : Same Eq body otherBody)
    (isClassInitMethod : Bool) :
    Same (fun one two : Nat × FunctionChunk (Chunk.Compiled N) => one.1 = two.1 ∧ one.2.Alike two.2)
      (inFunction isClassInitMethod body) (Cpplox.inFunction isClassInitMethod otherBody) := by
  refine Agree.skip (.modify fun before otherBefore compilers => ?_) ?_
  · exact ⟨compilers.gcHeap, compilers.tokenIter, congrArg (· + 1) compilers.scopeDepth, rfl,
      List.cons_eq_cons.mpr ⟨compilers.back, compilers.enclosing⟩⟩
  refine same.andThen fun result => .get fun before otherBefore compilers => ?_
  have outside := compilers.enclosing
  cases one : before.enclosing with
  | nil =>
      rw [one] at outside
      rw [List.map_eq_nil_iff.mp outside.symm]
      exact .throw
  | cons outer rest =>
      rw [one] at outside
      obtain ⟨otherOuter, otherRest, two, back, others⟩ := List.map_eq_cons_iff.mp outside.symm
      rw [two]
      refine .set ⟨compilers.gcHeap, compilers.tokenIter, congrArg (· - 1) compilers.scopeDepth,
        back.symm, others.symm⟩ (.pure ⟨rfl, compilers.back⟩)

section

variable [Number N] {token otherToken : SourceMapToken Text} (alike : token.Alike otherToken)

include alike

theorem emitName (opcode : Opcode) (name : Text) :
    Same Eq (emitName opcode name token : CompileM N Unit) (Cpplox.emitName opcode name otherToken) :=
  emission alike fun token chunk => chunk.withoutLines_emitWithConstant opcode (.string name) token

theorem emitConstant (value : Constant N) :
    Same Eq (emitConstant value token : CompileM N Unit) (Cpplox.emitConstant value otherToken) :=
  emission alike fun token chunk => chunk.withoutLines_emitWithConstant .constant value token

theorem emitFunction (name : Text) {compiled otherCompiled : Nat × FunctionChunk (Chunk.Compiled N)}
    (same : compiled.1 = otherCompiled.1 ∧ compiled.2.Alike otherCompiled.2) :
    Same Eq (emitFunction name compiled token) (Cpplox.emitFunction name otherCompiled otherToken) := by
  refine (makeFunction ?_).andThen fun index => ?_
  · simp only [Function.withoutLines, same.1, same.2.chunk]
  · rw [same.2.trackedUpvalues]
    exact emission alike fun token chunk => chunk.withoutLines_emitClosure index _ token

theorem defineGlobalAtTop (name : Text) :
    Same Eq (defineGlobalAtTop name token : CompileM N Unit) (Cpplox.defineGlobalAtTop name otherToken) :=
  inScopes (· = 0) (emitName alike _ _)

theorem emitGetterSetter (localOpcode upvalueOpcode globalOpcode : Opcode) :
    Same Eq (emitGetterSetter localOpcode upvalueOpcode globalOpcode token : CompileM N Unit)
      (Cpplox.emitGetterSetter localOpcode upvalueOpcode globalOpcode otherToken) := by
  have lexeme : token.lexeme = otherToken.lexeme := by
    have same := congrArg SourceMapToken.lexeme alike
    exact same
  refine .get fun before otherBefore compilers => ?_
  rw [compilers.back.trackedLocals, lexeme]
  cases findLocal otherBefore.back.trackedLocals otherToken.lexeme with
  | some found =>
      dsimp only
      split
      · exact emitIndex alike _ _
      · exact .throw
  | none =>
      have one := trackUpvalue_map Chunk.withoutLines otherToken.lexeme before.back before.enclosing
      have two := trackUpvalue_map Chunk.withoutLines otherToken.lexeme otherBefore.back otherBefore.enclosing
      rw [compilers.enclosing, show before.back.map Chunk.withoutLines = _ from compilers.back, two]
        at one
      dsimp only
      cases here : trackUpvalue otherToken.lexeme before.back before.enclosing with
      | none =>
          rw [here, Option.map_none, Option.map_eq_none_iff] at one
          rw [one]
          exact emitName alike _ _
      | some tracked =>
          rw [here] at one
          obtain ⟨otherTracked, there, same⟩ := Option.map_eq_some_iff.mp one
          rw [there]
          obtain ⟨index, back, enclosing⟩ := tracked
          obtain ⟨otherIndex, otherBack, otherEnclosing⟩ := otherTracked
          obtain ⟨rfl, backs, others⟩ := Prod.ext_iff.mp same |>.imp_right Prod.ext_iff.mp
          refine .set ⟨compilers.gcHeap, compilers.tokenIter, compilers.scopeDepth, backs.symm,
            others.symm⟩ (emitIndex alike _ _)

theorem emitGetter : Same Eq (emitGetter token : CompileM N Unit) (Cpplox.emitGetter otherToken) :=
  emitGetterSetter alike _ _ _

theorem emitSetter : Same Eq (emitSetter token : CompileM N Unit) (Cpplox.emitSetter otherToken) :=
  emitGetterSetter alike _ _ _

end

end Same

end Cpplox
