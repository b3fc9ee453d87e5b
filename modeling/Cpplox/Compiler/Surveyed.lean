import Cpplox.Compiler.Survey
import Cpplox.Grammar.Quiet
import Cpplox.Scanner.Tokenize

namespace Cpplox

open TokenIterator
open Survey (fitsAfter)

/-! The survey sees what the compiler does, up to an operand that does not fit. -/

variable {N α β : Type}

def Chunk.extent (chunk : Chunk.Compiled N) : Extent N := ⟨chunk.constants, chunk.bytecode.length⟩

def Compiler.survey (compiler : Compiler N) : Survey N where
  functions := compiler.gcHeap.length
  tokenIter := compiler.tokenIter
  scopeDepth := compiler.scopeDepth
  back := compiler.back.map Chunk.extent
  enclosing := compiler.enclosing.map (·.map Chunk.extent)

inductive Tallies : Except Error (α × Compiler N) → EStateM.Result Error (Survey N) α → Prop where
  | ok (value : α) (after : Compiler N) : Tallies (.ok (value, after)) (.ok value after.survey)
  | fails {error : Error} {last : Survey N} : error ≠ .narrowingError → last.fits = true →
      Tallies (.error error) (.error error last)
  | overflows {result : EStateM.Result Error (Survey N) α} : fitsAfter result = false →
      Tallies (.error .narrowingError) result

theorem Tallies.of_eq {value : α} {after : Compiler N} {last : Survey N}
    (same : last = after.survey) : Tallies (.ok (value, after)) (.ok value last) :=
  same ▸ .ok value after

structure Surveys (action : CompileM N α) (survey : SurveyM N α) : Prop where
  tallies : ∀ before, Tallies (action.run before) (survey before.survey)
  sinks : ∀ before : Survey N, before.fits = false → fitsAfter (survey before) = false

namespace Surveys

theorem bind {first : CompileM N α} {rest : α → CompileM N β} {one : SurveyM N α}
    {others : α → SurveyM N β} (head : Surveys first one)
    (tail : ∀ value, Surveys (rest value) (others value)) :
    Surveys (first >>= rest) (one >>= others) := by
  have unfold (before : Survey N) : (one >>= others) before = EStateM.bind one others before := rfl
  constructor
  · intro before
    have here := head.tallies before
    rw [StateT.run_bind, unfold, EStateM.bind]
    generalize first.run before = ran at here
    generalize one before.survey = surveyed at here
    cases here with
    | ok value after => exact (tail value).tallies after
    | fails other fits => exact .fails other fits
    | overflows full =>
        refine .overflows ?_
        cases surveyed with
        | ok value last => exact (tail value).sinks last full
        | error error last => exact full
  · intro before full
    have here := head.sinks before full
    rw [unfold, EStateM.bind]
    cases surveyed : one before with
    | ok value last =>
        rw [surveyed] at here
        exact (tail value).sinks last here
    | error error last =>
        rw [surveyed] at here
        exact here

theorem pure (value : α) : Surveys (pure value : CompileM N α) (Pure.pure value) :=
  ⟨fun before => .ok value before, fun _ full => full⟩

theorem throw {error : Error} (other : error ≠ .narrowingError) :
    Surveys (MonadExcept.throw error : CompileM N α) (MonadExcept.throw error) :=
  ⟨fun _ => .fails other rfl, fun _ full => full⟩

theorem lift {action : Except Error α} (other : ∀ error, action = .error error →
    error ≠ .narrowingError) : Surveys (liftM action : CompileM N α) (Survey.lift action) := by
  cases action with
  | error error => exact throw (other error rfl)
  | ok value => exact pure value

theorem current : Surveys (current : CompileM N Token) Survey.current :=
  ⟨fun before => .ok _ before, fun _ full => full⟩

end Surveys

/-- The emission grows the chunk to this extent if its operands fit. -/
def Counts (emission : Except Error (Chunk.Compiled N)) (extent : Extent N) (fits : Bool) : Prop :=
  emission = .error .narrowingError ∧ fits = false ∨
    ∃ after, emission = .ok after ∧ after.extent = extent ∧ fits = true

theorem Counts.made {after : Chunk.Compiled N} {extent : Extent N} (same : after.extent = extent) :
    Counts (.ok after) extent true := .inr ⟨after, rfl, same, rfl⟩

theorem Counts.byte {value : Nat} {rest : Nat → Except Error (Chunk.Compiled N)} {extent : Extent N}
    {fits : Bool} (counts : Counts (rest value) extent fits) :
    Counts (narrowByte value >>= rest) extent (value < 256 && fits) := by
  unfold narrowByte
  by_cases small : value < 256
  · rw [if_pos small, decide_eq_true small, Bool.true_and]
    exact counts
  · rw [if_neg small, decide_eq_false small, Bool.false_and]
    exact .inl ⟨rfl, rfl⟩

theorem Counts.short {value : Nat} {rest : Nat → Except Error (Chunk.Compiled N)}
    {extent : Extent N} {fits : Bool} (counts : Counts (rest value) extent fits) :
    Counts (narrowShort value >>= rest) extent (value < 65536 && fits) := by
  unfold narrowShort
  by_cases small : value < 65536
  · rw [if_pos small, decide_eq_true small, Bool.true_and]
    exact counts
  · rw [if_neg small, decide_eq_false small, Bool.false_and]
    exact .inl ⟨rfl, rfl⟩

variable {chunk : Chunk.Compiled N} {token : SourceMapToken Text}

theorem extent_emitByte (byte : Nat) : (chunk.emitByte byte token).extent =
    { chunk.extent with length := chunk.extent.length + 1 } := by
  simp [Chunk.extent, Chunk.emitByte]

theorem counts_emitIndex (opcode : Opcode) (index : Nat) :
    Counts (chunk.emitIndex opcode index token)
      { chunk.extent with length := chunk.extent.length + 2 } (index < 256 && true) :=
  .byte (.made (by rw [extent_emitByte, extent_emitByte]))

theorem counts_toNextOpcode (jumpBeginIndex : Nat) :
    Counts (chunk.toNextOpcode jumpBeginIndex) chunk.extent
      (chunk.extent.length - jumpBeginIndex < 65536 && true) :=
  .short (.made (by simp [Chunk.extent]))

theorem counts_emitLoop (loopBegin : Nat) :
    Counts (chunk.emitLoop loopBegin token)
      { chunk.extent with length := chunk.extent.length + 3 }
      (chunk.extent.length + 3 - loopBegin < 65536 && true) := by
  have length : (((chunk.emitByte Opcode.loop.toByte token).emitByte 0 token).emitByte 0
      token).bytecode.length = chunk.extent.length + 3 := by simp [Chunk.extent, Chunk.emitByte]
  rw [← length]
  refine .short (.made ?_)
  simp [Chunk.extent, Chunk.emitByte]

section

variable [Number N]

theorem counts_emitWithConstant (opcode : Opcode) (value : Constant N) :
    Counts (chunk.emitWithConstant opcode value token)
      ⟨(insertConstant chunk.extent.constants value).2, chunk.extent.length + 2⟩
      ((insertConstant chunk.extent.constants value).1 < 256 && true) :=
  .byte (.made (by rw [extent_emitByte, extent_emitByte]; rfl))

/-- Whether every operand of a capture fits. -/
def capturesFit (upvalues : List TrackedUpvalue) : Bool :=
  upvalues.all fun
    | .upvalueIndex index | .upUpvalueIndex index => index < 256

omit [Number N] in
theorem counts_emitTrackedUpvalues (upvalues : List TrackedUpvalue) (chunk : Chunk.Compiled N)
    (token : SourceMapToken Text) :
    Counts (chunk.emitTrackedUpvalues upvalues token)
      ⟨chunk.extent.constants, chunk.extent.length + 2 * upvalues.length⟩
      (capturesFit upvalues) := by
  induction upvalues generalizing chunk with
  | nil => exact .made rfl
  | cons upvalue rest ih =>
      have length (before : Nat) :
          before + 2 * (rest.length + 1) = before + 1 + 1 + 2 * rest.length := by omega
      rw [List.length_cons, length]
      cases upvalue with
      | upvalueIndex index =>
          have counts := ih ((chunk.emitByte 1 token).emitByte index token)
          rw [extent_emitByte, extent_emitByte] at counts
          exact .byte counts
      | upUpvalueIndex index =>
          have counts := ih ((chunk.emitByte 0 token).emitByte index token)
          rw [extent_emitByte, extent_emitByte] at counts
          exact .byte counts

theorem counts_emitClosure (function : Nat) (upvalues : List TrackedUpvalue) :
    Counts (chunk.emitClosure function upvalues token)
      ⟨(insertConstant chunk.extent.constants (.function function)).2,
        chunk.extent.length + (3 + 2 * upvalues.length)⟩
      ((insertConstant chunk.extent.constants (.function function)).1 < 256 &&
        (upvalues.length < 256 && capturesFit upvalues)) := by
  have length : chunk.extent.length + (3 + 2 * upvalues.length) =
      chunk.extent.length + 1 + 1 + 1 + 2 * upvalues.length := by omega
  rw [length]
  let inserted := insertConstant chunk.constants (.function function)
  have counts := counts_emitTrackedUpvalues upvalues
    ((({ chunk with constants := inserted.2 }.emitByte Opcode.closure.toByte token).emitByte
      inserted.1 token).emitByte upvalues.length token) token
  rw [extent_emitByte, extent_emitByte, extent_emitByte] at counts
  exact .byte (.byte counts)

end

namespace Surveys

/-- An emission, and a survey that counts it. -/
theorem of_counts {emission : Chunk.Compiled N → Except Error (Chunk.Compiled N)}
    {survey : SurveyM N Unit} (extent : Extent N → Extent N) (fits : Extent N → Bool)
    (counts : ∀ chunk, Counts (emission chunk) (extent chunk.extent) (fits chunk.extent))
    (does : ∀ before : Survey N, survey before = .ok () { before with
      back := { before.back with chunk := extent before.back.chunk }
      fits := before.fits && fits before.back.chunk }) :
    Surveys (emitWith emission) survey := by
  constructor
  · intro before
    rw [emitWith, run_get_bind, does]
    rcases counts before.back.chunk with ⟨fails, full⟩ | ⟨after, made, same, enough⟩
    · rw [fails]
      refine .overflows ?_
      change (true && fits before.back.chunk.extent) = false
      rw [full, Bool.and_false]
    · rw [run_lift_bind made]
      refine .of_eq ?_
      simp [Compiler.survey, FunctionChunk.map, same, enough]
  · intro before full
    rw [does]
    change (before.fits && _) = false
    rw [full, Bool.false_and]

theorem emit (opcode : Opcode) (token : SourceMapToken Text) :
    Surveys (emit opcode token : CompileM N Unit) (Survey.grow 1) :=
  of_counts (fun extent => { extent with length := extent.length + 1 }) (fun _ => true)
    (fun _ => .made (extent_emitByte _)) fun before => by rw [Bool.and_true]; rfl

theorem emitIndex (opcode : Opcode) (index : Nat) (token : SourceMapToken Text) :
    Surveys (emitIndex opcode index token : CompileM N Unit) (Survey.emitIndex index) :=
  of_counts (fun extent => { extent with length := extent.length + 2 })
    (fun _ => index < 256 && true)
    (fun _ => counts_emitIndex opcode index) fun before => by rw [Bool.and_true]; rfl

theorem emitCall (argCount : Nat) (token : SourceMapToken Text) :
    Surveys (emitCall argCount token : CompileM N Unit) (Survey.emitIndex argCount) :=
  emitIndex .call argCount token

theorem toNextOpcode (jumpBeginIndex : Nat) :
    Surveys (toNextOpcode jumpBeginIndex : CompileM N Unit) (Survey.toNextOpcode jumpBeginIndex) :=
  of_counts id (fun extent => extent.length - jumpBeginIndex < 65536 && true)
    (fun _ => counts_toNextOpcode jumpBeginIndex) fun before => by rw [Bool.and_true]; rfl

theorem emitLoop (loopBegin : Nat) (token : SourceMapToken Text) :
    Surveys (emitLoop loopBegin token : CompileM N Unit) (Survey.emitLoop loopBegin) :=
  of_counts (fun extent => { extent with length := extent.length + 3 })
    (fun extent => extent.length + 3 - loopBegin < 65536 && true)
    (fun _ => counts_emitLoop loopBegin) fun before => by rw [Bool.and_true]; rfl

theorem emitConstant [Number N] (opcode : Opcode) (value : Constant N)
    (token : SourceMapToken Text) :
    Surveys (emitWith fun chunk => chunk.emitWithConstant opcode value token : CompileM N Unit)
      (Survey.emitConstant value) :=
  of_counts (fun extent => ⟨(insertConstant extent.constants value).2, extent.length + 2⟩)
    (fun extent => (insertConstant extent.constants value).1 < 256 && true)
    (fun _ => counts_emitWithConstant opcode value) fun before => by rw [Bool.and_true]; rfl

theorem emitName [Number N] (opcode : Opcode) (name : Text) (token : SourceMapToken Text) :
    Surveys (emitName opcode name token : CompileM N Unit) (Survey.emitName name) :=
  emitConstant opcode _ token

/-- What was read of the state does not depend on whether all operands fit. -/
theorem get {rest : Compiler N → CompileM N α} {others : Survey N → SurveyM N α}
    (blind : ∀ before : Survey N, others { before with fits := true } = others before)
    (tail : ∀ before : Compiler N, Surveys (rest before) (others before.survey)) :
    Surveys (MonadState.get >>= rest) (MonadState.get >>= others) := by
  refine ⟨fun before => (tail before).tallies before, fun before full => ?_⟩
  obtain ⟨compiler, same⟩ : ∃ compiler : Compiler N,
      compiler.survey = { before with fits := true } := by
    let fill (function : FunctionChunk (Extent N)) : FunctionChunk (Chunk.Compiled N) :=
      function.map fun extent => ⟨List.replicate extent.length 0, extent.constants, []⟩
    refine ⟨⟨List.replicate before.functions ⟨[], 0, {}⟩, before.tokenIter, before.scopeDepth,
      fill before.back, before.enclosing.map fill⟩, ?_⟩
    simp [Compiler.survey, fill, FunctionChunk.map, Chunk.extent, Function.comp_def]
  have sinks := (tail compiler).sinks before full
  rw [same, blind] at sinks
  exact sinks

theorem optionally {action : CompileM N Unit} {survey : SurveyM N Unit}
    (surveys : Surveys action survey) (condition : Bool) :
    Surveys (optionally condition action) (Survey.optionally condition survey) := by
  cases condition with
  | true => exact surveys
  | false => exact pure ()

/-- A change of the state that the survey makes too. -/
theorem modify {change : Compiler N → Compiler N} {other : Survey N → Survey N}
    (same : ∀ before, other before.survey = (change before).survey)
    (keeps : ∀ before, (other before).fits = before.fits) :
    Surveys (modify change) (MonadState.modifyGet fun before => ((), other before)) :=
  ⟨fun before => .of_eq (same before), fun before full => (keeps before).trans full⟩

end Surveys

theorem advance_not_narrowing {iter : TokenIterator} {error : Error}
    (fails : iter.advance = .error error) : error ≠ .narrowingError := by
  have outcome := scanToken_outcome iter.rest iter.line
  unfold advance at fails
  cases scans : scanToken iter.rest iter.line with
  | ok scanned => rw [scans] at fails; cases fails
  | error other =>
      rw [scans] at fails outcome
      cases fails
      obtain ⟨_, _, what, -, -, rfl⟩ := outcome
      nofun

theorem ensureTokenIs_not_narrowing {token : Token} {expected : TokenType} {error : Error}
    (fails : ensureTokenIs token expected = .error error) : error ≠ .narrowingError := by
  unfold ensureTokenIs at fails
  split at fails
  · cases fails
  · cases fails
    nofun

namespace Surveys

theorem next : Surveys (next : CompileM N Token) Survey.next := by
  constructor
  · intro before
    rw [Cpplox.next, run_get_bind]
    change Tallies _ (EStateM.bind (Survey.lift before.tokenIter.advance) _ before.survey)
    cases advances : before.tokenIter.advance with
    | error error => exact .fails (advance_not_narrowing advances) rfl
    | ok iter =>
        rw [run_lift_bind rfl]
        exact .of_eq rfl
  · intro before full
    change fitsAfter (EStateM.bind (Survey.lift before.tokenIter.advance) _ before) = false
    cases before.tokenIter.advance with
    | error error => exact full
    | ok iter => exact full

theorem advanceIfMatch (type : TokenType) :
    Surveys (advanceIfMatch type : CompileM N Bool) (Survey.advanceIfMatch type) := by
  refine current.bind fun token => ?_
  split
  · exact next.bind fun _ => pure true
  · exact pure false

theorem expectNext (expected : TokenType) :
    Surveys (expectNext expected : CompileM N Token) (Survey.expectNext expected) :=
  next.bind fun token => (lift fun _ => ensureTokenIs_not_narrowing).bind fun _ => pure token

theorem expectCurrent (expected : TokenType) :
    Surveys (expectCurrent expected : CompileM N Token) (Survey.expectCurrent expected) :=
  current.bind fun _ => (lift fun _ => ensureTokenIs_not_narrowing).bind fun _ => next

theorem emitAll (opcodes : List Opcode) (token : SourceMapToken Text) :
    Surveys (emitAll opcodes token : CompileM N Unit) (Survey.grow opcodes.length) := by
  induction opcodes with
  | nil => exact pure ()
  | cons opcode rest ih =>
      have split : (Survey.grow (rest.length + 1) : SurveyM N Unit) =
          (do Survey.grow 1; Survey.grow rest.length) := by
        funext before
        rw [Nat.add_comm]
        change EStateM.Result.ok _ _ = EStateM.Result.ok _ _
        simp only [Nat.add_assoc]
      rw [List.length_cons, split]
      exact (emit opcode token).bind fun _ => ih

theorem emitJump (opcode : Opcode) (token : SourceMapToken Text) :
    Surveys (emitJump opcode token : CompileM N Nat) Survey.emitJump := by
  refine ⟨fun before => ?_, fun before full => full⟩
  let made := before.back.chunk.emitJump opcode token
  have extent : made.1.extent =
      { before.back.chunk.extent with length := before.back.chunk.extent.length + 3 } := by
    simp [made, Chunk.emitJump, Chunk.extent, Chunk.emitByte]
  have index : made.2 = made.1.extent.length := rfl
  have last : Survey.emitJump before.survey = .ok made.2
      ({ before with back := { before.back with chunk := made.1 } } : Compiler N).survey := by
    simp only [index, Compiler.survey, FunctionChunk.map, extent]
    rfl
  rw [last]
  exact .ok made.2 _

theorem bytecodeSize : Surveys (bytecodeSize : CompileM N Nat) Survey.length :=
  get (fun _ => rfl) fun _ => pure _

theorem beginScope : Surveys (beginScope : CompileM N Unit) Survey.beginScope :=
  modify (fun _ => rfl) fun _ => rfl

/-- An action that begins with reading the state. -/
theorem of_get {rest : Compiler N → CompileM N α} {others : Survey N → SurveyM N α}
    (tallies : ∀ before, Tallies ((rest before).run before) (others before.survey before.survey))
    (sinks : ∀ before : Survey N, before.fits = false → fitsAfter (others before before) = false) :
    Surveys (MonadState.get >>= rest) (MonadState.get >>= others) :=
  ⟨tallies, sinks⟩

theorem trackLocal (identifierToken : SourceMapToken Text) (initialized : Bool) :
    Surveys (trackLocal identifierToken initialized : CompileM N Unit)
      (Survey.trackLocal identifierToken initialized) := by
  refine of_get (fun before => ?_) fun before full => ?_
  · dsimp only [Compiler.survey, FunctionChunk.map]
    split
    · exact .fails Error.noConfusion rfl
    · exact .of_eq rfl
  · split
    · exact full
    · exact full

theorem popLocals (depth : Nat) (token : SourceMapToken Text) (locals : List TrackedLocal) :
    Surveys (popLocals depth token locals : CompileM N Unit) (Survey.popLocals depth locals) := by
  induction locals with
  | nil => exact pure ()
  | cons tracked rest ih =>
      rw [Cpplox.popLocals, Survey.popLocals]
      split
      · refine (emit _ _).bind fun _ => bind ?_ fun _ => ih
        exact modify (fun _ => rfl) fun _ => rfl
      · exact pure ()

theorem popTopScopeDepth (token : SourceMapToken Text) :
    Surveys (popTopScopeDepth token : CompileM N Unit) Survey.popTopScopeDepth :=
  get (fun _ => rfl) fun _ => (popLocals _ _ _).bind fun _ => modify (fun _ => rfl) fun _ => rfl

theorem initializeBack : Surveys (initializeBack : CompileM N Unit) Survey.initializeBack := by
  refine modify (fun before => ?_) fun _ => rfl
  cases locals : before.back.trackedLocals <;>
    simp [Compiler.survey, FunctionChunk.map, locals]

section

variable [Number N]

omit [Number N] in
theorem askTrackedUpvalues_run (upvalues : List TrackedUpvalue) (before : Survey N) :
    Survey.askTrackedUpvalues upvalues before =
      .ok () { before with fits := before.fits && capturesFit upvalues } := by
  induction upvalues generalizing before with
  | nil =>
      rw [capturesFit, List.all_nil, Bool.and_true]
      rfl
  | cons upvalue rest ih =>
      have counted (index : Nat) : (do Survey.askByte index; Survey.askTrackedUpvalues rest)
          before = .ok () { before with
            fits := before.fits && (index < 256 && capturesFit rest) } := by
        rw [← Bool.and_assoc]
        exact ih _
      cases upvalue with
      | upvalueIndex index => exact counted index
      | upUpvalueIndex index => exact counted index

theorem emitClosure (function : Nat) (upvalues : List TrackedUpvalue)
    (token : SourceMapToken Text) :
    Surveys (emitClosure function upvalues token : CompileM N Unit) (do
      Survey.askConstant (.function function)
      Survey.askByte upvalues.length
      Survey.askTrackedUpvalues upvalues
      Survey.grow (3 + 2 * upvalues.length)) := by
  refine of_counts (fun extent => ⟨(insertConstant extent.constants (.function function)).2,
      extent.length + (3 + 2 * upvalues.length)⟩)
    (fun extent => (insertConstant extent.constants (.function function)).1 < 256 &&
      (upvalues.length < 256 && capturesFit upvalues))
    (fun _ => counts_emitClosure function upvalues) fun before => ?_
  let asked : Survey N := { before with
    back := { before.back with chunk := { before.back.chunk with
      constants := (insertConstant before.back.chunk.constants (.function function)).2 } }
    fits := (before.fits && (insertConstant before.back.chunk.constants
      (.function function)).1 < 256) && upvalues.length < 256 }
  change EStateM.bind (Survey.askTrackedUpvalues upvalues) _ asked = _
  rw [EStateM.bind, askTrackedUpvalues_run, ← Bool.and_assoc, ← Bool.and_assoc]
  rfl

theorem makeFunction {body : CompileM N Nat} {survey : SurveyM N Nat}
    (surveys : Surveys body survey) (isClassInitMethod : Bool) (name : Text)
    (token : SourceMapToken Text) :
    Surveys (inFunction isClassInitMethod body >>= fun compiled => emitFunction name compiled token)
      (Survey.makeFunction isClassInitMethod survey) := by
  rw [inFunction, Survey.makeFunction, Survey.inFunction]
  simp only [bind_assoc]
  refine bind ?_ fun _ => surveys.bind fun paramCount =>
    of_get (fun inner => ?_) fun inner full => ?_
  · exact modify (fun _ => rfl) fun _ => rfl
  · cases enclosing : inner.enclosing with
    | nil =>
        simp only [Compiler.survey, enclosing, List.map_nil]
        exact .fails Error.noConfusion rfl
    | cons outer rest =>
        simp only [Compiler.survey, enclosing, List.map_cons]
        let left : Compiler N := { inner with
          gcHeap := inner.gcHeap ++ [⟨name, paramCount, inner.back.chunk⟩]
          scopeDepth := inner.scopeDepth - 1, back := outer, enclosing := rest }
        have same : { inner.survey with
            functions := inner.survey.functions + 1
            scopeDepth := inner.survey.scopeDepth - 1
            back := outer.map Chunk.extent
            enclosing := rest.map (·.map Chunk.extent) } = left.survey := by
          simp [Compiler.survey, left]
        have tallies := (emitClosure inner.gcHeap.length inner.back.trackedUpvalues token).tallies
          left
        rw [← same] at tallies
        exact tallies
  · cases enclosing : inner.enclosing with
    | nil => exact full
    | cons outer rest =>
        exact (emitClosure inner.functions inner.back.trackedUpvalues token).sinks _ full

theorem emitGetterSetter (localOpcode upvalueOpcode globalOpcode : Opcode)
    (identifierToken : SourceMapToken Text) :
    Surveys (emitGetterSetter localOpcode upvalueOpcode globalOpcode identifierToken :
      CompileM N Unit) (Survey.emitGetter identifierToken) := by
  refine of_get (fun before => ?_) fun before full => ?_
  · have tracks := trackUpvalue_map Chunk.extent identifierToken.lexeme before.back before.enclosing
    have locals : before.survey.back.trackedLocals = before.back.trackedLocals := rfl
    have back : before.survey.back = before.back.map Chunk.extent := rfl
    have enclosing : before.survey.enclosing = before.enclosing.map (·.map Chunk.extent) := rfl
    rw [locals]
    cases findLocal before.back.trackedLocals identifierToken.lexeme with
    | some found =>
        obtain ⟨index, tracked⟩ := found
        dsimp only
        split
        · exact (emitIndex localOpcode index identifierToken).tallies before
        · exact .fails Error.noConfusion rfl
    | none =>
        rw [back, enclosing, tracks]
        cases trackUpvalue identifierToken.lexeme before.back before.enclosing with
        | some found =>
            obtain ⟨index, laterBack, laterEnclosing⟩ := found
            exact (emitIndex upvalueOpcode index identifierToken).tallies
              { before with back := laterBack, enclosing := laterEnclosing }
        | none => exact (emitName globalOpcode _ identifierToken).tallies before
  · cases findLocal before.back.trackedLocals identifierToken.lexeme with
    | some found =>
        dsimp only
        split
        · exact (emitIndex localOpcode found.1 identifierToken).sinks before full
        · exact full
    | none =>
        cases trackUpvalue identifierToken.lexeme before.back before.enclosing with
        | some found => exact (emitIndex upvalueOpcode found.1 identifierToken).sinks _ full
        | none => exact (emitName globalOpcode _ identifierToken).sinks before full

theorem emitGetter (identifierToken : SourceMapToken Text) :
    Surveys (emitGetter identifierToken : CompileM N Unit) (Survey.emitGetter identifierToken) :=
  emitGetterSetter _ _ _ identifierToken

theorem emitPropertyPath (names : List Token) :
    Surveys (emitPropertyPath names : CompileM N Unit) (Survey.emitPropertyPath names) := by
  induction names with
  | nil => exact pure ()
  | cons name rest ih =>
      rw [Survey.emitPropertyPath]
      cases rest with
      | nil => exact emitName .setProperty name.lexeme (sourceMapToken name)
      | cons => exact (emitName _ _ _).bind fun _ => ih

theorem emitAssignment (target equalToken : Token) (names : List Token) :
    Surveys (emitAssignment target equalToken names : CompileM N Unit)
      (Survey.emitAssignment target equalToken names) := by
  cases names with
  | nil =>
      rw [Cpplox.emitAssignment, Survey.emitAssignment]
      simp only [decide_true, Bool.true_and, decide_eq_true_eq]
      split
      · exact throw Error.noConfusion
      · rw [Survey.emitPropertyPath, bind_pure_unit]
        exact emitGetterSetter .setLocal .setUpvalue .setGlobal (sourceMapToken target)
  | cons name rest => exact (emitGetter _).bind fun _ => emitPropertyPath _

omit [Number N] in
theorem emitDefaultReturnValue (token : SourceMapToken Text) :
    Surveys (emitDefaultReturnValue token : CompileM N Unit) Survey.emitDefaultReturnValue := by
  refine get (fun _ => rfl) fun before => ?_
  dsimp only [Compiler.survey, FunctionChunk.map]
  split
  · exact emitIndex .getLocal 0 (thisToken token.line)
  · exact emit .nil token

theorem defineGlobalAtTop (name : Text) (token : SourceMapToken Text) :
    Surveys (defineGlobalAtTop name token : CompileM N Unit) (Survey.defineGlobalAtTop name) :=
  get (fun _ => rfl) fun _ => (emitName .defineGlobal name token).optionally _

theorem beginSuperclass (classNameToken superclassNameToken : Token) :
    Surveys (beginSuperclass classNameToken superclassNameToken : CompileM N Unit)
      (Survey.beginSuperclass classNameToken superclassNameToken) := by
  rw [Cpplox.beginSuperclass, Survey.beginSuperclass]
  dsimp only
  split
  · exact throw Error.noConfusion
  · refine get (fun _ => rfl) fun _ => bind (optionally ?_ _) fun _ =>
      beginScope.bind fun _ => (emitGetter _).bind fun _ => (trackLocal _ _).bind fun _ =>
        emit .inherit _
    exact modify (fun _ => rfl) fun _ => rfl

omit [Number N] in
theorem endSuperclass (superclassNameToken : Token) :
    Surveys (endSuperclass superclassNameToken : CompileM N Unit) Survey.endSuperclass := by
  refine (emit .pop _).bind fun _ => (popTopScopeDepth _).bind fun _ =>
    get (fun _ => rfl) fun _ => optionally ?_ _
  exact modify (fun _ => rfl) fun _ => rfl

/-- `.name`, and what does not depend on the new callee token. -/
theorem property {rest : SourceMapToken Text → CompileM N α} {others : SurveyM N α}
    (tail : ∀ calleeToken, Surveys (rest calleeToken) others) :
    Surveys (compileProperty >>= rest) (do Survey.property; others) := by
  simp only [compileProperty, Survey.property, bind_assoc, pure_bind]
  exact next.bind fun _ => (expectCurrent _).bind fun _ => (emitName _ _ _).bind fun _ => tail _

omit [Number N] in
theorem whileOperator {isOperator : TokenType → Bool} {step : Token → CompileM N Unit}
    {counted : Token → SurveyM N Unit}
    (steps : ∀ operator, Surveys (step operator) (counted operator)) (fuel : Nat) :
    Surveys (whileOperator isOperator step fuel)
      (Survey.whileOperator isOperator counted fuel) := by
  induction fuel with
  | zero => exact throw Error.noConfusion
  | succ fuel ih =>
      rw [Cpplox.whileOperator, Survey.whileOperator]
      refine current.bind fun token => ?_
      split
      · exact next.bind fun operator => (steps operator).bind fun _ => ih
      · exact pure ()

variable {operand : CompileM N Unit} {counted : SurveyM N Unit}

omit [Number N] in
theorem binaryStep (surveys : Surveys operand counted) (operator : Token) :
    Surveys (binaryStep operand operator) (Survey.binaryStep counted operator) :=
  surveys.bind fun _ => emitAll _ _

omit [Number N] in
theorem andStep (surveys : Surveys operand counted) (operator : Token) :
    Surveys (andStep operand operator) (Survey.andStep counted) :=
  (emitJump .jumpIfFalse _).bind fun _ => (emit .pop _).bind fun _ => surveys.bind fun _ =>
    toNextOpcode _

omit [Number N] in
theorem orStep (surveys : Surveys operand counted) (operator : Token) :
    Surveys (orStep operand operator) (Survey.orStep counted) :=
  (emitJump .jumpIfFalse _).bind fun _ => (emitJump .jump _).bind fun _ =>
    (toNextOpcode _).bind fun _ => (emit .pop _).bind fun _ => surveys.bind fun _ => toNextOpcode _

end

end Surveys

end Cpplox
