import Cpplox.Compiler.Surveyed
import Cpplox.Compiler.Terminates

namespace Cpplox

open Survey (fitsAfter)

/-! Which sources have all their errors reported as Lox errors. -/

variable {N α β : Type}

theorem peekPropertyNames_not_narrowing {fuel : Nat} {peekAhead : TokenIterator} {error : Error}
    (fails : peekPropertyNames fuel peekAhead = .error error) : error ≠ .narrowingError := by
  induction fuel generalizing peekAhead error with
  | zero =>
      cases fails
      nofun
  | succ fuel ih =>
      rw [peekPropertyNames] at fails
      split at fails
      · rcases except_bind_error.mp fails with advances | ⟨name, -, fails⟩
        · exact advance_not_narrowing advances
        · rcases except_bind_error.mp fails with ensures | ⟨_, -, fails⟩
          · exact ensureTokenIs_not_narrowing ensures
          · rcases except_bind_error.mp fails with advances | ⟨after, -, fails⟩
            · exact advance_not_narrowing advances
            · rcases except_bind_error.mp fails with deeper | ⟨names, -, fails⟩
              · exact ih deeper
              · cases fails
      · cases fails

theorem peekAssignment_not_narrowing {fuel : Nat} {iter : TokenIterator} {error : Error}
    (fails : peekAssignment fuel iter = .error error) : error ≠ .narrowingError := by
  rw [peekAssignment] at fails
  split at fails
  · rcases except_bind_error.mp fails with advances | ⟨after, -, fails⟩
    · exact advance_not_narrowing advances
    · rcases except_bind_error.mp fails with peeks | ⟨names, -, fails⟩
      · exact peekPropertyNames_not_narrowing peeks
      · cases fails
  · cases fails

namespace Surveys

/-- The current token, where it is not what the survey depends on. -/
theorem unread {rest : Token → CompileM N α} {survey : SurveyM N α}
    (tail : ∀ token, Surveys (rest token) survey) : Surveys (Cpplox.current >>= rest) survey :=
  ⟨fun before => (tail before.tokenIter.token).tallies before, (tail ⟨.eof, [], 0⟩).sinks⟩

/-- A choice by the current token. -/
theorem found_or_missing {type : TokenType} {found missing : CompileM N α}
    {laterFound laterMissing : SurveyM N α} (here : Surveys found laterFound)
    (there : Surveys missing laterMissing) :
    Surveys (do if ← Cpplox.advanceIfMatch type then found else missing)
      (do if ← Survey.advanceIfMatch type then laterFound else laterMissing) := by
  refine (advanceIfMatch type).bind fun matched => ?_
  split
  · exact here
  · exact there

end Surveys

variable (N) in
/-- The survey of every function of the compiler. -/
structure Surveyed [Number N] (fuel : Nat) : Prop where
  primary : Surveys (compilePrimaryExpression fuel : CompileM N Unit) (Survey.primary fuel)
  call : Surveys (compileCallPrecedenceExpression fuel : CompileM N Unit) (Survey.call fuel)
  callLoop : ∀ calleeToken,
    Surveys (callLoop fuel calleeToken : CompileM N Unit) (Survey.callLoop fuel)
  arguments : Surveys (compileArguments fuel : CompileM N Nat) (Survey.arguments fuel)
  argumentLoop : Surveys (argumentLoop fuel : CompileM N Nat) (Survey.argumentLoop fuel)
  unary : Surveys (compileUnaryPrecedenceExpression fuel : CompileM N Unit) (Survey.unary fuel)
  multiplication : Surveys (compileMultiplicationPrecedenceExpression fuel : CompileM N Unit)
    (Survey.multiplication fuel)
  addition : Surveys (compileAdditionPrecedenceExpression fuel : CompileM N Unit)
    (Survey.addition fuel)
  comparison : Surveys (compileComparisonPrecedenceExpression fuel : CompileM N Unit)
    (Survey.comparison fuel)
  equality : Surveys (compileEqualityPrecedenceExpression fuel : CompileM N Unit)
    (Survey.equality fuel)
  and_ : Surveys (compileAndPrecedenceExpression fuel : CompileM N Unit) (Survey.and_ fuel)
  or_ : Surveys (compileOrPrecedenceExpression fuel : CompileM N Unit) (Survey.or_ fuel)
  assignment : Surveys (compileAssignmentPrecedenceExpression fuel : CompileM N Unit)
    (Survey.assignment fuel)
  expressionStatement : Surveys (compileExpressionStatement fuel : CompileM N Unit)
    (Survey.expressionStatement fuel)
  parameterLoop : Surveys (parameterLoop fuel : CompileM N Nat) (Survey.parameterLoop fuel)
  parameters : Surveys (compileParameters fuel : CompileM N Nat) (Survey.parameters fuel)
  functionRest : ∀ token,
    Surveys (compileFunctionRest fuel token : CompileM N Nat) (Survey.functionRest fuel)
  declarationLoop : ∀ isEnd,
    Surveys (declarationLoop fuel isEnd : CompileM N Unit) (Survey.declarationLoop fuel isEnd)
  ifStatement : Surveys (compileIfStatement fuel : CompileM N Unit) (Survey.ifStatement fuel)
  forInitializer : Surveys (compileForInitializer fuel : CompileM N Unit)
    (Survey.forInitializer fuel)
  forCondition : ∀ token,
    Surveys (compileForCondition fuel token : CompileM N Unit) (Survey.forCondition fuel)
  forIncrement : ∀ token,
    Surveys (compileForIncrement fuel token : CompileM N Unit) (Survey.forIncrement fuel)
  forStatement : Surveys (compileForStatement fuel : CompileM N Unit) (Survey.forStatement fuel)
  block : Surveys (compileBlock fuel : CompileM N Unit) (Survey.block fuel)
  printStatement : Surveys (compilePrintStatement fuel : CompileM N Unit)
    (Survey.printStatement fuel)
  returnStatement : Surveys (compileReturnStatement fuel : CompileM N Unit)
    (Survey.returnStatement fuel)
  whileStatement : Surveys (compileWhileStatement fuel : CompileM N Unit)
    (Survey.whileStatement fuel)
  statement : Surveys (compileStatement fuel : CompileM N Unit) (Survey.statement fuel)
  methodLoop : Surveys (methodLoop fuel : CompileM N Unit) (Survey.methodLoop fuel)
  classBody : Surveys (compileClassBody fuel : CompileM N Unit) (Survey.classBody fuel)
  classDeclaration : Surveys (compileClassDeclaration fuel : CompileM N Unit)
    (Survey.classDeclaration fuel)
  funDeclaration : Surveys (compileFunDeclaration fuel : CompileM N Unit)
    (Survey.funDeclaration fuel)
  varDeclaration : Surveys (compileVarDeclaration fuel : CompileM N Unit)
    (Survey.varDeclaration fuel)
  initializer : ∀ token,
    Surveys (compileInitializer fuel token : CompileM N Unit) (Survey.initializer fuel)
  declaration : Surveys (compileDeclaration fuel : CompileM N Unit) (Survey.declaration fuel)

theorem Surveyed.zero [Number N] : Surveyed N 0 := by
  constructor <;> intros <;> exact .throw Error.noConfusion

namespace Surveys

variable [Number N] {fuel : Nat}

theorem primary_succ (ih : Surveyed N fuel) :
    Surveys (compilePrimaryExpression (fuel + 1) : CompileM N Unit)
      (Survey.primary (fuel + 1)) := by
  rw [compilePrimaryExpression, Survey.primary]
  refine current.bind fun token => ?_
  cases token.type
  case false_ => exact next.bind fun _ => emit _ _
  case fun_ => exact next.bind fun _ => makeFunction (ih.functionRest _) _ _ _
  case identifier => exact next.bind fun _ => emitGetter _
  case this_ => exact next.bind fun _ => emitGetter _
  case leftParen =>
    refine next.bind fun _ => ?_
    refine ih.assignment.bind fun _ => ?_
    refine (expectNext _).bind fun _ => ?_
    exact pure ()
  case nil => exact next.bind fun _ => emit _ _
  case number => exact next.bind fun _ => emitConstant .constant _ _
  case string => exact next.bind fun _ => emitConstant .constant _ _
  case super =>
    refine next.bind fun _ => ?_
    refine (emitGetter _).bind fun _ => ?_
    refine (emitGetter _).bind fun _ => ?_
    refine (expectNext _).bind fun _ => ?_
    refine (expectCurrent _).bind fun _ => ?_
    exact emitName _ _ _
  case true_ => exact next.bind fun _ => emit _ _
  all_goals exact current.bind fun _ => throw Error.noConfusion

theorem callLoop_succ (ih : Surveyed N fuel) (calleeToken : SourceMapToken Text) :
    Surveys (Cpplox.callLoop (fuel + 1) calleeToken : CompileM N Unit)
      (Survey.callLoop (fuel + 1)) := by
  rw [Cpplox.callLoop, Survey.callLoop]
  refine current.bind fun token => ?_
  cases token.type
  case leftParen =>
    refine next.bind fun _ => ?_
    refine ih.arguments.bind fun _ => ?_
    refine (emitCall _ _).bind fun _ => ?_
    refine current.bind fun following => ?_
    split
    · exact property fun _ => ih.callLoop _
    · exact ih.callLoop _
  case dot => exact property fun _ => ih.callLoop _
  all_goals exact pure ()

theorem assignment_succ (ih : Surveyed N fuel) :
    Surveys (compileAssignmentPrecedenceExpression (fuel + 1) : CompileM N Unit)
      (Survey.assignment (fuel + 1)) := by
  rw [compileAssignmentPrecedenceExpression, Survey.assignment]
  have assigns (target : Token) (names : List Token) := next.bind fun equalToken =>
    ih.assignment.bind fun _ => emitAssignment target equalToken names
  refine of_get (fun before => ?_) fun before full => ?_
  · have iter : before.survey.tokenIter = before.tokenIter := rfl
    rw [iter]
    cases peeks : peekAssignment fuel before.tokenIter with
    | error error => exact .fails (peekAssignment_not_narrowing peeks) rfl
    | ok found =>
        cases found with
        | none => exact ih.or_.tallies before
        | some found =>
            exact (assigns before.tokenIter.token found.1).tallies
              { before with tokenIter := found.2 }
  · cases peekAssignment fuel before.tokenIter with
    | error error => exact full
    | ok found =>
        cases found with
        | none => exact ih.or_.sinks before full
        | some found => exact (assigns before.tokenIter.token found.1).sinks _ full

theorem returnStatement_succ (ih : Surveyed N fuel) :
    Surveys (compileReturnStatement (fuel + 1) : CompileM N Unit)
      (Survey.returnStatement (fuel + 1)) := by
  rw [compileReturnStatement, Survey.returnStatement]
  refine get (fun _ => rfl) fun before => ?_
  dsimp only [Compiler.survey]
  rw [List.isEmpty_map]
  split
  · exact throw Error.noConfusion
  · refine next.bind fun _ => found_or_missing ?_ (get (fun _ => rfl) fun inner => ?_)
    · exact (emitDefaultReturnValue _).bind fun _ => emit _ _
    · dsimp only [Compiler.survey, FunctionChunk.map]
      split
      · exact current.bind fun _ => throw Error.noConfusion
      · refine ih.assignment.bind fun _ => ?_
        refine (expectNext _).bind fun _ => ?_
        exact emit _ _

theorem methodLoop_succ (ih : Surveyed N fuel) :
    Surveys (Cpplox.methodLoop (fuel + 1) : CompileM N Unit) (Survey.methodLoop (fuel + 1)) := by
  rw [Cpplox.methodLoop, Survey.methodLoop]
  refine current.bind fun token => ?_
  split
  · refine next.bind fun methodName => ?_
    dsimp only
    rw [← bind_assoc]
    refine (makeFunction ((trackLocal _ _).bind fun _ => ih.functionRest _) _ _ _).bind fun _ => ?_
    refine (emitName _ _ _).bind fun _ => ?_
    exact ih.methodLoop
  · exact pure ()

theorem classDeclaration_succ (ih : Surveyed N fuel) :
    Surveys (compileClassDeclaration (fuel + 1) : CompileM N Unit)
      (Survey.classDeclaration (fuel + 1)) := by
  rw [compileClassDeclaration, Survey.classDeclaration]
  refine next.bind fun _ => ?_
  refine (expectCurrent _).bind fun className => ?_
  refine (emitName _ _ _).bind fun _ => ?_
  refine get (fun _ => rfl) fun before => ?_
  refine ((trackLocal _ _).optionally _).bind fun _ => ?_
  refine (advanceIfMatch _).bind fun inherits => ?_
  split
  · refine (expectCurrent _).bind fun _ => ?_
    refine (beginSuperclass _ _).bind fun _ => ?_
    refine ih.classBody.bind fun _ => ?_
    refine (endSuperclass _).bind fun _ => ?_
    exact defineGlobalAtTop _ _
  · exact ih.classBody.bind fun _ => defineGlobalAtTop _ _

theorem funDeclaration_succ (ih : Surveyed N fuel) :
    Surveys (compileFunDeclaration (fuel + 1) : CompileM N Unit)
      (Survey.funDeclaration (fuel + 1)) := by
  rw [compileFunDeclaration, Survey.funDeclaration]
  refine next.bind fun _ => ?_
  refine (expectCurrent _).bind fun funName => ?_
  rw [← bind_assoc]
  refine (makeFunction ((trackLocal _ _).bind fun _ => ih.functionRest _) _ _ _).bind fun _ => ?_
  refine (defineGlobalAtTop _ _).bind fun _ => ?_
  refine get (fun _ => rfl) fun _ => ?_
  exact (trackLocal _ _).optionally _

theorem varDeclaration_succ (ih : Surveyed N fuel) :
    Surveys (compileVarDeclaration (fuel + 1) : CompileM N Unit)
      (Survey.varDeclaration (fuel + 1)) := by
  rw [compileVarDeclaration, Survey.varDeclaration]
  refine next.bind fun _ => ?_
  refine (expectCurrent _).bind fun variableName => ?_
  refine get (fun _ => rfl) fun _ => ?_
  refine ((trackLocal _ _).optionally _).bind fun _ => ?_
  refine (ih.initializer _).bind fun _ => ?_
  refine (expectNext _).bind fun _ => ?_
  refine (defineGlobalAtTop _ _).bind fun _ => ?_
  refine get (fun _ => rfl) fun _ => ?_
  exact initializeBack.optionally _

theorem forStatement_succ (ih : Surveyed N fuel) :
    Surveys (compileForStatement (fuel + 1) : CompileM N Unit)
      (Survey.forStatement (fuel + 1)) := by
  rw [compileForStatement, Survey.forStatement]
  refine next.bind fun _ => ?_
  refine beginScope.bind fun _ => ?_
  refine (expectNext _).bind fun _ => ?_
  refine ih.forInitializer.bind fun _ => ?_
  refine bytecodeSize.bind fun _ => ?_
  refine (ih.forCondition _).bind fun _ => ?_
  refine (emitJump .jumpIfFalse _).bind fun _ => ?_
  refine (emitJump .jump _).bind fun _ => ?_
  refine bytecodeSize.bind fun _ => ?_
  refine (ih.forIncrement _).bind fun _ => ?_
  refine (expectNext _).bind fun _ => ?_
  refine (emitLoop _ _).bind fun _ => ?_
  refine (toNextOpcode _).bind fun _ => ?_
  refine (emit _ _).bind fun _ => ?_
  refine ih.statement.bind fun _ => ?_
  refine (emitLoop _ _).bind fun _ => ?_
  refine (toNextOpcode _).bind fun _ => ?_
  refine (emit _ _).bind fun _ => ?_
  exact popTopScopeDepth _

end Surveys

theorem Surveyed.all [Number N] (fuel : Nat) : Surveyed N fuel := by
  induction fuel with
  | zero => exact .zero
  | succ fuel ih =>
      exact {
        primary := .primary_succ ih
        call := by
          rw [compileCallPrecedenceExpression, Survey.call]
          refine .unread fun _ => ?_
          refine ih.primary.bind fun _ => ?_
          exact ih.callLoop _
        callLoop := .callLoop_succ ih
        arguments := by
          rw [compileArguments, Survey.arguments]
          exact .found_or_missing (.pure _)
            (ih.argumentLoop.bind fun _ => (Surveys.expectNext _).bind fun _ => .pure _)
        argumentLoop := by
          rw [Cpplox.argumentLoop, Survey.argumentLoop]
          exact ih.assignment.bind fun _ =>
            .found_or_missing (ih.argumentLoop.bind fun _ => .pure _) (.pure _)
        unary := by
          rw [compileUnaryPrecedenceExpression, Survey.unary]
          refine Surveys.current.bind fun token => ?_
          cases token.type
          case minus =>
            refine Surveys.next.bind fun _ => ?_
            refine ih.unary.bind fun _ => ?_
            exact .emit _ _
          case bang => exact Surveys.next.bind fun _ => ih.unary.bind fun _ => .emit _ _
          all_goals exact ih.call
        multiplication := by
          rw [compileMultiplicationPrecedenceExpression, Survey.multiplication]
          exact ih.unary.bind fun _ => .whileOperator (.binaryStep ih.unary) _
        addition := by
          rw [compileAdditionPrecedenceExpression, Survey.addition]
          exact ih.multiplication.bind fun _ => .whileOperator (.binaryStep ih.multiplication) _
        comparison := by
          rw [compileComparisonPrecedenceExpression, Survey.comparison]
          exact ih.addition.bind fun _ => .whileOperator (.binaryStep ih.addition) _
        equality := by
          rw [compileEqualityPrecedenceExpression, Survey.equality]
          exact ih.comparison.bind fun _ => .whileOperator (.binaryStep ih.comparison) _
        and_ := by
          rw [compileAndPrecedenceExpression, Survey.and_]
          exact ih.equality.bind fun _ => .whileOperator (.andStep ih.equality) _
        or_ := by
          rw [compileOrPrecedenceExpression, Survey.or_]
          exact ih.and_.bind fun _ => .whileOperator (.orStep ih.and_) _
        assignment := .assignment_succ ih
        expressionStatement := by
          rw [compileExpressionStatement, Survey.expressionStatement]
          refine ih.assignment.bind fun _ => ?_
          refine Surveys.current.bind fun token => ?_
          split
          · exact .throw Error.noConfusion
          · exact (Surveys.expectCurrent _).bind fun _ => .emit _ _
        parameterLoop := by
          rw [Cpplox.parameterLoop, Survey.parameterLoop]
          refine (Surveys.expectCurrent _).bind fun _ => ?_
          refine (Surveys.trackLocal _ _).bind fun _ => ?_
          refine .found_or_missing ?_ ?_
          · exact ih.parameterLoop.bind fun _ => .pure _
          · exact (Surveys.expectNext _).bind fun _ => .pure _
        parameters := by
          rw [compileParameters, Survey.parameters]
          exact .found_or_missing (.pure _) ih.parameterLoop
        functionRest := fun token => by
          rw [compileFunctionRest, Survey.functionRest]
          refine (Surveys.expectNext _).bind fun _ => ?_
          refine ih.parameters.bind fun _ => ?_
          refine (Surveys.expectNext _).bind fun _ => ?_
          refine (ih.declarationLoop _).bind fun _ => ?_
          refine (Surveys.expectNext _).bind fun _ => ?_
          refine (Surveys.emitDefaultReturnValue _).bind fun _ => ?_
          refine (Surveys.emit _ _).bind fun _ => ?_
          exact .pure _
        declarationLoop := fun isEnd => by
          rw [Cpplox.declarationLoop, Survey.declarationLoop]
          refine Surveys.current.bind fun token => ?_
          split
          · exact .pure _
          · exact ih.declaration.bind fun _ => ih.declarationLoop _
        ifStatement := by
          rw [compileIfStatement, Survey.ifStatement]
          refine Surveys.next.bind fun _ => ?_
          refine (Surveys.expectNext _).bind fun _ => ?_
          refine ih.assignment.bind fun _ => ?_
          refine (Surveys.expectNext _).bind fun _ => ?_
          refine (Surveys.emitJump .jumpIfFalse _).bind fun _ => ?_
          refine (Surveys.emit _ _).bind fun _ => ?_
          refine ih.statement.bind fun _ => ?_
          refine (Surveys.emitJump .jump _).bind fun _ => ?_
          refine (Surveys.toNextOpcode _).bind fun _ => ?_
          refine (Surveys.emit _ _).bind fun _ => ?_
          refine (Surveys.advanceIfMatch _).bind fun _ => ?_
          refine (ih.statement.optionally _).bind fun _ => ?_
          exact .toNextOpcode _
        forInitializer := by
          rw [compileForInitializer, Survey.forInitializer]
          refine .found_or_missing (.pure _) (Surveys.current.bind fun token => ?_)
          split
          · exact ih.declaration
          · exact ih.expressionStatement
        forCondition := fun token => by
          rw [compileForCondition, Survey.forCondition]
          exact .found_or_missing (.emit _ _)
            (ih.assignment.bind fun _ => (Surveys.expectNext _).bind fun _ => .pure _)
        forIncrement := fun token => by
          rw [compileForIncrement, Survey.forIncrement]
          refine Surveys.current.bind fun current => ?_
          split
          · exact .pure _
          · exact ih.assignment.bind fun _ => .emit _ _
        forStatement := .forStatement_succ ih
        block := by
          rw [compileBlock, Survey.block]
          refine Surveys.next.bind fun _ => ?_
          refine Surveys.beginScope.bind fun _ => ?_
          refine (ih.declarationLoop _).bind fun _ => ?_
          refine (Surveys.expectCurrent _).bind fun _ => ?_
          exact .popTopScopeDepth _
        printStatement := by
          rw [compilePrintStatement, Survey.printStatement]
          refine Surveys.next.bind fun _ => ?_
          refine ih.assignment.bind fun _ => ?_
          refine (Surveys.expectNext _).bind fun _ => ?_
          exact .emit _ _
        returnStatement := .returnStatement_succ ih
        whileStatement := by
          rw [compileWhileStatement, Survey.whileStatement]
          refine Surveys.next.bind fun _ => ?_
          refine Surveys.bytecodeSize.bind fun _ => ?_
          refine (Surveys.expectNext _).bind fun _ => ?_
          refine ih.assignment.bind fun _ => ?_
          refine (Surveys.expectNext _).bind fun _ => ?_
          refine (Surveys.emitJump .jumpIfFalse _).bind fun _ => ?_
          refine (Surveys.emit _ _).bind fun _ => ?_
          refine ih.statement.bind fun _ => ?_
          refine (Surveys.emitLoop _ _).bind fun _ => ?_
          refine (Surveys.toNextOpcode _).bind fun _ => ?_
          exact .emit _ _
        statement := by
          rw [compileStatement, Survey.statement]
          refine Surveys.current.bind fun token => ?_
          cases token.type
          case if_ => exact ih.ifStatement
          case for_ => exact ih.forStatement
          case leftBrace => exact ih.block
          case print => exact ih.printStatement
          case return_ => exact ih.returnStatement
          case while_ => exact ih.whileStatement
          all_goals exact ih.expressionStatement
        methodLoop := .methodLoop_succ ih
        classBody := by
          rw [compileClassBody, Survey.classBody]
          exact (Surveys.expectNext _).bind fun _ => ih.methodLoop.bind fun _ =>
            (Surveys.expectNext _).bind fun _ => .pure _
        classDeclaration := .classDeclaration_succ ih
        funDeclaration := .funDeclaration_succ ih
        varDeclaration := .varDeclaration_succ ih
        initializer := fun token => by
          rw [compileInitializer, Survey.initializer]
          exact .found_or_missing ih.assignment (.emit _ _)
        declaration := by
          rw [compileDeclaration, Survey.declaration]
          refine Surveys.current.bind fun token => ?_
          cases token.type
          case class_ => exact ih.classDeclaration
          case fun_ => exact ih.funDeclaration
          case var => exact ih.varDeclaration
          all_goals exact ih.statement }

/-- A value, or the exception that `run_prompt` catches. -/
def Reported : Except Error α → Prop
  | .ok _ => True
  | .error (.runtimeError _) => True
  | .error _ => False

instance (result : Except Error α) : Decidable (Reported result) :=
  match result with
  | .ok _ => isTrue trivial
  | .error (.runtimeError _) => isTrue trivial
  | .error .narrowingError => isFalse id
  | .error .outOfFuel => isFalse id

/-- Every constant index, local index, upvalue index, number of upvalues, number of
arguments and jump distance that the source asks for, up to its end or to its first
error, fits its field. -/
def OperandsFit (N : Type) [Number N] (source : Text) : Prop :=
  Survey.operandsFit N (compileFuel source) source = true

instance (N : Type) [Number N] (source : Text) : Decidable (OperandsFit N source) :=
  inferInstanceAs (Decidable (_ = true))

theorem Reported.of_error {error : Error} (other : error ≠ .narrowingError)
    (ends : error ≠ .outOfFuel) : Reported (.error error : Except Error α) := by
  cases error with
  | runtimeError what => trivial
  | narrowingError => exact other rfl
  | outOfFuel => exact ends rfl

theorem reported_map {result : Except Error α} (f : α → β) :
    Reported (result.map f) ↔ Reported result := by
  cases result with
  | ok value => exact Iff.rfl
  | error error => cases error <;> exact Iff.rfl

theorem reported_iff_fits [Number N] (fuel : Nat) (before : Compiler N)
    (ends : (declarationLoop fuel atEnd).run before ≠ .error .outOfFuel) :
    Reported ((declarationLoop fuel atEnd).run before) ↔
      fitsAfter (Survey.declarationLoop fuel atEnd before.survey) = true := by
  have tallies := ((Surveyed.all fuel).declarationLoop atEnd).tallies before
  generalize (declarationLoop fuel atEnd).run before = result at tallies ends
  generalize Survey.declarationLoop fuel atEnd before.survey = surveyed at tallies
  cases tallies with
  | ok value after => exact ⟨fun _ => rfl, fun _ => trivial⟩
  | fails other fits =>
      exact ⟨fun _ => fits, fun _ => .of_error other fun empty => ends (empty ▸ rfl)⟩
  | overflows full => exact ⟨False.elim, fun fits => absurd (fits.symm.trans full) nofun⟩

theorem ofSource_not_narrowing {source : Text} {error : Error}
    (fails : TokenIterator.ofSource source = .error error) : error ≠ .narrowingError := by
  have outcome := scanToken_outcome source 1
  unfold TokenIterator.ofSource at fails
  cases scans : scanToken source 1 with
  | ok scanned => rw [scans] at fails; cases fails
  | error other =>
      rw [scans] at fails outcome
      cases fails
      obtain ⟨_, _, what, -, -, rfl⟩ := outcome
      nofun

/-- Compilation reports its errors as Lox errors exactly where all operands fit. -/
theorem compile_reported [Number N] {fuel : Nat} (source : Text)
    (enough : compileFuel source ≤ fuel) :
    Reported (compile fuel source : Except Error (List (Function (Constant N) Text))) ↔
      OperandsFit N source := by
  have ends := compile_terminates (N := N) source (Nat.le_refl _)
  rw [compile_fuel rfl ends enough, OperandsFit, Survey.operandsFit]
  rw [compile] at ends ⊢
  cases scans : TokenIterator.ofSource source with
  | error error =>
      rw [scans] at ends
      exact ⟨fun _ => rfl, fun _ => .of_error (ofSource_not_narrowing scans) fun empty =>
        ends (empty ▸ rfl)⟩
  | ok tokenIter =>
      rw [scans] at ends
      let start : Compiler N := { tokenIter, back := { chunk := {} } }
      change (Except.map _ ((declarationLoop (compileFuel source) atEnd).run start)) ≠ _ at ends
      have iff := reported_iff_fits (compileFuel source) start fun empty =>
        ends (by rw [empty]; rfl)
      exact (reported_map _).trans iff

/-- `f(1,1,1,...);` -/
def callWith (arguments : Nat) : Text :=
  "f(1".toList ++ (List.replicate (arguments - 1) ",1".toList).flatten ++ ");".toList

/-- 255 arguments fit. -/
theorem compile_reported_call :
    Reported (compile (compileFuel (callWith 255)) (callWith 255) :
      Except Error (List (Function (Constant Int) Text))) := by
  rw [compile_reported (callWith 255) (by decide +kernel)]
  decide +kernel

/-- 256 arguments make `gsl::narrow` throw. -/
theorem compile_not_reported :
    ¬ Reported (compile (compileFuel (callWith 256)) (callWith 256) :
      Except Error (List (Function (Constant Int) Text))) := by
  decide +kernel

end Cpplox
