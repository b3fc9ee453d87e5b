import Cpplox.Compiler.Alike
import Cpplox.Integers

namespace Cpplox

open Data

/-! What the functions of the compiler do on sources that differ in what is between tokens. -/

variable {N : Type}

/-- The names of a look-ahead, but for their lines. -/
def NamesAlike (one two : List Token) : Prop :=
  List.Forall₂ (fun one two : Token => two.type = one.type ∧ two.lexeme = one.lexeme) one two

namespace TokenIterator.Alike

variable {one two : TokenIterator}

theorem peekPropertyNames (alike : one.Alike two) (fuel : Nat) :
    Both (fun ends otherEnds => NamesAlike ends.1 otherEnds.1 ∧ ends.2.Alike otherEnds.2)
      (peekPropertyNames fuel one) (peekPropertyNames fuel two) := by
  induction fuel generalizing one two with
  | zero => exact .fails
  | succ fuel ih =>
      rw [Cpplox.peekPropertyNames, Cpplox.peekPropertyNames, alike.type]
      split
      · refine alike.advance.bind fun name otherName names => ?_
        have expected : Both Eq (ensureTokenIs name.token .identifier)
            (ensureTokenIs otherName.token .identifier) :=
          unlined (P := fun one two => Both Eq (ensureTokenIs one _) (ensureTokenIs two _))
            (fun _ _ _ _ => Same.ensureTokenIs _) names.type names.lexeme
        refine expected.bind fun _ _ _ => names.advance.bind fun after otherAfter later => (ih later).bind fun ends otherEnds related => ?_
        exact .returns ⟨.cons ⟨names.type, names.lexeme⟩ related.1, related.2⟩
      · exact .returns ⟨.nil, alike⟩

theorem peekAssignment (alike : one.Alike two) (fuel : Nat) :
    Both (Option.Rel fun ends otherEnds => NamesAlike ends.1 otherEnds.1 ∧ ends.2.Alike otherEnds.2)
      (peekAssignment fuel one) (peekAssignment fuel two) := by
  rw [Cpplox.peekAssignment, Cpplox.peekAssignment, alike.type]
  split
  · refine alike.advance.bind fun after otherAfter later => (later.peekPropertyNames fuel).bind
      fun ends otherEnds related => ?_
    obtain ⟨names, last⟩ := ends
    obtain ⟨otherNames, otherLast⟩ := otherEnds
    have type : otherLast.token.type = last.token.type := related.2.type
    dsimp only
    rw [type]
    split
    · exact .returns (.some related)
    · exact .returns .none
  · exact .returns .none

end TokenIterator.Alike

namespace Same

theorem whileOperator {isOperator : TokenType → Bool} {step : Token → CompileM N Unit}
    (steps : ∀ type lexeme line otherLine, Same Eq (step ⟨type, lexeme, line⟩) (step ⟨type, lexeme, otherLine⟩))
    (fuel : Nat) : Same Eq (whileOperator isOperator step fuel) (Cpplox.whileOperator isOperator step fuel) := by
  induction fuel with
  | zero => exact .throw
  | succ fuel ih =>
      rw [Cpplox.whileOperator]
      refine current fun type _ _ _ => ?_
      dsimp only
      split
      · exact next fun _ _ _ _ => (steps _ _ _ _).skip ih
      · exact .pure rfl

section

variable {operand : CompileM N Unit} (same : Same Eq operand operand) (type : TokenType)
  (lexeme : Text) (line otherLine : UInt32)

include same

theorem binaryStep : Same Eq (binaryStep operand ⟨type, lexeme, line⟩)
    (Cpplox.binaryStep operand ⟨type, lexeme, otherLine⟩) := same.skip (emitAll .lines _)

theorem andStep : Same Eq (andStep operand ⟨type, lexeme, line⟩)
    (Cpplox.andStep operand ⟨type, lexeme, otherLine⟩) :=
  (emitJump .lines _).andThen fun _ => (emit .lines _).skip (same.skip (toNextOpcode _))

theorem orStep : Same Eq (orStep operand ⟨type, lexeme, line⟩)
    (Cpplox.orStep operand ⟨type, lexeme, otherLine⟩) :=
  (emitJump .lines _).andThen fun _ => (emitJump .lines _).andThen fun _ => (toNextOpcode _).skip
    ((emit .lines _).skip (same.skip (toNextOpcode _)))

end

section

variable [Number N]

theorem emitPropertyPath {names otherNames : List Token} (alike : NamesAlike names otherNames) :
    Same Eq (emitPropertyPath names : CompileM N Unit) (Cpplox.emitPropertyPath otherNames) := by
  induction alike with
  | nil => exact .pure rfl
  | @cons name otherName rest otherRest same others ih =>
      obtain ⟨type, lexeme, line⟩ := name
      obtain ⟨_, _, otherLine⟩ := otherName
      obtain ⟨rfl, rfl⟩ := same
      cases others with
      | nil => exact emitName .lines _ _
      | cons => exact (emitName .lines _ _).skip ih

theorem emitAssignment {type otherType : TokenType} {lexeme otherLexeme : Text} {line otherLine other otherOther : UInt32}
    {names otherNames : List Token} (alike : NamesAlike names otherNames) :
    Same Eq (emitAssignment ⟨type, lexeme, line⟩ ⟨otherType, otherLexeme, other⟩ names : CompileM N Unit)
      (Cpplox.emitAssignment ⟨type, lexeme, otherLine⟩ ⟨otherType, otherLexeme, otherOther⟩ otherNames) := by
  cases alike with
  | nil =>
      unfold Cpplox.emitAssignment
      dsimp only
      split
      · exact .throw
      · exact emitSetter .lines
  | cons same others => exact (emitGetter .lines).skip (emitPropertyPath (.cons same others))

theorem beginSuperclass {type otherType : TokenType} {lexeme otherLexeme : Text}
    {line otherLine other otherOther : UInt32} :
    Same Eq (beginSuperclass ⟨type, lexeme, line⟩ ⟨otherType, otherLexeme, other⟩ : CompileM N Unit)
      (Cpplox.beginSuperclass ⟨type, lexeme, otherLine⟩ ⟨otherType, otherLexeme, otherOther⟩) := by
  unfold Cpplox.beginSuperclass
  dsimp only
  split
  · exact .throw
  · refine .get fun before otherBefore compilers => ?_
    rw [compilers.scopeDepth]
    refine (Same.optionally (.modify fun before otherBefore compilers => ?_) _).skip
      (beginScope.skip ((emitGetter .lines).skip ((trackLocal .lines _).skip (emit .lines _))))
    exact ⟨compilers.gcHeap, compilers.tokenIter, compilers.scopeDepth,
      .of_fields compilers.back.chunk (by rw [compilers.back.trackedLocals])
        compilers.back.trackedUpvalues compilers.back.isClassInitMethod, compilers.enclosing⟩

omit [Number N] in
theorem endSuperclass {type : TokenType} {lexeme : Text} {line otherLine : UInt32} :
    Same Eq (endSuperclass ⟨type, lexeme, line⟩ : CompileM N Unit)
      (Cpplox.endSuperclass ⟨type, lexeme, otherLine⟩) := by
  refine (emit .lines _).skip ((popTopScopeDepth .lines).skip (inScopes (· = 0) (.modify ?_)))
  exact fun before otherBefore compilers => ⟨compilers.gcHeap, compilers.tokenIter,
    compilers.scopeDepth, .of_fields compilers.back.chunk (by rw [compilers.back.trackedLocals])
      compilers.back.trackedUpvalues compilers.back.isClassInitMethod, compilers.enclosing⟩

theorem property {α β : Type} {values : α → β → Prop} {rest : SourceMapToken Text → CompileM N α}
    {otherRest : SourceMapToken Text → CompileM N β}
    (all : ∀ lexeme line otherLine, Same values (rest ⟨lexeme, line⟩) (otherRest ⟨lexeme, otherLine⟩)) :
    Same values (compileProperty >>= rest) (compileProperty >>= otherRest) := by
  simp only [compileProperty, bind_assoc, pure_bind]
  exact next fun _ _ _ _ => expectCurrent fun _ _ _ _ => (emitName .lines _ _).skip (all _ _ _)

end

end Same

variable (N) in
/-- Every function goes together with itself, for tokens that differ in their lines. -/
structure LayoutFree [Number N] (fuel : Nat) : Prop where
  primary : Same Eq (compilePrimaryExpression fuel : CompileM N Unit) (compilePrimaryExpression fuel)
  call : Same Eq (compileCallPrecedenceExpression fuel : CompileM N Unit)
    (compileCallPrecedenceExpression fuel)
  callLoop : ∀ lexeme line otherLine, Same Eq (callLoop fuel ⟨lexeme, line⟩ : CompileM N Unit)
    (callLoop fuel ⟨lexeme, otherLine⟩)
  arguments : Same Eq (compileArguments fuel : CompileM N Nat) (compileArguments fuel)
  argumentLoop : Same Eq (argumentLoop fuel : CompileM N Nat) (argumentLoop fuel)
  unary : Same Eq (compileUnaryPrecedenceExpression fuel : CompileM N Unit)
    (compileUnaryPrecedenceExpression fuel)
  multiplication : Same Eq (compileMultiplicationPrecedenceExpression fuel : CompileM N Unit)
    (compileMultiplicationPrecedenceExpression fuel)
  addition : Same Eq (compileAdditionPrecedenceExpression fuel : CompileM N Unit)
    (compileAdditionPrecedenceExpression fuel)
  comparison : Same Eq (compileComparisonPrecedenceExpression fuel : CompileM N Unit)
    (compileComparisonPrecedenceExpression fuel)
  equality : Same Eq (compileEqualityPrecedenceExpression fuel : CompileM N Unit)
    (compileEqualityPrecedenceExpression fuel)
  and_ : Same Eq (compileAndPrecedenceExpression fuel : CompileM N Unit)
    (compileAndPrecedenceExpression fuel)
  or_ : Same Eq (compileOrPrecedenceExpression fuel : CompileM N Unit)
    (compileOrPrecedenceExpression fuel)
  assignment : Same Eq (compileAssignmentPrecedenceExpression fuel : CompileM N Unit)
    (compileAssignmentPrecedenceExpression fuel)
  expressionStatement : Same Eq (compileExpressionStatement fuel : CompileM N Unit)
    (compileExpressionStatement fuel)
  parameterLoop : Same Eq (parameterLoop fuel : CompileM N Nat) (parameterLoop fuel)
  parameters : Same Eq (compileParameters fuel : CompileM N Nat) (compileParameters fuel)
  functionRest : ∀ lexeme line otherLine, Same Eq
    (compileFunctionRest fuel ⟨lexeme, line⟩ : CompileM N Nat)
    (compileFunctionRest fuel ⟨lexeme, otherLine⟩)
  declarationLoop : ∀ isEnd, Same Eq (declarationLoop fuel isEnd : CompileM N Unit)
    (declarationLoop fuel isEnd)
  ifStatement : Same Eq (compileIfStatement fuel : CompileM N Unit) (compileIfStatement fuel)
  forInitializer : Same Eq (compileForInitializer fuel : CompileM N Unit)
    (compileForInitializer fuel)
  forCondition : ∀ lexeme line otherLine, Same Eq
    (compileForCondition fuel ⟨lexeme, line⟩ : CompileM N Unit)
    (compileForCondition fuel ⟨lexeme, otherLine⟩)
  forIncrement : ∀ lexeme line otherLine, Same Eq
    (compileForIncrement fuel ⟨lexeme, line⟩ : CompileM N Unit)
    (compileForIncrement fuel ⟨lexeme, otherLine⟩)
  forStatement : Same Eq (compileForStatement fuel : CompileM N Unit) (compileForStatement fuel)
  block : Same Eq (compileBlock fuel : CompileM N Unit) (compileBlock fuel)
  printStatement : Same Eq (compilePrintStatement fuel : CompileM N Unit)
    (compilePrintStatement fuel)
  returnStatement : Same Eq (compileReturnStatement fuel : CompileM N Unit)
    (compileReturnStatement fuel)
  whileStatement : Same Eq (compileWhileStatement fuel : CompileM N Unit)
    (compileWhileStatement fuel)
  statement : Same Eq (compileStatement fuel : CompileM N Unit) (compileStatement fuel)
  methodLoop : Same Eq (methodLoop fuel : CompileM N Unit) (methodLoop fuel)
  classBody : Same Eq (compileClassBody fuel : CompileM N Unit) (compileClassBody fuel)
  classDeclaration : Same Eq (compileClassDeclaration fuel : CompileM N Unit)
    (compileClassDeclaration fuel)
  funDeclaration : Same Eq (compileFunDeclaration fuel : CompileM N Unit)
    (compileFunDeclaration fuel)
  varDeclaration : Same Eq (compileVarDeclaration fuel : CompileM N Unit)
    (compileVarDeclaration fuel)
  initializer : ∀ lexeme line otherLine, Same Eq
    (compileInitializer fuel ⟨lexeme, line⟩ : CompileM N Unit)
    (compileInitializer fuel ⟨lexeme, otherLine⟩)
  declaration : Same Eq (compileDeclaration fuel : CompileM N Unit) (compileDeclaration fuel)

namespace LayoutFree

variable [Number N] {fuel : Nat} (ih : LayoutFree N fuel)

theorem zero : LayoutFree N 0 := by
  constructor <;> intros <;> exact .throw

include ih

theorem primary_succ : Same Eq (compilePrimaryExpression (fuel + 1) : CompileM N Unit)
    (compilePrimaryExpression (fuel + 1)) := by
  rw [compilePrimaryExpression]
  refine .current fun type lexeme line otherLine => ?_
  dsimp only
  split
  · exact .next fun _ _ _ _ => .emit .lines _
  · refine .next fun _ _ _ _ => ?_
    refine (Same.inFunction (ih.functionRest _ _ _) _).bind fun _ _ same => ?_
    exact Same.emitFunction .lines _ same
  · exact .next fun _ _ _ _ => .emitGetter .lines
  · exact .next fun _ _ _ _ => .emitGetter .lines
  · refine .next fun _ _ _ _ => ?_
    apply ih.assignment.skip
    refine Same.expectNext fun _ _ _ _ => ?_
    exact .pure rfl
  · exact .next fun _ _ _ _ => .emit .lines _
  · exact .next fun _ _ _ _ => .emitConstant .lines _
  · exact .next fun _ _ _ _ => .emitConstant .lines _
  · refine .next fun _ _ _ _ => ?_
    apply (Same.emitGetter .lines).skip
    apply (Same.emitGetter .lines).skip
    refine Same.expectNext fun _ _ _ _ => ?_
    refine .expectCurrent fun _ _ _ _ => ?_
    exact .emitName .lines _ _
  · exact .next fun _ _ _ _ => .emit .lines _
  · exact .current fun _ _ _ _ => .throw

theorem callLoop_succ (lexeme : Text) (line otherLine : UInt32) :
    Same Eq (Cpplox.callLoop (fuel + 1) ⟨lexeme, line⟩ : CompileM N Unit)
      (Cpplox.callLoop (fuel + 1) ⟨lexeme, otherLine⟩) := by
  rw [Cpplox.callLoop, Cpplox.callLoop]
  refine .current fun type _ _ _ => ?_
  dsimp only
  split
  · refine .next fun _ _ _ _ => ?_
    refine ih.arguments.andThen fun _ => ?_
    apply (Same.emitCall .lines _).skip
    refine Same.current fun type _ _ _ => ?_
    dsimp only
    split
    · exact .property fun _ _ _ => ih.callLoop _ _ _
    · exact ih.callLoop _ _ _
  · exact .property fun _ _ _ => ih.callLoop _ _ _
  · exact .pure rfl

theorem assignment_succ : Same Eq (compileAssignmentPrecedenceExpression (fuel + 1) : CompileM N Unit)
    (compileAssignmentPrecedenceExpression (fuel + 1)) := by
  rw [compileAssignmentPrecedenceExpression]
  refine .get fun before otherBefore compilers => ?_
  refine (Agree.lift (compilers.tokenIter.peekAssignment fuel)).bind fun found otherFound related => ?_
  cases related with
  | none => exact ih.or_
  | @some ends otherEnds related =>
      obtain ⟨names, peekAhead⟩ := ends
      obtain ⟨otherNames, otherPeekAhead⟩ := otherEnds
      refine .set ⟨compilers.gcHeap, related.2, compilers.scopeDepth, compilers.back,
        compilers.enclosing⟩ ?_
      refine Same.next fun type lexeme line otherLine => ?_
      apply ih.assignment.skip
      exact unlined (P := fun one two => Same Eq (Cpplox.emitAssignment one ⟨type, lexeme, line⟩ names)
        (Cpplox.emitAssignment two ⟨type, lexeme, otherLine⟩ otherNames))
        (fun _ _ _ _ => .emitAssignment related.1) compilers.tokenIter.type compilers.tokenIter.lexeme

theorem returnStatement_succ : Same Eq (compileReturnStatement (fuel + 1) : CompileM N Unit)
    (compileReturnStatement (fuel + 1)) := by
  rw [compileReturnStatement]
  refine .get fun before otherBefore compilers => ?_
  have depth : before.enclosing.isEmpty = otherBefore.enclosing.isEmpty := by
    have same := congrArg List.isEmpty compilers.enclosing
    simpa only [List.isEmpty_map] using same
  rw [depth]
  split
  · exact .throw
  · refine Same.next fun _ _ _ _ => .found_or_missing
      ((Same.emitDefaultReturnValue .lines).skip (Same.emit .lines _)) (.get fun _ _ compilers => ?_)
    rw [compilers.back.isClassInitMethod]
    split
    · exact Same.current fun _ _ _ _ => .throw
    · apply ih.assignment.skip
      refine Same.expectNext fun _ _ _ _ => ?_
      exact .emit .lines _

theorem statement_succ : Same Eq (compileStatement (fuel + 1) : CompileM N Unit)
    (compileStatement (fuel + 1)) := by
  rw [compileStatement]
  refine .current fun type _ _ _ => ?_
  dsimp only
  split
  · exact ih.ifStatement
  · exact ih.forStatement
  · exact ih.block
  · exact ih.printStatement
  · exact ih.returnStatement
  · exact ih.whileStatement
  · exact ih.expressionStatement

theorem methodLoop_succ : Same Eq (Cpplox.methodLoop (fuel + 1) : CompileM N Unit)
    (Cpplox.methodLoop (fuel + 1)) := by
  rw [Cpplox.methodLoop]
  refine .current fun type _ _ _ => ?_
  dsimp only
  split
  · refine .next fun _ _ _ _ => ?_
    refine (Same.inFunction ((Same.trackLocal .lines _).skip (ih.functionRest _ _ _)) _).bind
      fun _ _ same => ?_
    apply (Same.emitFunction .lines _ same).skip
    exact (Same.emitName .lines _ _).skip ih.methodLoop
  · exact .pure rfl

theorem declaration_succ : Same Eq (compileDeclaration (fuel + 1) : CompileM N Unit)
    (compileDeclaration (fuel + 1)) := by
  rw [compileDeclaration]
  refine .current fun type _ _ _ => ?_
  dsimp only
  split
  · exact ih.classDeclaration
  · exact ih.funDeclaration
  · exact ih.varDeclaration
  · exact ih.statement

theorem classDeclaration_succ : Same Eq (compileClassDeclaration (fuel + 1) : CompileM N Unit)
    (compileClassDeclaration (fuel + 1)) := by
  rw [compileClassDeclaration]
  refine .next fun _ _ _ _ => ?_
  refine .expectCurrent fun _ _ _ _ => ?_
  apply (Same.emitName .lines _ _).skip
  refine .get fun before otherBefore compilers => ?_
  rw [compilers.scopeDepth]
  refine ((Same.trackLocal .lines _).optionally _).skip (Same.found_or_missing ?_ ?_)
  · refine Same.expectCurrent fun _ _ _ _ => ?_
    apply Same.beginSuperclass.skip
    apply ih.classBody.skip
    apply Same.endSuperclass.skip
    exact Same.defineGlobalAtTop .lines _
  · exact ih.classBody.skip (Same.defineGlobalAtTop .lines _)

theorem funDeclaration_succ : Same Eq (compileFunDeclaration (fuel + 1) : CompileM N Unit)
    (compileFunDeclaration (fuel + 1)) := by
  rw [compileFunDeclaration]
  refine .next fun _ _ _ _ => ?_
  refine .expectCurrent fun _ _ _ _ => ?_
  refine (Same.inFunction ((Same.trackLocal .lines _).skip (ih.functionRest _ _ _)) _).bind
    fun _ _ same => ?_
  apply (Same.emitFunction .lines _ same).skip
  apply (Same.defineGlobalAtTop .lines _).skip
  exact Same.inScopes (· > 0) (Same.trackLocal .lines _)

theorem varDeclaration_succ : Same Eq (compileVarDeclaration (fuel + 1) : CompileM N Unit)
    (compileVarDeclaration (fuel + 1)) := by
  rw [compileVarDeclaration]
  refine .next fun _ _ _ _ => ?_
  refine .expectCurrent fun _ _ _ _ => ?_
  refine .get fun before otherBefore compilers => ?_
  rw [compilers.scopeDepth]
  apply ((Same.trackLocal .lines _).optionally _).skip
  apply (ih.initializer _ _ _).skip
  refine Same.expectNext fun _ _ _ _ => ?_
  apply (Same.defineGlobalAtTop .lines _).skip
  exact Same.inScopes (· > 0) Same.initializeBack

omit ih in
theorem all (fuel : Nat) : LayoutFree N fuel := by
  induction fuel with
  | zero => exact zero
  | succ fuel ih =>
      exact {
        primary := ih.primary_succ
        call := by
          rw [compileCallPrecedenceExpression]
          refine .current fun _ _ _ _ => ?_
          apply ih.primary.skip
          exact ih.callLoop _ _ _
        callLoop := ih.callLoop_succ
        arguments := by
          rw [compileArguments]
          exact .found_or_missing (.pure rfl) (ih.argumentLoop.andThen fun _ =>
            Same.expectNext fun _ _ _ _ => .pure rfl)
        argumentLoop := by
          rw [Cpplox.argumentLoop]
          exact ih.assignment.skip (Same.found_or_missing (ih.argumentLoop.andThen fun _ => .pure rfl)
            (.pure rfl))
        unary := by
          rw [compileUnaryPrecedenceExpression]
          refine .current fun type _ _ _ => ?_
          dsimp only
          split
          · refine .next fun _ _ _ _ => ?_
            apply ih.unary.skip
            exact Same.emit .lines _
          · refine .next fun _ _ _ _ => ?_
            apply ih.unary.skip
            exact Same.emit .lines _
          · exact ih.call
        multiplication := by
          rw [compileMultiplicationPrecedenceExpression]
          exact ih.unary.skip (Same.whileOperator (Same.binaryStep ih.unary) _)
        addition := by
          rw [compileAdditionPrecedenceExpression]
          exact ih.multiplication.skip (Same.whileOperator (Same.binaryStep ih.multiplication) _)
        comparison := by
          rw [compileComparisonPrecedenceExpression]
          exact ih.addition.skip (Same.whileOperator (Same.binaryStep ih.addition) _)
        equality := by
          rw [compileEqualityPrecedenceExpression]
          exact ih.comparison.skip (Same.whileOperator (Same.binaryStep ih.comparison) _)
        and_ := by
          rw [compileAndPrecedenceExpression]
          exact ih.equality.skip (Same.whileOperator (Same.andStep ih.equality) _)
        or_ := by
          rw [compileOrPrecedenceExpression]
          exact ih.and_.skip (Same.whileOperator (Same.orStep ih.and_) _)
        assignment := ih.assignment_succ
        expressionStatement := by
          rw [compileExpressionStatement]
          apply ih.assignment.skip
          refine Same.current fun type _ _ _ => ?_
          dsimp only
          split
          · exact .throw
          · exact Same.expectCurrent fun _ _ _ _ => .emit .lines _
        parameterLoop := by
          rw [Cpplox.parameterLoop]
          refine .expectCurrent fun _ _ _ _ => ?_
          apply (Same.trackLocal .lines _).skip
          refine Same.found_or_missing ?_ ?_
          · exact ih.parameterLoop.andThen fun _ => .pure rfl
          · exact Same.expectNext fun _ _ _ _ => .pure rfl
        parameters := by
          rw [compileParameters]
          exact .found_or_missing (.pure rfl) ih.parameterLoop
        functionRest := fun lexeme line otherLine => by
          rw [compileFunctionRest, compileFunctionRest]
          refine .expectNext fun _ _ _ _ => ?_
          refine ih.parameters.andThen fun _ => ?_
          refine Same.expectNext fun _ _ _ _ => ?_
          apply (ih.declarationLoop _).skip
          refine Same.expectNext fun _ _ _ _ => ?_
          apply (Same.emitDefaultReturnValue .lines).skip
          apply (Same.emit .lines _).skip
          exact .pure rfl
        declarationLoop := fun isEnd => by
          rw [Cpplox.declarationLoop]
          refine .current fun type _ _ _ => ?_
          dsimp only
          split
          · exact .pure rfl
          · exact ih.declaration.skip (ih.declarationLoop _)
        ifStatement := by
          rw [compileIfStatement]
          refine .next fun _ _ _ _ => ?_
          refine .expectNext fun _ _ _ _ => ?_
          apply ih.assignment.skip
          refine Same.expectNext fun _ _ _ _ => ?_
          refine (Same.emitJump .lines _).andThen fun _ => ?_
          apply (Same.emit .lines _).skip
          apply ih.statement.skip
          refine (Same.emitJump .lines _).andThen fun _ => ?_
          apply (Same.toNextOpcode _).skip
          apply (Same.emit .lines _).skip
          refine (Same.advanceIfMatch _).andThen fun _ => ?_
          apply (ih.statement.optionally _).skip
          exact Same.toNextOpcode _
        forInitializer := by
          rw [compileForInitializer]
          refine .found_or_missing (.pure rfl) (.current fun type _ _ _ => ?_)
          dsimp only
          split
          · exact ih.declaration
          · exact ih.expressionStatement
        forCondition := fun lexeme line otherLine => by
          rw [compileForCondition, compileForCondition]
          exact .found_or_missing (.emit .lines _) (ih.assignment.skip
            (Same.expectNext fun _ _ _ _ => .pure rfl))
        forIncrement := fun lexeme line otherLine => by
          rw [compileForIncrement, compileForIncrement]
          refine .current fun type _ _ _ => ?_
          dsimp only
          split
          · exact .pure rfl
          · exact ih.assignment.skip (Same.emit .lines _)
        forStatement := by
          rw [compileForStatement]
          refine .next fun _ _ _ _ => ?_
          apply Same.beginScope.skip
          refine Same.expectNext fun _ _ _ _ => ?_
          apply ih.forInitializer.skip
          refine Same.bytecodeSize.andThen fun _ => ?_
          apply (ih.forCondition _ _ _).skip
          refine (Same.emitJump .lines _).andThen fun _ => ?_
          refine (Same.emitJump .lines _).andThen fun _ => ?_
          refine Same.bytecodeSize.andThen fun _ => ?_
          apply (ih.forIncrement _ _ _).skip
          refine Same.expectNext fun _ _ _ _ => ?_
          apply (Same.emitLoop .lines _).skip
          apply (Same.toNextOpcode _).skip
          apply (Same.emit .lines _).skip
          apply ih.statement.skip
          apply (Same.emitLoop .lines _).skip
          apply (Same.toNextOpcode _).skip
          apply (Same.emit .lines _).skip
          exact Same.popTopScopeDepth .lines
        block := by
          rw [compileBlock]
          refine .next fun _ _ _ _ => ?_
          apply Same.beginScope.skip
          apply (ih.declarationLoop _).skip
          refine Same.expectCurrent fun _ _ _ _ => ?_
          exact .popTopScopeDepth .lines
        printStatement := by
          rw [compilePrintStatement]
          refine .next fun _ _ _ _ => ?_
          apply ih.assignment.skip
          refine Same.expectNext fun _ _ _ _ => ?_
          exact .emit .lines _
        returnStatement := ih.returnStatement_succ
        whileStatement := by
          rw [compileWhileStatement]
          refine .next fun _ _ _ _ => ?_
          refine Same.bytecodeSize.andThen fun _ => ?_
          refine Same.expectNext fun _ _ _ _ => ?_
          apply ih.assignment.skip
          refine Same.expectNext fun _ _ _ _ => ?_
          refine (Same.emitJump .lines _).andThen fun _ => ?_
          apply (Same.emit .lines _).skip
          apply ih.statement.skip
          apply (Same.emitLoop .lines _).skip
          apply (Same.toNextOpcode _).skip
          exact Same.emit .lines _
        statement := ih.statement_succ
        methodLoop := ih.methodLoop_succ
        classBody := by
          rw [compileClassBody]
          refine .expectNext fun _ _ _ _ => ?_
          apply ih.methodLoop.skip
          refine Same.expectNext fun _ _ _ _ => ?_
          exact .pure rfl
        classDeclaration := ih.classDeclaration_succ
        funDeclaration := ih.funDeclaration_succ
        varDeclaration := ih.varDeclaration_succ
        initializer := fun lexeme line otherLine => by
          rw [compileInitializer, compileInitializer]
          exact .found_or_missing ih.assignment (.emit .lines _)
        declaration := ih.declaration_succ }

end LayoutFree

/-- The functions of two sources that spell the same tokens. -/
theorem compile_spells [Number N] {source otherSource : Text} {tokens : List (TokenType × Text)}
    {whole : Bool} (spells : Spells source tokens whole) (otherSpells : Spells otherSource tokens whole)
    (fuel : Nat) : Both (fun functions otherFunctions : List (Function (Constant N) Text) =>
      functions.map (·.withoutLines) = otherFunctions.map (·.withoutLines))
      (compile fuel source) (compile fuel otherSource) := by
  refine (TokenIterator.scan_alike spells otherSpells 1 1).bind fun iter otherIter iters => ?_
  have alike : Compiler.Alike ({ tokenIter := iter, back := { chunk := {} } } : Compiler N)
      { tokenIter := otherIter, back := { chunk := {} } } := ⟨rfl, iters, rfl, rfl, rfl⟩
  refine ((LayoutFree.all fuel).declarationLoop atEnd _ _ alike).bind fun ends otherEnds related => ?_
  refine .returns ?_
  rw [List.map_append, List.map_append, related.2.gcHeap]
  simp only [List.map_cons, Function.withoutLines, related.2.back.chunk]

/-- Layout does not matter: what is written between tokens changes nothing but lines. -/
theorem compile_respaced [Number N] {source otherSource : Text} (respaced : Respaced source otherSource)
    (fuel : Nat) :
    ((∃ functions : List (Function (Constant N) Text), compile fuel otherSource = .ok functions) ↔
      ∃ functions : List (Function (Constant N) Text), compile fuel source = .ok functions) ∧
    ∀ functions otherFunctions : List (Function (Constant N) Text),
      compile fuel source = .ok functions → compile fuel otherSource = .ok otherFunctions →
        otherFunctions.map (·.withoutLines) = functions.map (·.withoutLines) := by
  obtain ⟨tokens, whole, spells⟩ := Spells.exists_spells source
  have both := compile_spells (N := N) spells (respaced.spells spells) fuel
  generalize (compile fuel source : Except Error (List (Function (Constant N) Text))) = one at both ⊢
  generalize (compile fuel otherSource : Except Error (List (Function (Constant N) Text))) = two
    at both ⊢
  cases both with
  | fails => exact ⟨⟨nofun, nofun⟩, nofun⟩
  | returns related =>
      refine ⟨⟨fun _ => ⟨_, rfl⟩, fun _ => ⟨_, rfl⟩⟩, fun _ _ here there => ?_⟩
      cases here
      cases there
      exact related.symm

/-- A comment between a number and a semicolon. -/
theorem compile_respaced_comment :
    Respaced "1;".toList "1 // one\n;".toList ∧
    (((∃ functions : List (Function (Constant Int) Text),
        compile 20 "1 // one\n;".toList = .ok functions) ↔
      ∃ functions : List (Function (Constant Int) Text), compile 20 "1;".toList = .ok functions) ∧
    ∀ functions otherFunctions : List (Function (Constant Int) Text),
      compile 20 "1;".toList = .ok functions → compile 20 "1 // one\n;".toList = .ok otherFunctions →
        otherFunctions.map (·.withoutLines) = functions.map (·.withoutLines)) := by
  have number : Munches Element (some .number) "1".toList ";".toList :=
    @munches_whole '1' (by decide) ";".toList fun same => by cases same
  have comment : Filler "// one\n".toList := @Filler.comment " one".toList [] (by decide) .nil
  have layout : Blankspace " // one\n".toList := .blank (by decide) comment
  have respaced : Respaced "1;".toList "1 // one\n;".toList := .element number (.insert layout (.same _))
  exact ⟨respaced, compile_respaced respaced 20⟩

end Cpplox
