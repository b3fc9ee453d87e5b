import Cpplox.Grammar.Normal
import Cpplox.Grammar.Yields

namespace Cpplox

open Dialect TokenIterator

/-! What the compiler accepts is in the grammar. -/

variable {N : Type} [Number N] {fuel : Nat} {dialect : Dialect} {before : Compiler N}

/-- A statement of either shape. -/
def Statement (dialect : Dialect) (types : List TokenType) : Prop :=
  ∃ shape, Derives dialect (.statement shape) types

/-- The test in the loop of a level. -/
def Level.isOperator : Level → TokenType → Bool
  | or_ => (· = .or_)
  | and_ => (· = .and_)
  | equality => isEqualityOperator
  | comparison => isComparisonOperator
  | term => isAdditionOperator
  | factor => isMultiplicationOperator

theorem Level.isOperator_iff (level : Level) (type : TokenType) :
    level.isOperator type = true ↔ type ∈ level.operators := by
  cases level <;> cases type <;> decide

omit [Number N] in
theorem whileOperator_yields {level : Level} {isOperator : TokenType → Bool}
    {step : Token → CompileM N Unit} (listed : ∀ type, isOperator type → type ∈ level.operators)
    (steps : ∀ operator before, Yields before (step operator) (Derives dialect level.operand)) :
    Yields before (whileOperator isOperator step fuel) (Derives dialect (.rest level)) := by
  induction fuel generalizing before with
  | zero => exact .throw
  | succ fuel ih =>
      refine .current ?_
      split
      next found =>
          refine .next fun middle => (steps _ _).bind fun _ right _ derives => ih.mono fun rest more => ?_
          exact .operator (listed _ found) derives more
      next => exact (Quiet.pure ()).yields .noOperator

omit [Number N] in
theorem level_yields {level : Level} {isOperator : TokenType → Bool} {operand : CompileM N Unit}
    {step : Token → CompileM N Unit} (listed : ∀ type, isOperator type → type ∈ level.operators)
    (yields : ∀ before, Yields before operand (Derives dialect level.operand))
    (steps : ∀ operator before, Yields before (step operator) (Derives dialect level.operand)) :
    Yields before (do operand; whileOperator isOperator step fuel)
      (Derives dialect (.binary level)) :=
  (yields _).bind fun _ _ _ derives =>
    (whileOperator_yields listed steps).mono fun _ rest => .binary derives rest

omit [Number N] in
theorem binaryStep_yields {operand : CompileM N Unit} {phrase : List TokenType → Prop}
    (yields : ∀ before, Yields before operand phrase) (operator : Token) (before : Compiler N) :
    Yields before (binaryStep operand operator) phrase :=
  (yields before).last (fun _ => quiet_emitAll _ _) fun _ => id

omit [Number N] in
theorem andStep_yields {operand : CompileM N Unit} {phrase : List TokenType → Prop}
    (yields : ∀ before, Yields before operand phrase) (operator : Token) (before : Compiler N) :
    Yields before (andStep operand operator) phrase :=
  .quiet (quiet_emitJump _ _) fun _ _ => .quiet (quiet_emit _ _) fun _ _ =>
    (yields _).last (fun _ => quiet_toNextOpcode _) fun _ => id

omit [Number N] in
theorem orStep_yields {operand : CompileM N Unit} {phrase : List TokenType → Prop}
    (yields : ∀ before, Yields before operand phrase) (operator : Token) (before : Compiler N) :
    Yields before (orStep operand operator) phrase :=
  .quiet (quiet_emitJump _ _) fun _ _ => .quiet (quiet_emitJump _ _) fun _ _ =>
    .quiet (quiet_toNextOpcode _) fun _ _ => .quiet (quiet_emit _ _) fun _ _ =>
      (yields _).last (fun _ => quiet_toNextOpcode _) fun _ => id

theorem peekPropertyNames_consumes {peekAhead last : TokenIterator} {names : List Token}
    (peeks : peekPropertyNames fuel peekAhead = .ok (names, last)) :
    peekAhead.Consumes (path names.length) last := by
  induction fuel generalizing peekAhead names with
  | zero => cases peeks
  | succ fuel ih =>
      rw [peekPropertyNames] at peeks
      split at peeks
      next dot =>
          obtain ⟨name, first, peeks⟩ := bind_ok.mp peeks
          obtain ⟨_, ensures, peeks⟩ := bind_ok.mp peeks
          obtain ⟨after, second, peeks⟩ := bind_ok.mp peeks
          obtain ⟨⟨names, last⟩, deeper, peeks⟩ := bind_ok.mp peeks
          cases peeks
          exact .cons dot first (.cons (ensureTokenIs_ok ensures) second (ih deeper))
      next =>
          cases peeks
          rfl

theorem path_succ (count : Nat) : path (count + 1) = path count ++ [.dot, .identifier] := by
  simp [path, List.replicate_succ']

theorem derives_path (count : Nat) : Derives dialect .suffixes (path count) := by
  induction count with
  | zero => exact .noSuffix
  | succ count ih => exact .propertySuffix ih

theorem derives_this_or_name {first : TokenType} (name : first = .identifier ∨ first = .this_)
    (count : Nat) : Derives dialect .call (first :: path count) :=
  .call (.literal (by rcases name with rfl | rfl <;> decide)) (derives_path count)

/-- The look-ahead has read the whole left side. -/
theorem peekAssignment_consumes {iter last : TokenIterator} {names : List Token}
    (peeks : peekAssignment fuel iter = .ok (some (names, last))) :
    ∃ first, (first = .identifier ∨ first = .this_) ∧ iter.token.type = first ∧
      iter.Consumes (first :: path names.length) last ∧ last.token.type = .equal := by
  rw [peekAssignment] at peeks
  split at peeks
  next name =>
      obtain ⟨after, advances, peeks⟩ := bind_ok.mp peeks
      obtain ⟨⟨names, last⟩, path, peeks⟩ := bind_ok.mp peeks
      simp only [Bool.or_eq_true, decide_eq_true_eq] at name
      dsimp only at peeks
      split at peeks
      next equal =>
          cases peeks
          exact ⟨_, name, rfl, .cons rfl advances (peekPropertyNames_consumes path), equal⟩
      next => cases peeks
  next => cases peeks

/-- Without names the target is a variable, since `this` is rejected. -/
theorem emitAssignment_target {target equalToken : Token} {done : Unit} {after : Compiler N}
    (runs : (emitAssignment target equalToken []).run before = .ok (done, after)) :
    target.lexeme ≠ thisName := by
  intro same
  rw [emitAssignment, if_pos same] at runs
  cases runs

theorem derives_assignment (covers : dialect.Covers) {first : TokenType} {value : List TokenType}
    (name : first = .identifier ∨ first = .this_) (count : Nat)
    (variable_ : count = 0 → first = .identifier) (derives : Derives dialect .expression value) :
    Derives dialect .expression (first :: path count ++ .equal :: value) := by
  cases count with
  | zero =>
      rw [variable_ rfl]
      exact .assignment derives
  | succ count =>
      have object := covers.object _ ⟨first, count, name, rfl⟩
      have whole := Derives.propertyAssignment object (derives_this_or_name name count) derives
      simpa [path_succ] using whole

structure Sound (N : Type) [Number N] (dialect : Dialect) (fuel : Nat) : Prop where
  primary : ∀ before : Compiler N, Yields before (compilePrimaryExpression fuel)
    (Derives dialect .primary)
  call : ∀ before : Compiler N, Yields before (compileCallPrecedenceExpression fuel)
    (Derives dialect .call)
  callLoop : ∀ (before : Compiler N) calleeToken, Yields before (callLoop fuel calleeToken)
    (Derives dialect .suffixes)
  arguments : ∀ before : Compiler N, Yields before (compileArguments fuel)
    fun types => ∃ arguments, types = arguments ++ [.rightParen] ∧
      Derives dialect .arguments arguments
  argumentLoop : ∀ before : Compiler N, Yields before (argumentLoop fuel)
    (Derives dialect .argumentList)
  unary : ∀ before : Compiler N, Yields before (compileUnaryPrecedenceExpression fuel)
    (Derives dialect .unary)
  multiplication : ∀ before : Compiler N,
    Yields before (compileMultiplicationPrecedenceExpression fuel) (Derives dialect (.binary .factor))
  addition : ∀ before : Compiler N,
    Yields before (compileAdditionPrecedenceExpression fuel) (Derives dialect (.binary .term))
  comparison : ∀ before : Compiler N,
    Yields before (compileComparisonPrecedenceExpression fuel) (Derives dialect (.binary .comparison))
  equality : ∀ before : Compiler N,
    Yields before (compileEqualityPrecedenceExpression fuel) (Derives dialect (.binary .equality))
  and_ : ∀ before : Compiler N,
    Yields before (compileAndPrecedenceExpression fuel) (Derives dialect (.binary .and_))
  or_ : ∀ before : Compiler N,
    Yields before (compileOrPrecedenceExpression fuel) (Derives dialect (.binary .or_))
  assignment : ∀ before : Compiler N,
    Yields before (compileAssignmentPrecedenceExpression fuel) (Derives dialect .expression)
  expressionStatement : ∀ before : Compiler N, Yields before (compileExpressionStatement fuel)
    (Derives dialect .exprStmt)
  parameterLoop : ∀ before : Compiler N, Yields before (parameterLoop fuel)
    fun types => ∃ parameters, types = parameters ++ [.rightParen] ∧
      Derives dialect .parameterList parameters
  parameters : ∀ before : Compiler N, Yields before (compileParameters fuel)
    fun types => ∃ parameters, types = parameters ++ [.rightParen] ∧
      Derives dialect .parameters parameters
  functionRest : ∀ (before : Compiler N) token, Yields before (compileFunctionRest fuel token)
    (Derives dialect .function)
  declarationLoop : ∀ (before : Compiler N) isEnd, Yields before (declarationLoop fuel isEnd)
    (Derives dialect .declarations)
  ifStatement : ∀ before : Compiler N, before.tokenIter.token.type = .if_ →
    Yields before (compileIfStatement fuel) (Statement dialect)
  forInitializer : ∀ before : Compiler N, Yields before (compileForInitializer fuel)
    (Derives dialect .forInitializer)
  forCondition : ∀ (before : Compiler N) token, Yields before (compileForCondition fuel token)
    fun types => ∃ condition, types = condition ++ [.semicolon] ∧ Derives dialect .clause condition
  forIncrement : ∀ (before : Compiler N) token, Yields before (compileForIncrement fuel token)
    (Derives dialect .clause)
  forStatement : ∀ before : Compiler N, before.tokenIter.token.type = .for_ →
    Yields before (compileForStatement fuel) (Statement dialect)
  block : ∀ before : Compiler N, before.tokenIter.token.type = .leftBrace →
    Yields before (compileBlock fuel) (Statement dialect)
  printStatement : ∀ before : Compiler N, before.tokenIter.token.type = .print →
    Yields before (compilePrintStatement fuel) (Statement dialect)
  returnStatement : ∀ before : Compiler N, before.tokenIter.token.type = .return_ →
    Yields before (compileReturnStatement fuel) (Statement dialect)
  whileStatement : ∀ before : Compiler N, before.tokenIter.token.type = .while_ →
    Yields before (compileWhileStatement fuel) (Statement dialect)
  statement : ∀ before : Compiler N, Yields before (compileStatement fuel) (Statement dialect)
  methodLoop : ∀ before : Compiler N, Yields before (methodLoop fuel) (Derives dialect .methods)
  classBody : ∀ before : Compiler N, Yields before (compileClassBody fuel)
    fun types => ∃ methods, types = .leftBrace :: methods ++ [.rightBrace] ∧
      Derives dialect .methods methods
  classDeclaration : ∀ before : Compiler N, before.tokenIter.token.type = .class_ →
    Yields before (compileClassDeclaration fuel) (Derives dialect .declaration)
  funDeclaration : ∀ before : Compiler N, before.tokenIter.token.type = .fun_ →
    Yields before (compileFunDeclaration fuel) (Derives dialect .declaration)
  varDeclaration : ∀ before : Compiler N, before.tokenIter.token.type = .var →
    Yields before (compileVarDeclaration fuel) (Derives dialect .varDecl)
  initializer : ∀ (before : Compiler N) token, Yields before (compileInitializer fuel token)
    (Derives dialect .initializer)
  declaration : ∀ before : Compiler N, Yields before (compileDeclaration fuel)
    (Derives dialect .declaration)
  /-- The first clause of `for` calls `compileDeclaration` at `var`. -/
  forVar : ∀ before : Compiler N, before.tokenIter.token.type = .var →
    Yields before (compileDeclaration fuel) (Derives dialect .varDecl)

namespace Sound

theorem primary_succ (ih : Sound N dialect fuel) (before : Compiler N) :
    Yields before (compilePrimaryExpression (fuel + 1)) (Derives dialect .primary) := by
  rw [compilePrimaryExpression]
  refine .current ?_
  split
  next type => exact .next_of type fun _ _ => (quiet_emit _ _).yields (.literal (by decide))
  next type =>
      refine .next_of type fun token _ => ?_
      exact (Yields.inFunction fun _ => ih.functionRest _ _).last
        (fun _ => quiet_emitFunction _ _ _) fun _ => .functionExpression
  next type => exact .next_of type fun _ _ => (quiet_emitGetter _).yields (.literal (by decide))
  next type => exact .next_of type fun _ _ => (quiet_emitGetter _).yields (.literal (by decide))
  next type =>
      refine .next_of type fun _ _ => (ih.assignment _).bind fun _ _ _ derives => ?_
      exact .expectNext fun _ _ => (Quiet.pure _).yields (.parenthesized derives)
  next type => exact .next_of type fun _ _ => (quiet_emit _ _).yields (.literal (by decide))
  next type => exact .next_of type fun _ _ => (quiet_emitConstant _ _).yields (.literal (by decide))
  next type => exact .next_of type fun _ _ => (quiet_emitConstant _ _).yields (.literal (by decide))
  next type =>
      refine .next_of type fun _ _ => .quiet (quiet_emitGetter _) fun _ _ =>
        .quiet (quiet_emitGetter _) fun _ _ => .expectNext fun _ _ => .expectCurrent fun _ _ => ?_
      exact (quiet_emitName _ _ _).yields .super
  next type => exact .next_of type fun _ _ => (quiet_emit _ _).yields (.literal (by decide))
  next => exact .current .throw

theorem call_succ (ih : Sound N dialect fuel) (before : Compiler N) :
    Yields before (compileCallPrecedenceExpression (fuel + 1)) (Derives dialect .call) := by
  rw [compileCallPrecedenceExpression]
  exact .current ((ih.primary _).bind fun _ _ _ derives =>
    (ih.callLoop _ _).mono fun _ suffixes => .call derives suffixes)

omit [Number N] in
theorem property {rest : SourceMapToken Text → CompileM N Unit} {phrase : List TokenType → Prop}
    (dot : before.tokenIter.token.type = .dot)
    (two : ∀ token middle, Yields middle (rest token) fun more =>
      phrase (.dot :: .identifier :: more)) [Number N] :
    Yields before (compileProperty >>= rest) phrase := by
  rw [compileProperty]
  simp only [bind_assoc]
  exact .next_of dot fun _ _ => .expectCurrent fun _ _ => .quiet (quiet_emitName _ _ _) fun _ _ => two _ _

theorem callLoop_succ (ih : Sound N dialect fuel) (before : Compiler N)
    (calleeToken : SourceMapToken Text) :
    Yields before (Cpplox.callLoop (fuel + 1) calleeToken) (Derives dialect .suffixes) := by
  rw [Cpplox.callLoop]
  refine .current ?_
  split
  next paren =>
      refine .next_of paren fun _ _ => (ih.arguments _).bind fun argCount _ _ arguments => ?_
      obtain ⟨arguments, rfl, derives⟩ := arguments
      refine .quiet (quiet_emitCall _ _) fun _ _ => .current ?_
      split
      next dot =>
          refine property dot fun _ _ => (ih.callLoop _ _).mono fun suffixes rest => ?_
          simpa using Derives.callSuffix derives (.propertySuffix rest)
      next =>
          refine (ih.callLoop _ _).mono fun suffixes rest => ?_
          simpa using Derives.callSuffix derives rest
  next dot => exact property dot fun _ _ => (ih.callLoop _ _).mono fun _ => .propertySuffix
  next => exact (Quiet.pure ()).yields .noSuffix

theorem arguments_succ (ih : Sound N dialect fuel) (before : Compiler N) :
    Yields before (compileArguments (fuel + 1)) fun types => ∃ arguments,
      types = arguments ++ [.rightParen] ∧ Derives dialect .arguments arguments := by
  rw [compileArguments]
  refine .advanceIfMatch (fun _ => (Quiet.pure _).yields ⟨[], rfl, .noArgument⟩) fun _ => ?_
  exact (ih.argumentLoop _).bind fun _ _ _ derives => .expectNext fun _ _ =>
    (Quiet.pure _).yields ⟨_, rfl, .arguments derives⟩

theorem argumentLoop_succ (ih : Sound N dialect fuel) (before : Compiler N) :
    Yields before (Cpplox.argumentLoop (fuel + 1)) (Derives dialect .argumentList) := by
  rw [Cpplox.argumentLoop]
  refine (ih.assignment _).bind fun _ _ _ derives => .advanceIfMatch (fun _ => ?_) fun _ => ?_
  · exact (ih.argumentLoop _).last (fun _ => .pure _) fun _ => .argument derives
  · exact (Quiet.pure _).yields (by simpa using Derives.lastArgument derives)

theorem unary_succ (ih : Sound N dialect fuel) (before : Compiler N) :
    Yields before (compileUnaryPrecedenceExpression (fuel + 1)) (Derives dialect .unary) := by
  rw [compileUnaryPrecedenceExpression]
  refine .current ?_
  split
  next minus =>
      exact .next_of minus fun _ _ => (ih.unary _).last (fun _ => quiet_emit _ _)
        fun _ => .unary (by decide)
  next bang =>
      exact .next_of bang fun _ _ => (ih.unary _).last (fun _ => quiet_emit _ _)
        fun _ => .unary (by decide)
  next => exact (ih.call _).mono fun _ => .unaryCall

theorem assignment_succ (covers : dialect.Covers) (ih : Sound N dialect fuel)
    (before : Compiler N) : Yields before (compileAssignmentPrecedenceExpression (fuel + 1))
      (Derives dialect .expression) := by
  rw [compileAssignmentPrecedenceExpression]
  refine .get fun value after runs faithful => ?_
  obtain ⟨peeked, peeks, runs⟩ := run_lift_bind_ok.mp runs
  cases peeked with
  | none => exact (ih.or_ before).mono (fun _ => .logicOr) value after runs faithful
  | some found =>
      obtain ⟨names, peekAhead⟩ := found
      obtain ⟨_, set, sets, runs⟩ := run_bind_ok.mp runs
      cases sets
      obtain ⟨equalToken, next, takes, runs⟩ := run_bind_ok.mp runs
      obtain ⟨_, middle, compiles, emits⟩ := run_bind_ok.mp runs
      obtain ⟨first, name, type, reads, equal⟩ := peekAssignment_consumes peeks
      obtain ⟨-, advances⟩ := next_run takes
      obtain ⟨types, consumes, derives⟩ := ih.assignment _ _ _ compiles (advance_faithful advances)
      have variable_ : names.length = 0 → first = .identifier := by
        intro none
        obtain rfl := List.length_eq_zero_iff.mp none
        have other := emitAssignment_target emits
        rw [Ne, ← faithful.this_iff, type] at other
        exact name.resolve_right other
      have same : after.tokenIter = middle.tokenIter := by
        by_cases other : names ≠ [] ∨ before.tokenIter.token.lexeme ≠ thisName
        · exact (quiet_emitAssignment other).iter emits
        · obtain ⟨empty, isThis⟩ := not_or.mp other
          obtain rfl := not_not.mp empty
          exact absurd (not_not.mp isThis) (emitAssignment_target emits)
      refine ⟨_, reads.append (.cons equal advances (same ▸ consumes)), ?_⟩
      exact derives_assignment covers name _ variable_ derives

theorem expressionStatement_succ (ih : Sound N dialect fuel) (before : Compiler N) :
    Yields before (compileExpressionStatement (fuel + 1)) (Derives dialect .exprStmt) := by
  rw [compileExpressionStatement]
  refine (ih.assignment _).bind fun _ _ _ derives => .current ?_
  split
  · exact .throw
  · exact .expectCurrent fun _ _ => (quiet_emit _ _).yields (.expressionStatement derives)

theorem parameterLoop_succ (ih : Sound N dialect fuel) (before : Compiler N) :
    Yields before (Cpplox.parameterLoop (fuel + 1)) fun types => ∃ parameters,
      types = parameters ++ [.rightParen] ∧ Derives dialect .parameterList parameters := by
  rw [Cpplox.parameterLoop]
  refine .expectCurrent fun _ _ => .quiet (quiet_trackLocal _ _) fun _ _ =>
    .advanceIfMatch (fun _ => ?_) fun _ => ?_
  · refine (ih.parameterLoop _).last (fun _ => .pure _) fun _ rest => ?_
    obtain ⟨parameters, rfl, derives⟩ := rest
    exact ⟨_, rfl, .parameter derives⟩
  · exact .expectNext fun _ _ => (Quiet.pure _).yields ⟨_, rfl, .lastParameter⟩

theorem parameters_succ (ih : Sound N dialect fuel) (before : Compiler N) :
    Yields before (compileParameters (fuel + 1)) fun types => ∃ parameters,
      types = parameters ++ [.rightParen] ∧ Derives dialect .parameters parameters := by
  rw [compileParameters]
  refine .advanceIfMatch (fun _ => (Quiet.pure _).yields ⟨[], rfl, .noParameter⟩) fun _ => ?_
  refine (ih.parameterLoop _).mono fun _ rest => ?_
  obtain ⟨parameters, rfl, derives⟩ := rest
  exact ⟨_, rfl, .parameters derives⟩

theorem functionRest_succ (ih : Sound N dialect fuel) (before : Compiler N)
    (token : SourceMapToken Text) :
    Yields before (compileFunctionRest (fuel + 1) token) (Derives dialect .function) := by
  rw [compileFunctionRest]
  refine .expectNext fun _ _ => (ih.parameters _).bind fun _ _ _ parameters => ?_
  obtain ⟨parameters, rfl, derives⟩ := parameters
  refine .expectNext fun _ _ => (ih.declarationLoop _ _).bind fun _ body _ derivesBody =>
    .expectNext fun _ _ => .quiet (quiet_emitDefaultReturnValue _) fun _ _ =>
      .quiet (quiet_emit _ _) fun _ _ => (Quiet.pure _).yields ?_
  simpa using Derives.function derives derivesBody

theorem declarationLoop_succ (ih : Sound N dialect fuel) (before : Compiler N)
    (isEnd : TokenType → Bool) :
    Yields before (Cpplox.declarationLoop (fuel + 1) isEnd) (Derives dialect .declarations) := by
  rw [Cpplox.declarationLoop]
  refine .current ?_
  split
  · exact (Quiet.pure ()).yields .noDeclaration
  · exact (ih.declaration _).bind fun _ _ _ head =>
      (ih.declarationLoop _ _).mono fun _ => .declarations head

theorem ifStatement_succ (covers : dialect.Covers) (ih : Sound N dialect fuel)
    (before : Compiler N) (type : before.tokenIter.token.type = .if_) :
    Yields before (compileIfStatement (fuel + 1)) (Statement dialect) := by
  rw [compileIfStatement]
  refine .next_of type fun _ _ => .expectNext fun _ _ => (ih.assignment _).bind fun _ _ _ condition =>
    .expectNext fun _ _ => .quiet (quiet_emitJump _ _) fun _ _ => .quiet (quiet_emit _ _) fun _ _ =>
      (ih.statement _).bind fun _ body _ derives => .quiet (quiet_emitJump _ _) fun _ _ =>
        .quiet (quiet_toNextOpcode _) fun _ _ => .quiet (quiet_emit _ _) fun _ _ => ?_
  obtain ⟨shape, derives⟩ := derives
  refine .advanceIfMatch (fun _ => ?_) fun _ => ?_
  · refine (ih.statement _).last (fun _ => quiet_toNextOpcode _) fun other rest => ?_
    obtain ⟨after, rest⟩ := rest
    refine ⟨after, ?_⟩
    simpa using Derives.ifElse condition (covers.thenBranch shape) derives rest
  · refine .quiet (.pure ()) fun _ _ => (quiet_toNextOpcode _).yields ⟨.open_, ?_⟩
    simpa using Derives.if_ condition derives

theorem forInitializer_succ (ih : Sound N dialect fuel) (before : Compiler N) :
    Yields before (compileForInitializer (fuel + 1)) (Derives dialect .forInitializer) := by
  rw [compileForInitializer]
  refine .advanceIfMatch (fun _ => (Quiet.pure ()).yields .forNothing) fun _ => .current ?_
  split
  next var => exact (ih.forVar _ var).mono fun _ => .forVar
  next => exact (ih.expressionStatement _).mono fun _ => .forExpression

theorem forCondition_succ (ih : Sound N dialect fuel) (before : Compiler N)
    (token : SourceMapToken Text) :
    Yields before (compileForCondition (fuel + 1) token) fun types => ∃ condition,
      types = condition ++ [.semicolon] ∧ Derives dialect .clause condition := by
  rw [compileForCondition]
  refine .advanceIfMatch (fun _ => (quiet_emit _ _).yields ⟨[], rfl, .noClause⟩) fun _ => ?_
  exact (ih.assignment _).bind fun _ _ _ derives => .expectNext fun _ _ =>
    (Quiet.pure ()).yields ⟨_, rfl, .clause derives⟩

theorem forIncrement_succ (ih : Sound N dialect fuel) (before : Compiler N)
    (token : SourceMapToken Text) :
    Yields before (compileForIncrement (fuel + 1) token) (Derives dialect .clause) := by
  rw [compileForIncrement]
  refine .current ?_
  split
  · exact (Quiet.pure ()).yields .noClause
  · exact (ih.assignment _).last (fun _ => quiet_emit _ _) fun _ => .clause

theorem forStatement_succ (ih : Sound N dialect fuel) (before : Compiler N)
    (type : before.tokenIter.token.type = .for_) :
    Yields before (compileForStatement (fuel + 1)) (Statement dialect) := by
  rw [compileForStatement]
  refine .next_of type fun _ _ => .quiet quiet_beginScope fun _ _ => .expectNext fun _ _ =>
    (ih.forInitializer _).bind fun _ _ _ initializer => .quiet quiet_bytecodeSize fun _ _ =>
      (ih.forCondition _ _).bind fun _ _ _ condition => .quiet (quiet_emitJump _ _) fun _ _ =>
        .quiet (quiet_emitJump _ _) fun _ _ => .quiet quiet_bytecodeSize fun _ _ =>
          (ih.forIncrement _ _).bind fun _ _ _ increment => .expectNext fun _ _ =>
            .quiet (quiet_emitLoop _ _) fun _ _ => .quiet (quiet_toNextOpcode _) fun _ _ =>
              .quiet (quiet_emit _ _) fun _ _ => ?_
  obtain ⟨condition, rfl, derives⟩ := condition
  refine (ih.statement _).last (fun _ => (quiet_emitLoop _ _).bind fun _ =>
    (quiet_toNextOpcode _).bind fun _ => (quiet_emit _ _).bind fun _ => quiet_popTopScopeDepth _)
      fun body rest => ?_
  obtain ⟨shape, rest⟩ := rest
  refine ⟨shape, ?_⟩
  simpa using Derives.for_ initializer derives increment rest

theorem block_succ (ih : Sound N dialect fuel) (before : Compiler N)
    (type : before.tokenIter.token.type = .leftBrace) :
    Yields before (compileBlock (fuel + 1)) (Statement dialect) := by
  rw [compileBlock]
  exact .next_of type fun _ _ => .quiet quiet_beginScope fun _ _ =>
    (ih.declarationLoop _ _).bind fun _ _ _ body => .expectCurrent fun _ _ =>
      (quiet_popTopScopeDepth _).yields ⟨.closed, .block body⟩

theorem printStatement_succ (ih : Sound N dialect fuel) (before : Compiler N)
    (type : before.tokenIter.token.type = .print) :
    Yields before (compilePrintStatement (fuel + 1)) (Statement dialect) := by
  rw [compilePrintStatement]
  exact .next_of type fun _ _ => (ih.assignment _).bind fun _ _ _ value => .expectNext fun _ _ =>
    (quiet_emit _ _).yields ⟨.closed, .print value⟩

theorem returnStatement_succ (ih : Sound N dialect fuel) (before : Compiler N)
    (type : before.tokenIter.token.type = .return_) :
    Yields before (compileReturnStatement (fuel + 1)) (Statement dialect) := by
  rw [compileReturnStatement]
  refine .get ?_
  split
  · exact .throw
  · refine .next_of type fun _ _ => .advanceIfMatch (fun _ => ?_) fun _ => .get ?_
    · exact .quiet (quiet_emitDefaultReturnValue _) fun _ _ =>
        (quiet_emit _ _).yields ⟨.closed, .return_ .noClause⟩
    · split
      · exact .current .throw
      · exact (ih.assignment _).bind fun _ _ _ value => .expectNext fun _ _ =>
          (quiet_emit _ _).yields ⟨.closed, .return_ (.clause value)⟩

theorem whileStatement_succ (ih : Sound N dialect fuel) (before : Compiler N)
    (type : before.tokenIter.token.type = .while_) :
    Yields before (compileWhileStatement (fuel + 1)) (Statement dialect) := by
  rw [compileWhileStatement]
  refine .next_of type fun _ _ => .quiet quiet_bytecodeSize fun _ _ => .expectNext fun _ _ =>
    (ih.assignment _).bind fun _ _ _ condition => .expectNext fun _ _ =>
      .quiet (quiet_emitJump _ _) fun _ _ => .quiet (quiet_emit _ _) fun _ _ => ?_
  refine (ih.statement _).last (fun _ => (quiet_emitLoop _ _).bind fun _ =>
    (quiet_toNextOpcode _).bind fun _ => quiet_emit _ _) fun body rest => ?_
  obtain ⟨shape, rest⟩ := rest
  refine ⟨shape, ?_⟩
  simpa using Derives.while_ condition rest

theorem statement_succ (ih : Sound N dialect fuel) (before : Compiler N) :
    Yields before (compileStatement (fuel + 1)) (Statement dialect) := by
  rw [compileStatement]
  refine .current ?_
  split
  next type => exact ih.ifStatement _ type
  next type => exact ih.forStatement _ type
  next type => exact ih.block _ type
  next type => exact ih.printStatement _ type
  next type => exact ih.returnStatement _ type
  next type => exact ih.whileStatement _ type
  next => exact (ih.expressionStatement _).mono fun _ value => ⟨.closed, .exprStmt value⟩

theorem methodLoop_succ (ih : Sound N dialect fuel) (before : Compiler N) :
    Yields before (Cpplox.methodLoop (fuel + 1)) (Derives dialect .methods) := by
  rw [Cpplox.methodLoop]
  refine .current ?_
  split
  next name =>
      refine .next_of name fun _ _ => (Yields.inFunction fun _ => .quiet (quiet_trackLocal _ _)
        fun _ _ => ih.functionRest _ _).bind fun _ _ _ head => .quiet (quiet_emitFunction _ _ _)
          fun _ _ => .quiet (quiet_emitName _ _ _) fun _ _ => ?_
      exact (ih.methodLoop _).mono fun _ => .methods head
  next => exact (Quiet.pure ()).yields .noMethod

theorem classBody_succ (ih : Sound N dialect fuel) (before : Compiler N) :
    Yields before (compileClassBody (fuel + 1)) fun types => ∃ methods,
      types = .leftBrace :: methods ++ [.rightBrace] ∧ Derives dialect .methods methods := by
  rw [compileClassBody]
  exact .expectNext fun _ _ => (ih.methodLoop _).bind fun _ _ _ derives => .expectNext fun _ _ =>
    (Quiet.pure ()).yields ⟨_, rfl, derives⟩

theorem classDeclaration_succ (ih : Sound N dialect fuel) (before : Compiler N)
    (type : before.tokenIter.token.type = .class_) :
    Yields before (compileClassDeclaration (fuel + 1)) (Derives dialect .declaration) := by
  rw [compileClassDeclaration]
  refine .next_of type fun _ _ => .expectCurrent fun _ _ => .quiet (quiet_emitName _ _ _) fun _ _ =>
    .get (.quiet ((quiet_trackLocal _ _).optionally _) fun _ _ => .advanceIfMatch (fun _ => ?_) fun _ => ?_)
  · refine .expectCurrent fun _ _ => .quiet (quiet_beginSuperclass _ _) fun _ _ => ?_
    refine (ih.classBody _).last (fun _ => (quiet_endSuperclass _).bind fun _ =>
      quiet_defineGlobalAtTop _ _) fun _ body => ?_
    obtain ⟨methods, rfl, derives⟩ := body
    simpa using Derives.subclass derives
  · refine (ih.classBody _).last (fun _ => quiet_defineGlobalAtTop _ _) fun _ body => ?_
    obtain ⟨methods, rfl, derives⟩ := body
    simpa using Derives.class_ derives

theorem funDeclaration_succ (ih : Sound N dialect fuel) (before : Compiler N)
    (type : before.tokenIter.token.type = .fun_) :
    Yields before (compileFunDeclaration (fuel + 1)) (Derives dialect .declaration) := by
  rw [compileFunDeclaration]
  refine .next_of type fun _ _ => .expectCurrent fun _ _ => ?_
  refine (Yields.inFunction fun _ => .quiet (quiet_trackLocal _ _) fun _ _ =>
    ih.functionRest _ _).last (fun _ => (quiet_emitFunction _ _ _).bind fun _ =>
      (quiet_defineGlobalAtTop _ _).bind fun _ => Quiet.get.bind fun _ =>
        (quiet_trackLocal _ _).optionally _) fun _ => .fun_

theorem varDeclaration_succ (ih : Sound N dialect fuel) (before : Compiler N)
    (type : before.tokenIter.token.type = .var) :
    Yields before (compileVarDeclaration (fuel + 1)) (Derives dialect .varDecl) := by
  rw [compileVarDeclaration]
  refine .next_of type fun _ _ => .expectCurrent fun _ _ => .get (.quiet
    ((quiet_trackLocal _ _).optionally _) fun _ _ => (ih.initializer _ _).bind fun _ _ _ value =>
      .expectNext fun _ _ => .quiet (quiet_defineGlobalAtTop _ _) fun _ _ => .get ?_)
  exact (quiet_initializeBack.optionally _).yields (.varDecl value)

theorem initializer_succ (ih : Sound N dialect fuel) (before : Compiler N)
    (token : SourceMapToken Text) :
    Yields before (compileInitializer (fuel + 1) token) (Derives dialect .initializer) := by
  rw [compileInitializer]
  refine .advanceIfMatch (fun _ => ?_) fun _ => (quiet_emit _ _).yields .noInitializer
  exact (ih.assignment _).mono fun _ => .initializer

theorem declaration_succ (covers : dialect.Covers) (ih : Sound N dialect fuel)
    (before : Compiler N) :
    Yields before (compileDeclaration (fuel + 1)) (Derives dialect .declaration) := by
  rw [compileDeclaration]
  refine .current ?_
  split
  next type => exact ih.classDeclaration _ type
  next type => exact ih.funDeclaration _ type
  next type => exact (ih.varDeclaration _ type).mono fun _ => .var
  next notFun _ =>
      intro value after runs faithful
      obtain ⟨types, consumes, shape, derives⟩ := ih.statement before value after runs faithful
      refine ⟨types, consumes, .statement (covers.statement _ ?_) derives⟩
      obtain ⟨first, rest, rfl, -⟩ := derives.opens (List.cons_ne_nil _ _)
      rintro ⟨⟩
      exact notFun consumes.1

theorem forVar_succ (ih : Sound N dialect fuel) (before : Compiler N)
    (type : before.tokenIter.token.type = .var) :
    Yields before (compileDeclaration (fuel + 1)) (Derives dialect .varDecl) := by
  rw [compileDeclaration]
  refine .current ?_
  simp only [type]
  exact ih.varDeclaration _ type

theorem zero : Sound N dialect 0 := by
  constructor <;> intros <;> exact .throw

theorem all (covers : dialect.Covers) (fuel : Nat) : Sound N dialect fuel := by
  induction fuel with
  | zero => exact .zero
  | succ fuel ih =>
      exact {
        primary := ih.primary_succ
        call := ih.call_succ
        callLoop := ih.callLoop_succ
        arguments := ih.arguments_succ
        argumentLoop := ih.argumentLoop_succ
        unary := ih.unary_succ
        multiplication := fun _ => by
          rw [compileMultiplicationPrecedenceExpression]
          exact level_yields (fun _ => (Level.isOperator_iff .factor _).mp) ih.unary (binaryStep_yields ih.unary)
        addition := fun _ => by
          rw [compileAdditionPrecedenceExpression]
          exact level_yields (fun _ => (Level.isOperator_iff .term _).mp) ih.multiplication (binaryStep_yields ih.multiplication)
        comparison := fun _ => by
          rw [compileComparisonPrecedenceExpression]
          exact level_yields (fun _ => (Level.isOperator_iff .comparison _).mp) ih.addition (binaryStep_yields ih.addition)
        equality := fun _ => by
          rw [compileEqualityPrecedenceExpression]
          exact level_yields (fun _ => (Level.isOperator_iff .equality _).mp) ih.comparison (binaryStep_yields ih.comparison)
        and_ := fun _ => by
          rw [compileAndPrecedenceExpression]
          exact level_yields (fun _ => (Level.isOperator_iff .and_ _).mp) ih.equality (andStep_yields ih.equality)
        or_ := fun _ => by
          rw [compileOrPrecedenceExpression]
          exact level_yields (fun _ => (Level.isOperator_iff .or_ _).mp) ih.and_ (orStep_yields ih.and_)
        assignment := ih.assignment_succ covers
        expressionStatement := ih.expressionStatement_succ
        parameterLoop := ih.parameterLoop_succ
        parameters := ih.parameters_succ
        functionRest := ih.functionRest_succ
        declarationLoop := ih.declarationLoop_succ
        ifStatement := ih.ifStatement_succ covers
        forInitializer := ih.forInitializer_succ
        forCondition := ih.forCondition_succ
        forIncrement := ih.forIncrement_succ
        forStatement := ih.forStatement_succ
        block := ih.block_succ
        printStatement := ih.printStatement_succ
        returnStatement := ih.returnStatement_succ
        whileStatement := ih.whileStatement_succ
        statement := ih.statement_succ
        methodLoop := ih.methodLoop_succ
        classBody := ih.classBody_succ
        classDeclaration := ih.classDeclaration_succ
        funDeclaration := ih.funDeclaration_succ
        varDeclaration := ih.varDeclaration_succ
        initializer := ih.initializer_succ
        declaration := ih.declaration_succ covers
        forVar := ih.forVar_succ }

end Sound

end Cpplox
