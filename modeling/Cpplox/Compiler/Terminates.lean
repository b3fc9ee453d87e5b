import Cpplox.Compiler.Ends

namespace Cpplox

open Dialect TokenIterator

/-! Compilation comes to an end.

What a function needs is a multiple of what is left to read, and its rank among the
functions that call each other before anything is read. -/

variable {N : Type} [Number N] {fuel : Nat} {before : Compiler N} {left : Nat}

omit [Number N] in
theorem whileOperator_ends {level : Level} {isOperator : TokenType → Bool}
    {step : Token → CompileM N Unit} (listed : ∀ type, isOperator type → type ∈ level.operators)
    (yields : ∀ operator before, Yields before (step operator) (Derives lox level.operand))
    (room : Room before left) (enough : left < fuel)
    (ends : ∀ operator middle less, less < left → Room middle less → Ends middle (step operator)) :
    Ends before (whileOperator isOperator step fuel) := by
  induction fuel generalizing before left with
  | zero => omega
  | succ fuel ih =>
      rw [whileOperator]
      refine .current ?_
      split
      next found =>
          have inside : before.tokenIter.token.type ≠ .eof := by
            intro same
            rw [same] at found
            have member := listed _ found
            cases level <;> revert member <;> decide
          refine .next_of room rfl inside fun operator middle less smaller room => ?_
          refine .phrase room (yields _ _)
            (fun types derives => derives.no_eof level.operand_ne_program)
            (ends _ _ less smaller room) fun _ last room => ?_
          exact ih room (by omega) fun operator middle _ _ => ends operator middle _ (by omega)
      next => exact .pure ()

theorem peekPropertyNames_ends {iter : TokenIterator} {error : Error}
    (enough : iter.remaining < fuel) (fails : peekPropertyNames fuel iter = .error error) :
    error ≠ .outOfFuel := by
  induction fuel generalizing iter with
  | zero => omega
  | succ fuel ih =>
      rw [peekPropertyNames] at fails
      split at fails
      next dot =>
          rcases except_bind_error.mp fails with first | ⟨name, first, fails⟩
          · exact advance_error first
          rcases except_bind_error.mp fails with checks | ⟨_, checks, fails⟩
          · exact ensureTokenIs_error checks
          have isName := ensureTokenIs_ok checks
          rcases except_bind_error.mp fails with second | ⟨after, second, fails⟩
          · exact advance_error second
          have one := advance_remaining first (by rw [dot]; decide)
          have two := advance_remaining second (by rw [isName]; decide)
          rcases except_bind_error.mp fails with deeper | ⟨_, _, done⟩
          · exact ih (by omega) deeper
          · cases done
      next => cases fails

theorem peekAssignment_ends {iter : TokenIterator} {error : Error}
    (enough : iter.remaining < fuel) (fails : peekAssignment fuel iter = .error error) :
    error ≠ .outOfFuel := by
  rw [peekAssignment] at fails
  split at fails
  next name =>
      have inside : iter.token.type ≠ .eof := by
        intro same
        simp [same] at name
      rcases except_bind_error.mp fails with first | ⟨after, first, fails⟩
      · exact advance_error first
      have one := advance_remaining first inside
      rcases except_bind_error.mp fails with deeper | ⟨_, _, done⟩
      · exact peekPropertyNames_ends (by omega) deeper
      · cases done
  next => cases fails

/-- Every function ends when there is fuel for twenty calls on each character left, and for
the calls before the next token is read. -/
structure Terminates (N : Type) [Number N] (fuel : Nat) : Prop where
  primary : ∀ (before : Compiler N) left, Room before left → 20 * left + 1 ≤ fuel →
    Ends before (compilePrimaryExpression fuel)
  call : ∀ (before : Compiler N) left, Room before left → 20 * left + 2 ≤ fuel →
    Ends before (compileCallPrecedenceExpression fuel)
  callLoop : ∀ (before : Compiler N) left calleeToken, Room before left → 20 * left + 1 ≤ fuel →
    Ends before (callLoop fuel calleeToken)
  arguments : ∀ (before : Compiler N) left, Room before left → 20 * left + 12 ≤ fuel →
    Ends before (compileArguments fuel)
  argumentLoop : ∀ (before : Compiler N) left, Room before left → 20 * left + 11 ≤ fuel →
    Ends before (argumentLoop fuel)
  unary : ∀ (before : Compiler N) left, Room before left → 20 * left + 3 ≤ fuel →
    Ends before (compileUnaryPrecedenceExpression fuel)
  multiplication : ∀ (before : Compiler N) left, Room before left → 20 * left + 4 ≤ fuel →
    Ends before (compileMultiplicationPrecedenceExpression fuel)
  addition : ∀ (before : Compiler N) left, Room before left → 20 * left + 5 ≤ fuel →
    Ends before (compileAdditionPrecedenceExpression fuel)
  comparison : ∀ (before : Compiler N) left, Room before left → 20 * left + 6 ≤ fuel →
    Ends before (compileComparisonPrecedenceExpression fuel)
  equality : ∀ (before : Compiler N) left, Room before left → 20 * left + 7 ≤ fuel →
    Ends before (compileEqualityPrecedenceExpression fuel)
  and_ : ∀ (before : Compiler N) left, Room before left → 20 * left + 8 ≤ fuel →
    Ends before (compileAndPrecedenceExpression fuel)
  or_ : ∀ (before : Compiler N) left, Room before left → 20 * left + 9 ≤ fuel →
    Ends before (compileOrPrecedenceExpression fuel)
  assignment : ∀ (before : Compiler N) left, Room before left → 20 * left + 10 ≤ fuel →
    Ends before (compileAssignmentPrecedenceExpression fuel)
  expressionStatement : ∀ (before : Compiler N) left, Room before left → 20 * left + 11 ≤ fuel →
    Ends before (compileExpressionStatement fuel)
  parameterLoop : ∀ (before : Compiler N) left, Room before left → 20 * left + 1 ≤ fuel →
    Ends before (parameterLoop fuel)
  parameters : ∀ (before : Compiler N) left, Room before left → 20 * left + 2 ≤ fuel →
    Ends before (compileParameters fuel)
  functionRest : ∀ (before : Compiler N) left token, Room before left → 20 * left + 1 ≤ fuel →
    Ends before (compileFunctionRest fuel token)
  declarationLoop : ∀ (before : Compiler N) left isEnd, Room before left → 20 * left + 14 ≤ fuel →
    Ends before (declarationLoop fuel isEnd)
  ifStatement : ∀ (before : Compiler N) left, before.tokenIter.token.type = .if_ →
    Room before left → 20 * left + 1 ≤ fuel → Ends before (compileIfStatement fuel)
  forInitializer : ∀ (before : Compiler N) left, Room before left → 20 * left + 14 ≤ fuel →
    Ends before (compileForInitializer fuel)
  forCondition : ∀ (before : Compiler N) left token, Room before left → 20 * left + 11 ≤ fuel →
    Ends before (compileForCondition fuel token)
  forIncrement : ∀ (before : Compiler N) left token, Room before left → 20 * left + 11 ≤ fuel →
    Ends before (compileForIncrement fuel token)
  forStatement : ∀ (before : Compiler N) left, before.tokenIter.token.type = .for_ →
    Room before left → 20 * left + 1 ≤ fuel → Ends before (compileForStatement fuel)
  block : ∀ (before : Compiler N) left, before.tokenIter.token.type = .leftBrace →
    Room before left → 20 * left + 1 ≤ fuel → Ends before (compileBlock fuel)
  printStatement : ∀ (before : Compiler N) left, before.tokenIter.token.type = .print →
    Room before left → 20 * left + 1 ≤ fuel → Ends before (compilePrintStatement fuel)
  returnStatement : ∀ (before : Compiler N) left, before.tokenIter.token.type = .return_ →
    Room before left → 20 * left + 1 ≤ fuel → Ends before (compileReturnStatement fuel)
  whileStatement : ∀ (before : Compiler N) left, before.tokenIter.token.type = .while_ →
    Room before left → 20 * left + 1 ≤ fuel → Ends before (compileWhileStatement fuel)
  statement : ∀ (before : Compiler N) left, Room before left → 20 * left + 12 ≤ fuel →
    Ends before (compileStatement fuel)
  methodLoop : ∀ (before : Compiler N) left, Room before left → 20 * left + 1 ≤ fuel →
    Ends before (methodLoop fuel)
  classBody : ∀ (before : Compiler N) left, Room before left → 20 * left + 1 ≤ fuel →
    Ends before (compileClassBody fuel)
  classDeclaration : ∀ (before : Compiler N) left, before.tokenIter.token.type = .class_ →
    Room before left → 20 * left + 1 ≤ fuel → Ends before (compileClassDeclaration fuel)
  funDeclaration : ∀ (before : Compiler N) left, before.tokenIter.token.type = .fun_ →
    Room before left → 20 * left + 1 ≤ fuel → Ends before (compileFunDeclaration fuel)
  varDeclaration : ∀ (before : Compiler N) left, before.tokenIter.token.type = .var →
    Room before left → 20 * left + 1 ≤ fuel → Ends before (compileVarDeclaration fuel)
  initializer : ∀ (before : Compiler N) left token, Room before left → 20 * left + 1 ≤ fuel →
    Ends before (compileInitializer fuel token)
  declaration : ∀ (before : Compiler N) left, Room before left → 20 * left + 13 ≤ fuel →
    Ends before (compileDeclaration fuel)

namespace Terminates

/-- What the phrases read is known from the grammar. -/
theorem sound (fuel : Nat) : Sound N lox fuel := .all covers_lox fuel

theorem primary_succ (ih : Terminates N fuel) (before : Compiler N) (left : Nat)
    (room : Room before left) (enough : 20 * left + 1 ≤ fuel + 1) :
    Ends before (compilePrimaryExpression (fuel + 1)) := by
  rw [compilePrimaryExpression]
  refine .current ?_
  split
  next type => exact .next_of room type (by decide) fun _ _ _ _ _ => .of_quiet (quiet_emit _ _)
  next type =>
      refine .next_of room type (by decide) fun _ _ less smaller room => .finish ?_ fun _ =>
        quiet_emitFunction _ _ _
      exact .inFunction room fun _ room => ih.functionRest _ less _ room (by omega)
  next type => exact .next_of room type (by decide) fun _ _ _ _ _ => .of_quiet (quiet_emitGetter _)
  next type => exact .next_of room type (by decide) fun _ _ _ _ _ => .of_quiet (quiet_emitGetter _)
  next type =>
      refine .next_of room type (by decide) fun _ _ less smaller room =>
        .phrase room ((sound fuel).assignment _) (fun _ => (·.no_eof Category.noConfusion))
          (ih.assignment _ less room (by omega)) fun _ _ room => ?_
      exact .expectNext room (by decide) fun _ _ _ _ _ => .pure ()
  next type => exact .next_of room type (by decide) fun _ _ _ _ _ => .of_quiet (quiet_emit _ _)
  next type => exact .next_of room type (by decide) fun _ _ _ _ _ => .of_quiet (quiet_emitConstant _ _)
  next type => exact .next_of room type (by decide) fun _ _ _ _ _ => .of_quiet (quiet_emitConstant _ _)
  next type =>
      refine .next_of room type (by decide) fun _ _ _ _ room => .quiet (quiet_emitGetter _) room
        fun _ _ room => .quiet (quiet_emitGetter _) room fun _ _ room =>
          .expectNext room (by decide) fun _ _ _ _ room => .expectCurrent room (by decide) fun _ _ _ _ _ => ?_
      exact .of_quiet (quiet_emitName _ _ _)
  next type => exact .next_of room type (by decide) fun _ _ _ _ _ => .of_quiet (quiet_emit _ _)
  next => exact .current (.throw Error.noConfusion)

theorem call_succ (ih : Terminates N fuel) (before : Compiler N) (left : Nat)
    (room : Room before left) (enough : 20 * left + 2 ≤ fuel + 1) :
    Ends before (compileCallPrecedenceExpression (fuel + 1)) := by
  rw [compileCallPrecedenceExpression]
  refine .current (.phrase room ((sound fuel).primary _) (fun _ => (·.no_eof Category.noConfusion))
    (ih.primary _ left room (by omega)) fun _ _ room => ?_)
  exact ih.callLoop _ left _ room (by omega)

theorem property {rest : SourceMapToken Text → CompileM N Unit} (room : Room before left)
    (dot : before.tokenIter.token.type = .dot)
    (two : ∀ token middle less, less < left → Room middle less → Ends middle (rest token)) :
    Ends before (compileProperty >>= rest) := by
  rw [compileProperty]
  simp only [bind_assoc]
  refine .next_of room dot (by decide) fun _ _ _ _ room => .expectCurrent room (by decide) fun _ _ less smaller room =>
    .quiet (quiet_emitName _ _ _) room fun _ _ room => two _ _ less (by omega) room

theorem callLoop_succ (ih : Terminates N fuel) (before : Compiler N) (left : Nat)
    (calleeToken : SourceMapToken Text) (room : Room before left)
    (enough : 20 * left + 1 ≤ fuel + 1) :
    Ends before (Cpplox.callLoop (fuel + 1) calleeToken) := by
  rw [Cpplox.callLoop]
  refine .current ?_
  split
  next paren =>
      refine .next_of room paren (by decide) fun _ _ less smaller room =>
        .phrase room ((sound fuel).arguments _) ?_ (ih.arguments _ less room (by omega))
          fun _ _ room => .quiet (quiet_emitCall _ _) room fun _ _ room => .current ?_
      · rintro _ ⟨arguments, rfl, derives⟩
        simpa using derives.no_eof Category.noConfusion
      · split
        next dot => exact property room dot fun _ _ less _ room => ih.callLoop _ less _ room (by omega)
        next => exact ih.callLoop _ less _ room (by omega)
  next dot => exact property room dot fun _ _ less _ room => ih.callLoop _ less _ room (by omega)
  next => exact .pure ()

theorem arguments_succ (ih : Terminates N fuel) (before : Compiler N) (left : Nat)
    (room : Room before left) (enough : 20 * left + 12 ≤ fuel + 1) :
    Ends before (compileArguments (fuel + 1)) := by
  rw [compileArguments]
  refine .advanceIfMatch room (by decide) (fun _ _ _ _ => .pure _) fun _ => ?_
  refine .phrase room ((sound fuel).argumentLoop _) (fun _ => (·.no_eof Category.noConfusion))
    (ih.argumentLoop _ left room (by omega)) fun _ _ room => ?_
  exact .expectNext room (by decide) fun _ _ _ _ _ => .pure _

theorem argumentLoop_succ (ih : Terminates N fuel) (before : Compiler N) (left : Nat)
    (room : Room before left) (enough : 20 * left + 11 ≤ fuel + 1) :
    Ends before (Cpplox.argumentLoop (fuel + 1)) := by
  rw [Cpplox.argumentLoop]
  refine .phrase room ((sound fuel).assignment _) (fun _ => (·.no_eof Category.noConfusion))
    (ih.assignment _ left room (by omega)) fun _ _ room => .advanceIfMatch room (by decide)
      (fun _ less _ room => ?_) fun _ => .pure _
  exact .finish (ih.argumentLoop _ less room (by omega)) fun _ => .pure _

theorem unary_succ (ih : Terminates N fuel) (before : Compiler N) (left : Nat)
    (room : Room before left) (enough : 20 * left + 3 ≤ fuel + 1) :
    Ends before (compileUnaryPrecedenceExpression (fuel + 1)) := by
  rw [compileUnaryPrecedenceExpression]
  refine .current ?_
  split
  next minus =>
      exact .next_of room minus (by decide) fun _ _ less _ room =>
        .finish (ih.unary _ less room (by omega)) fun _ => quiet_emit _ _
  next bang =>
      exact .next_of room bang (by decide) fun _ _ less _ room =>
        .finish (ih.unary _ less room (by omega)) fun _ => quiet_emit _ _
  next => exact ih.call _ left room (by omega)

omit [Number N] in
theorem level {level : Level} {isOperator : TokenType → Bool} {operand : CompileM N Unit}
    {step : Token → CompileM N Unit} (listed : ∀ type, isOperator type → type ∈ level.operators)
    (yields : ∀ before, Yields before operand (Derives lox level.operand))
    (stepYields : ∀ operator before, Yields before (step operator) (Derives lox level.operand))
    (room : Room before left) (enough : left < fuel)
    (ends : ∀ middle less, less ≤ left → Room middle less → Ends middle operand)
    (stepEnds : ∀ operator middle less, less ≤ left → Room middle less →
      Ends middle (step operator)) :
    Ends before (do operand; whileOperator isOperator step fuel) :=
  .phrase room (yields _) (fun _ derives => derives.no_eof level.operand_ne_program)
    (ends _ left (Nat.le_refl _) room) fun _ _ room =>
      whileOperator_ends listed stepYields room enough fun operator middle less smaller =>
        stepEnds operator middle less (Nat.le_of_lt smaller)

omit [Number N] in
theorem andStep {operand : CompileM N Unit} (room : Room before left)
    (ends : ∀ middle, Room middle left → Ends middle operand) (operator : Token) :
    Ends before (andStep operand operator) :=
  .quiet (quiet_emitJump _ _) room fun _ _ room => .quiet (quiet_emit _ _) room fun _ _ room =>
    .finish (ends _ room) fun _ => quiet_toNextOpcode _

omit [Number N] in
theorem orStep {operand : CompileM N Unit} (room : Room before left)
    (ends : ∀ middle, Room middle left → Ends middle operand) (operator : Token) :
    Ends before (orStep operand operator) :=
  .quiet (quiet_emitJump _ _) room fun _ _ room => .quiet (quiet_emitJump _ _) room fun _ _ room =>
    .quiet (quiet_toNextOpcode _) room fun _ _ room => .quiet (quiet_emit _ _) room fun _ _ room =>
      .finish (ends _ room) fun _ => quiet_toNextOpcode _

theorem emitAssignment (target equalToken : Token) (names : List Token) :
    Ends before (emitAssignment target equalToken names : CompileM N Unit) := by
  by_cases other : names ≠ [] ∨ target.lexeme ≠ thisName
  · exact .of_quiet (quiet_emitAssignment other)
  · obtain ⟨empty, isThis⟩ := not_or.mp other
    rw [not_not.mp empty, Cpplox.emitAssignment, if_pos (not_not.mp isThis)]
    exact .throw Error.noConfusion

theorem assignment_succ (ih : Terminates N fuel) (before : Compiler N) (left : Nat)
    (room : Room before left) (enough : 20 * left + 10 ≤ fuel + 1) :
    Ends before (compileAssignmentPrecedenceExpression (fuel + 1)) := by
  rw [compileAssignmentPrecedenceExpression]
  refine .get ?_
  have bound := room.remaining
  cases peeks : peekAssignment fuel before.tokenIter with
  | error error => exact peekAssignment_ends (by omega) peeks
  | ok peeked =>
  cases peeked with
  | none => exact ih.or_ _ left room (by omega)
  | some found =>
      obtain ⟨names, last⟩ := found
      obtain ⟨first, name, -, reads, equal⟩ := peekAssignment_consumes peeks
      have inside : .eof ∉ first :: path names.length := by
        have derives : Derives lox .call (first :: path names.length) :=
          derives_this_or_name name names.length
        exact derives.no_eof Category.noConfusion
      have read := reads.remaining inside
      have ahead : Room { before with tokenIter := last } left :=
        ⟨reads.faithful room.faithful, by simp only [List.length_cons] at read ⊢; omega⟩
      have later : Ends { before with tokenIter := last } (do
          let equalToken ← next
          compileAssignmentPrecedenceExpression fuel
          Cpplox.emitAssignment before.tokenIter.token equalToken names) :=
        .next_of ahead equal (by decide) fun equalToken _ less _ room =>
          .phrase room ((sound fuel).assignment _) (fun _ => (·.no_eof Category.noConfusion))
            (ih.assignment _ less room (by omega)) fun _ _ _ => emitAssignment _ _ _
      exact .of_length rfl later

theorem expressionStatement_succ (ih : Terminates N fuel) (before : Compiler N) (left : Nat)
    (room : Room before left) (enough : 20 * left + 11 ≤ fuel + 1) :
    Ends before (compileExpressionStatement (fuel + 1)) := by
  rw [compileExpressionStatement]
  refine .phrase room ((sound fuel).assignment _) (fun _ => (·.no_eof Category.noConfusion))
    (ih.assignment _ left room (by omega)) fun _ _ room => .current ?_
  split
  · exact .throw Error.noConfusion
  · exact .expectCurrent room (by decide) fun _ _ _ _ _ => .of_quiet (quiet_emit _ _)

theorem parameterLoop_succ (ih : Terminates N fuel) (before : Compiler N) (left : Nat)
    (room : Room before left) (enough : 20 * left + 1 ≤ fuel + 1) :
    Ends before (Cpplox.parameterLoop (fuel + 1)) := by
  rw [Cpplox.parameterLoop]
  refine .expectCurrent room (by decide) fun _ _ _ _ room => .quiet (quiet_trackLocal _ _) room fun _ _ room =>
    .advanceIfMatch room (by decide) (fun _ less _ room => ?_) fun _ => ?_
  · exact .finish (ih.parameterLoop _ less room (by omega)) fun _ => .pure _
  · exact .expectNext room (by decide) fun _ _ _ _ _ => .pure _

theorem parameters_succ (ih : Terminates N fuel) (before : Compiler N) (left : Nat)
    (room : Room before left) (enough : 20 * left + 2 ≤ fuel + 1) :
    Ends before (compileParameters (fuel + 1)) := by
  rw [compileParameters]
  exact .advanceIfMatch room (by decide) (fun _ _ _ _ => .pure _) fun _ =>
    ih.parameterLoop _ left room (by omega)

theorem functionRest_succ (ih : Terminates N fuel) (before : Compiler N) (left : Nat)
    (token : SourceMapToken Text) (room : Room before left) (enough : 20 * left + 1 ≤ fuel + 1) :
    Ends before (compileFunctionRest (fuel + 1) token) := by
  rw [compileFunctionRest]
  refine .expectNext room (by decide) fun _ _ less _ room => .phrase room ((sound fuel).parameters _) ?_
    (ih.parameters _ less room (by omega)) fun _ _ room => .expectNext room (by decide) fun _ _ less _ room =>
      .phrase room ((sound fuel).declarationLoop _ _) (fun _ => (·.no_eof Category.noConfusion))
        (ih.declarationLoop _ less _ room (by omega)) fun _ _ room =>
          .expectNext room (by decide) fun _ _ _ _ room => ?_
  · rintro _ ⟨parameters, rfl, derives⟩
    simpa using derives.no_eof Category.noConfusion
  · exact .quiet (quiet_emitDefaultReturnValue _) room fun _ _ room =>
      .quiet (quiet_emit _ _) room fun _ _ _ => .pure _

theorem declarationLoop_succ (ih : Terminates N fuel) (before : Compiler N) (left : Nat)
    (isEnd : TokenType → Bool) (room : Room before left) (enough : 20 * left + 14 ≤ fuel + 1) :
    Ends before (Cpplox.declarationLoop (fuel + 1) isEnd) := by
  rw [Cpplox.declarationLoop]
  refine .current ?_
  split
  · exact .pure ()
  · exact .solid room ((sound fuel).declaration _)
      (fun _ derives => derives.inside (List.cons_ne_nil _ _))
      (ih.declaration _ left room (by omega)) fun _ _ less _ room =>
        ih.declarationLoop _ less _ room (by omega)

theorem ifStatement_succ (ih : Terminates N fuel) (before : Compiler N) (left : Nat)
    (type : before.tokenIter.token.type = .if_) (room : Room before left)
    (enough : 20 * left + 1 ≤ fuel + 1) : Ends before (compileIfStatement (fuel + 1)) := by
  rw [compileIfStatement]
  refine .next_of room type (by decide) fun _ _ _ _ room => .expectNext room (by decide) fun _ _ less _ room =>
    .phrase room ((sound fuel).assignment _) (fun _ => (·.no_eof Category.noConfusion))
      (ih.assignment _ less room (by omega)) fun _ _ room => .expectNext room (by decide) fun _ _ less _ room =>
        .quiet (quiet_emitJump _ _) room fun _ _ room => .quiet (quiet_emit _ _) room fun _ _ room =>
          .phrase room ((sound fuel).statement _) ?_ (ih.statement _ less room (by omega))
            fun _ _ room => .quiet (quiet_emitJump _ _) room fun _ _ room =>
              .quiet (quiet_toNextOpcode _) room fun _ _ room => .quiet (quiet_emit _ _) room
                fun _ _ room => .advanceIfMatch room (by decide) (fun _ less _ room => ?_) fun _ => ?_
  · rintro _ ⟨shape, derives⟩
    exact derives.no_eof Category.noConfusion
  · exact .finish (ih.statement _ less room (by omega)) fun _ => quiet_toNextOpcode _
  · exact .quiet (.pure ()) room fun _ _ _ => .of_quiet (quiet_toNextOpcode _)

theorem forInitializer_succ (ih : Terminates N fuel) (before : Compiler N) (left : Nat)
    (room : Room before left) (enough : 20 * left + 14 ≤ fuel + 1) :
    Ends before (compileForInitializer (fuel + 1)) := by
  rw [compileForInitializer]
  refine .advanceIfMatch room (by decide) (fun _ _ _ _ => .pure ()) fun _ => .current ?_
  split
  · exact ih.declaration _ left room (by omega)
  · exact ih.expressionStatement _ left room (by omega)

theorem forCondition_succ (ih : Terminates N fuel) (before : Compiler N) (left : Nat)
    (token : SourceMapToken Text) (room : Room before left) (enough : 20 * left + 11 ≤ fuel + 1) :
    Ends before (compileForCondition (fuel + 1) token) := by
  rw [compileForCondition]
  refine .advanceIfMatch room (by decide) (fun _ _ _ _ => .of_quiet (quiet_emit _ _)) fun _ => ?_
  exact .phrase room ((sound fuel).assignment _) (fun _ => (·.no_eof Category.noConfusion))
    (ih.assignment _ left room (by omega)) fun _ _ room =>
      .expectNext room (by decide) fun _ _ _ _ _ => .pure ()

theorem forIncrement_succ (ih : Terminates N fuel) (before : Compiler N) (left : Nat)
    (token : SourceMapToken Text) (room : Room before left) (enough : 20 * left + 11 ≤ fuel + 1) :
    Ends before (compileForIncrement (fuel + 1) token) := by
  rw [compileForIncrement]
  refine .current ?_
  split
  · exact .pure ()
  · exact .finish (ih.assignment _ left room (by omega)) fun _ => quiet_emit _ _

theorem forStatement_succ (ih : Terminates N fuel) (before : Compiler N) (left : Nat)
    (type : before.tokenIter.token.type = .for_) (room : Room before left)
    (enough : 20 * left + 1 ≤ fuel + 1) : Ends before (compileForStatement (fuel + 1)) := by
  rw [compileForStatement]
  refine .next_of room type (by decide) fun _ _ _ _ room => .quiet quiet_beginScope room fun _ _ room =>
    .expectNext room (by decide) fun _ _ less _ room => .phrase room ((sound fuel).forInitializer _)
      (fun _ => (·.no_eof Category.noConfusion)) (ih.forInitializer _ less room (by omega)) fun _ _ room =>
        .quiet quiet_bytecodeSize room fun _ _ room => .phrase room ((sound fuel).forCondition _ _) ?_
          (ih.forCondition _ less _ room (by omega)) fun _ _ room => .quiet (quiet_emitJump _ _) room
            fun _ _ room => .quiet (quiet_emitJump _ _) room fun _ _ room =>
              .quiet quiet_bytecodeSize room fun _ _ room => .phrase room
                ((sound fuel).forIncrement _ _) (fun _ => (·.no_eof Category.noConfusion))
                (ih.forIncrement _ less _ room (by omega)) fun _ _ room =>
                  .expectNext room (by decide) fun _ _ less _ room => .quiet (quiet_emitLoop _ _) room
                    fun _ _ room => .quiet (quiet_toNextOpcode _) room fun _ _ room =>
                      .quiet (quiet_emit _ _) room fun _ _ room => ?_
  · rintro _ ⟨condition, rfl, derives⟩
    simpa using derives.no_eof Category.noConfusion
  · exact .finish (ih.statement _ less room (by omega)) fun _ => (quiet_emitLoop _ _).bind fun _ =>
      (quiet_toNextOpcode _).bind fun _ => (quiet_emit _ _).bind fun _ => quiet_popTopScopeDepth _

theorem block_succ (ih : Terminates N fuel) (before : Compiler N) (left : Nat)
    (type : before.tokenIter.token.type = .leftBrace) (room : Room before left)
    (enough : 20 * left + 1 ≤ fuel + 1) : Ends before (compileBlock (fuel + 1)) := by
  rw [compileBlock]
  exact .next_of room type (by decide) fun _ _ less _ room => .quiet quiet_beginScope room fun _ _ room =>
    .phrase room ((sound fuel).declarationLoop _ _) (fun _ => (·.no_eof Category.noConfusion))
      (ih.declarationLoop _ less _ room (by omega)) fun _ _ room =>
        .expectCurrent room (by decide) fun _ _ _ _ _ => .of_quiet (quiet_popTopScopeDepth _)

theorem printStatement_succ (ih : Terminates N fuel) (before : Compiler N) (left : Nat)
    (type : before.tokenIter.token.type = .print) (room : Room before left)
    (enough : 20 * left + 1 ≤ fuel + 1) : Ends before (compilePrintStatement (fuel + 1)) := by
  rw [compilePrintStatement]
  exact .next_of room type (by decide) fun _ _ less _ room => .phrase room ((sound fuel).assignment _)
    (fun _ => (·.no_eof Category.noConfusion)) (ih.assignment _ less room (by omega)) fun _ _ room =>
      .expectNext room (by decide) fun _ _ _ _ _ => .of_quiet (quiet_emit _ _)

theorem returnStatement_succ (ih : Terminates N fuel) (before : Compiler N) (left : Nat)
    (type : before.tokenIter.token.type = .return_) (room : Room before left)
    (enough : 20 * left + 1 ≤ fuel + 1) : Ends before (compileReturnStatement (fuel + 1)) := by
  rw [compileReturnStatement]
  refine .get ?_
  split
  · exact .throw Error.noConfusion
  · refine .next_of room type (by decide) fun _ _ less _ room => .advanceIfMatch room (by decide)
      (fun _ _ _ room => ?_) fun _ => .get ?_
    · exact .quiet (quiet_emitDefaultReturnValue _) room fun _ _ _ => .of_quiet (quiet_emit _ _)
    · split
      · exact .current (.throw Error.noConfusion)
      · exact .phrase room ((sound fuel).assignment _) (fun _ => (·.no_eof Category.noConfusion))
          (ih.assignment _ less room (by omega)) fun _ _ room =>
            .expectNext room (by decide) fun _ _ _ _ _ => .of_quiet (quiet_emit _ _)

theorem whileStatement_succ (ih : Terminates N fuel) (before : Compiler N) (left : Nat)
    (type : before.tokenIter.token.type = .while_) (room : Room before left)
    (enough : 20 * left + 1 ≤ fuel + 1) : Ends before (compileWhileStatement (fuel + 1)) := by
  rw [compileWhileStatement]
  refine .next_of room type (by decide) fun _ _ _ _ room => .quiet quiet_bytecodeSize room fun _ _ room =>
    .expectNext room (by decide) fun _ _ less _ room => .phrase room ((sound fuel).assignment _)
      (fun _ => (·.no_eof Category.noConfusion)) (ih.assignment _ less room (by omega)) fun _ _ room =>
        .expectNext room (by decide) fun _ _ less _ room => .quiet (quiet_emitJump _ _) room fun _ _ room =>
          .quiet (quiet_emit _ _) room fun _ _ room => .finish (ih.statement _ less room (by omega)) ?_
  exact fun _ => (quiet_emitLoop _ _).bind fun _ => (quiet_toNextOpcode _).bind fun _ => quiet_emit _ _

theorem statement_succ (ih : Terminates N fuel) (before : Compiler N) (left : Nat)
    (room : Room before left) (enough : 20 * left + 12 ≤ fuel + 1) :
    Ends before (compileStatement (fuel + 1)) := by
  rw [compileStatement]
  refine .current ?_
  split
  next type => exact ih.ifStatement _ left type room (by omega)
  next type => exact ih.forStatement _ left type room (by omega)
  next type => exact ih.block _ left type room (by omega)
  next type => exact ih.printStatement _ left type room (by omega)
  next type => exact ih.returnStatement _ left type room (by omega)
  next type => exact ih.whileStatement _ left type room (by omega)
  next => exact ih.expressionStatement _ left room (by omega)

theorem methodLoop_succ (ih : Terminates N fuel) (before : Compiler N) (left : Nat)
    (room : Room before left) (enough : 20 * left + 1 ≤ fuel + 1) :
    Ends before (Cpplox.methodLoop (fuel + 1)) := by
  rw [Cpplox.methodLoop]
  refine .current ?_
  split
  next name =>
      refine .next_of room name (by decide) fun _ _ less _ room => ?_
      have body : ∀ (isInit : Bool) (self token : SourceMapToken Text) (middle : Compiler N),
          Yields middle (inFunction isInit (do trackLocal self; compileFunctionRest fuel token))
            (Derives lox .function) := fun _ _ _ _ =>
        Yields.inFunction fun _ => .quiet (quiet_trackLocal _ _) fun _ _ => (sound fuel).functionRest _ _
      refine .phrase room (body _ _ _ _) (fun _ => (·.no_eof Category.noConfusion)) (.inFunction room fun _ room =>
        .quiet (quiet_trackLocal _ _) room fun _ _ room => ih.functionRest _ less _ room (by omega))
          fun _ _ room => .quiet (quiet_emitFunction _ _ _) room fun _ _ room =>
            .quiet (quiet_emitName _ _ _) room fun _ _ room => ?_
      exact ih.methodLoop _ less room (by omega)
  next => exact .pure ()

theorem classBody_succ (ih : Terminates N fuel) (before : Compiler N) (left : Nat)
    (room : Room before left) (enough : 20 * left + 1 ≤ fuel + 1) :
    Ends before (compileClassBody (fuel + 1)) := by
  rw [compileClassBody]
  exact .expectNext room (by decide) fun _ _ less _ room => .phrase room ((sound fuel).methodLoop _)
    (fun _ => (·.no_eof Category.noConfusion)) (ih.methodLoop _ less room (by omega)) fun _ _ room =>
      .expectNext room (by decide) fun _ _ _ _ _ => .pure ()

theorem classDeclaration_succ (ih : Terminates N fuel) (before : Compiler N) (left : Nat)
    (type : before.tokenIter.token.type = .class_) (room : Room before left)
    (enough : 20 * left + 1 ≤ fuel + 1) : Ends before (compileClassDeclaration (fuel + 1)) := by
  rw [compileClassDeclaration]
  refine .next_of room type (by decide) fun _ _ _ _ room => .expectCurrent room (by decide) fun _ _ _ _ room =>
    .quiet (quiet_emitName _ _ _) room fun _ _ room => .get (.quiet
      ((quiet_trackLocal _ _).optionally _) room fun _ _ room =>
        .advanceIfMatch room (by decide) (fun _ _ _ room => ?_) fun _ => ?_)
  · refine .expectCurrent room (by decide) fun _ _ less _ room => .quiet (quiet_beginSuperclass _ _) room
      fun _ _ room => .finish (ih.classBody _ less room (by omega)) fun _ =>
        (quiet_endSuperclass _).bind fun _ => quiet_defineGlobalAtTop _ _
  · exact .finish (ih.classBody _ _ room (by omega)) fun _ => quiet_defineGlobalAtTop _ _

theorem funDeclaration_succ (ih : Terminates N fuel) (before : Compiler N) (left : Nat)
    (type : before.tokenIter.token.type = .fun_) (room : Room before left)
    (enough : 20 * left + 1 ≤ fuel + 1) : Ends before (compileFunDeclaration (fuel + 1)) := by
  rw [compileFunDeclaration]
  refine .next_of room type (by decide) fun _ _ _ _ room => .expectCurrent room (by decide) fun _ _ less _ room =>
    .finish (.inFunction room fun _ room => .quiet (quiet_trackLocal _ _) room fun _ _ room =>
      ih.functionRest _ less _ room (by omega)) fun _ => ?_
  exact (quiet_emitFunction _ _ _).bind fun _ => (quiet_defineGlobalAtTop _ _).bind fun _ =>
    Quiet.get.bind fun _ => (quiet_trackLocal _ _).optionally _

theorem varDeclaration_succ (ih : Terminates N fuel) (before : Compiler N) (left : Nat)
    (type : before.tokenIter.token.type = .var) (room : Room before left)
    (enough : 20 * left + 1 ≤ fuel + 1) : Ends before (compileVarDeclaration (fuel + 1)) := by
  rw [compileVarDeclaration]
  refine .next_of room type (by decide) fun _ _ _ _ room => .expectCurrent room (by decide) fun _ _ less _ room =>
    .get (.quiet ((quiet_trackLocal _ _).optionally _) room fun _ _ room =>
      .phrase room ((sound fuel).initializer _ _) (fun _ => (·.no_eof Category.noConfusion))
        (ih.initializer _ less _ room (by omega)) fun _ _ room =>
          .expectNext room (by decide) fun _ _ _ _ room => .quiet (quiet_defineGlobalAtTop _ _) room
            fun _ _ _ => .get ?_)
  exact .of_quiet (quiet_initializeBack.optionally _)

theorem initializer_succ (ih : Terminates N fuel) (before : Compiler N) (left : Nat)
    (token : SourceMapToken Text) (room : Room before left) (enough : 20 * left + 1 ≤ fuel + 1) :
    Ends before (compileInitializer (fuel + 1) token) := by
  rw [compileInitializer]
  refine .advanceIfMatch room (by decide) (fun _ less _ room => ?_) fun _ => .of_quiet (quiet_emit _ _)
  exact ih.assignment _ less room (by omega)

theorem declaration_succ (ih : Terminates N fuel) (before : Compiler N) (left : Nat)
    (room : Room before left) (enough : 20 * left + 13 ≤ fuel + 1) :
    Ends before (compileDeclaration (fuel + 1)) := by
  rw [compileDeclaration]
  refine .current ?_
  split
  next type => exact ih.classDeclaration _ left type room (by omega)
  next type => exact ih.funDeclaration _ left type room (by omega)
  next type => exact ih.varDeclaration _ left type room (by omega)
  next => exact ih.statement _ left room (by omega)

theorem zero : Terminates N 0 := by
  constructor <;> intros <;> omega

theorem all (fuel : Nat) : Terminates N fuel := by
  induction fuel with
  | zero => exact .zero
  | succ fuel ih =>
      have known : Sound N lox fuel := sound fuel
      exact {
        primary := ih.primary_succ
        call := ih.call_succ
        callLoop := ih.callLoop_succ
        arguments := ih.arguments_succ
        argumentLoop := ih.argumentLoop_succ
        unary := ih.unary_succ
        multiplication := fun _ left room enough => by
          rw [compileMultiplicationPrecedenceExpression]
          exact level (fun _ => (Level.isOperator_iff .factor _).mp) known.unary
            (binaryStep_yields known.unary) room (by omega)
            (fun _ less _ room => ih.unary _ less room (by omega))
            fun _ _ less _ room => .finish (ih.unary _ less room (by omega)) fun _ => quiet_emitAll _ _
        addition := fun _ left room enough => by
          rw [compileAdditionPrecedenceExpression]
          exact level (fun _ => (Level.isOperator_iff .term _).mp) known.multiplication
            (binaryStep_yields known.multiplication) room (by omega)
            (fun _ less _ room => ih.multiplication _ less room (by omega))
            fun _ _ less _ room =>
              .finish (ih.multiplication _ less room (by omega)) fun _ => quiet_emitAll _ _
        comparison := fun _ left room enough => by
          rw [compileComparisonPrecedenceExpression]
          exact level (fun _ => (Level.isOperator_iff .comparison _).mp) known.addition
            (binaryStep_yields known.addition) room (by omega)
            (fun _ less _ room => ih.addition _ less room (by omega))
            fun _ _ less _ room =>
              .finish (ih.addition _ less room (by omega)) fun _ => quiet_emitAll _ _
        equality := fun _ left room enough => by
          rw [compileEqualityPrecedenceExpression]
          exact level (fun _ => (Level.isOperator_iff .equality _).mp) known.comparison
            (binaryStep_yields known.comparison) room (by omega)
            (fun _ less _ room => ih.comparison _ less room (by omega))
            fun _ _ less _ room =>
              .finish (ih.comparison _ less room (by omega)) fun _ => quiet_emitAll _ _
        and_ := fun _ left room enough => by
          rw [compileAndPrecedenceExpression]
          exact level (fun _ => (Level.isOperator_iff .and_ _).mp) known.equality
            (andStep_yields known.equality) room (by omega)
            (fun _ less _ room => ih.equality _ less room (by omega))
            fun operator _ less _ room =>
              andStep room (fun _ room => ih.equality _ less room (by omega)) operator
        or_ := fun _ left room enough => by
          rw [compileOrPrecedenceExpression]
          exact level (fun _ => (Level.isOperator_iff .or_ _).mp) known.and_
            (orStep_yields known.and_) room (by omega)
            (fun _ less _ room => ih.and_ _ less room (by omega))
            fun operator _ less _ room =>
              orStep room (fun _ room => ih.and_ _ less room (by omega)) operator
        assignment := ih.assignment_succ
        expressionStatement := ih.expressionStatement_succ
        parameterLoop := ih.parameterLoop_succ
        parameters := ih.parameters_succ
        functionRest := ih.functionRest_succ
        declarationLoop := ih.declarationLoop_succ
        ifStatement := ih.ifStatement_succ
        forInitializer := ih.forInitializer_succ
        forCondition := ih.forCondition_succ
        forIncrement := ih.forIncrement_succ
        forStatement := ih.forStatement_succ
        block := ih.block_succ
        printStatement := ih.printStatement_succ
        returnStatement := ih.returnStatement_succ
        whileStatement := ih.whileStatement_succ
        statement := ih.statement_succ
        methodLoop := ih.methodLoop_succ
        classBody := ih.classBody_succ
        classDeclaration := ih.classDeclaration_succ
        funDeclaration := ih.funDeclaration_succ
        varDeclaration := ih.varDeclaration_succ
        initializer := ih.initializer_succ
        declaration := ih.declaration_succ }

end Terminates

/-- Fuel that is enough for a source. -/
def compileFuel (source : Text) : Nat := 20 * (source.length + 1) + 14

theorem ofSource_remaining {source : Text} {iter : TokenIterator}
    (scans : ofSource source = .ok iter) : iter.remaining ≤ source.length + 1 := by
  unfold ofSource at scans
  cases first : scanToken source 1 with
  | error error => rw [first] at scans; cases scans
  | ok scanned =>
      rw [first] at scans
      cases scans
      rw [remaining]
      split
      · exact Nat.zero_le _
      next notEnd =>
          exact Nat.succ_le_succ (Nat.le_of_lt ((scanToken_shorter first).resolve_left notEnd))

/-- Compilation comes to an end on every source. -/
theorem compile_terminates {fuel : Nat} (source : Text) (enough : compileFuel source ≤ fuel) :
    (compile fuel source : Except Error (List (Function (Constant N) Text))) ≠
      .error .outOfFuel := by
  intro runs
  rcases except_bind_error.mp runs with scans | ⟨iter, scans, runs⟩
  · have outcome := scanToken_outcome source 1
    unfold ofSource at scans
    cases first : scanToken source 1 with
    | ok scanned => rw [first] at scans; cases scans
    | error error =>
        rw [first] at scans outcome
        cases scans
        obtain ⟨_, _, _, -, -, same⟩ := outcome
        cases same
  · rcases except_bind_error.mp runs with loops | ⟨_, _, done⟩
    · have room : Room ({ tokenIter := iter, back := { chunk := {} } } : Compiler N)
          (source.length + 1) := ⟨ofSource_faithful scans, ofSource_remaining scans⟩
      have ends := (Terminates.all fuel).declarationLoop _ _ atEnd room enough
      rw [Ends, loops] at ends
      exact ends rfl
    · cases done

end Cpplox
