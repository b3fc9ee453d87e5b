import Cpplox.Compiler.Compile

namespace Cpplox

/-! More fuel changes nothing but a lack of it. -/

variable {N α β : Type}

/-- Where the one does not run out of fuel, the other does the same. -/
def Below (less more : CompileM N α) : Prop :=
  ∀ before, less.run before = .error .outOfFuel ∨ less.run before = more.run before

namespace Below

theorem refl (action : CompileM N α) : Below action action := fun _ => .inr rfl

theorem empty (more : CompileM N α) : Below (throw .outOfFuel) more := fun _ => .inl rfl

theorem bind {less more : CompileM N α} {restLess restMore : α → CompileM N β}
    (one : Below less more) (two : ∀ value, Below (restLess value) (restMore value)) :
    Below (less >>= restLess) (more >>= restMore) := by
  intro before
  rw [StateT.run_bind, StateT.run_bind]
  rcases one before with empty | same
  · rw [empty]
    exact .inl rfl
  · rw [← same]
    cases less.run before with
    | error error => exact .inr rfl
    | ok result => exact two result.1 result.2

/-- After the same action. -/
theorem same {action : CompileM N α} {restLess restMore : α → CompileM N β}
    (two : ∀ value, Below (restLess value) (restMore value)) :
    Below (action >>= restLess) (action >>= restMore) :=
  (refl action).bind two

/-- Before the same action. -/
theorem andThen {less more : CompileM N α} (one : Below less more) (rest : α → CompileM N β) :
    Below (less >>= rest) (more >>= rest) :=
  one.bind fun _ => refl _

theorem optionally {less more : CompileM N Unit} (below : Below less more) (condition : Bool) :
    Below (optionally condition less) (optionally condition more) := by
  cases condition with
  | true => exact below
  | false => exact refl _

theorem inFunction {less more : CompileM N α} (below : Below less more) (isClassInitMethod : Bool) :
    Below (inFunction isClassInitMethod less) (inFunction isClassInitMethod more) :=
  same fun _ => below.andThen _

theorem lift {less more : Except Error α}
    (below : less = .error .outOfFuel ∨ less = more) :
    Below (liftM less : CompileM N α) (liftM more) := by
  rcases below with rfl | rfl
  · exact fun _ => .inl rfl
  · exact refl _

/-- A choice that does not depend on the fuel. -/
theorem found_or_missing {type : TokenType} {found missing laterFound laterMissing : CompileM N α}
    (here : Below found laterFound) (there : Below missing laterMissing) :
    Below (do if ← advanceIfMatch type then found else missing)
      (do if ← advanceIfMatch type then laterFound else laterMissing) := by
  refine same fun matched => ?_
  split
  · exact here
  · exact there

end Below

theorem whileOperator_below {isOperator : TokenType → Bool} {less more : Token → CompileM N Unit}
    (steps : ∀ operator, Below (less operator) (more operator)) (fuel : Nat) :
    Below (whileOperator isOperator less fuel) (whileOperator isOperator more (fuel + 1)) := by
  induction fuel with
  | zero => exact .empty _
  | succ fuel ih =>
      rw [whileOperator, whileOperator]
      refine .same fun token => ?_
      split
      · exact .same fun operator => (steps operator).bind fun _ => ih
      · exact .refl _

section

variable {less more : CompileM N Unit}

theorem binaryStep_below (below : Below less more) (operator : Token) :
    Below (binaryStep less operator) (binaryStep more operator) := below.andThen _

theorem andStep_below (below : Below less more) (operator : Token) :
    Below (andStep less operator) (andStep more operator) :=
  .same fun _ => .same fun _ => below.andThen _

theorem orStep_below (below : Below less more) (operator : Token) :
    Below (orStep less operator) (orStep more operator) :=
  .same fun _ => .same fun _ => .same fun _ => .same fun _ => below.andThen _

end

theorem bind_outOfFuel {first : Except Error α} {less more : α → Except Error β}
    (rest : ∀ value, less value = .error .outOfFuel ∨ less value = more value) :
    (first >>= less) = .error .outOfFuel ∨ (first >>= less) = (first >>= more) := by
  cases first with
  | error error => exact .inr rfl
  | ok value => exact rest value

theorem peekPropertyNames_below (fuel : Nat) (peekAhead : TokenIterator) :
    peekPropertyNames fuel peekAhead = .error .outOfFuel ∨
      peekPropertyNames fuel peekAhead = peekPropertyNames (fuel + 1) peekAhead := by
  induction fuel generalizing peekAhead with
  | zero => exact .inl rfl
  | succ fuel ih =>
      rw [peekPropertyNames, peekPropertyNames]
      split
      · refine bind_outOfFuel fun _ => bind_outOfFuel fun _ => bind_outOfFuel fun after => ?_
        rcases ih after with empty | same
        · rw [empty]
          exact .inl rfl
        · rw [← same]
          exact .inr rfl
      · exact .inr rfl

theorem peekAssignment_below (fuel : Nat) (iter : TokenIterator) :
    peekAssignment fuel iter = .error .outOfFuel ∨
      peekAssignment fuel iter = peekAssignment (fuel + 1) iter := by
  rw [peekAssignment, peekAssignment]
  split
  · refine bind_outOfFuel fun after => ?_
    rcases peekPropertyNames_below fuel after with empty | same
    · rw [empty]
      exact .inl rfl
    · rw [← same]
      exact .inr rfl
  · exact .inr rfl

variable (N) in
structure Monotone [Number N] (fuel : Nat) : Prop where
  primary : Below (compilePrimaryExpression fuel : CompileM N Unit)
    (compilePrimaryExpression (fuel + 1))
  call : Below (compileCallPrecedenceExpression fuel : CompileM N Unit)
    (compileCallPrecedenceExpression (fuel + 1))
  callLoop : ∀ calleeToken, Below (callLoop fuel calleeToken : CompileM N Unit)
    (callLoop (fuel + 1) calleeToken)
  arguments : Below (compileArguments fuel : CompileM N Nat) (compileArguments (fuel + 1))
  argumentLoop : Below (argumentLoop fuel : CompileM N Nat) (argumentLoop (fuel + 1))
  unary : Below (compileUnaryPrecedenceExpression fuel : CompileM N Unit)
    (compileUnaryPrecedenceExpression (fuel + 1))
  multiplication : Below (compileMultiplicationPrecedenceExpression fuel : CompileM N Unit)
    (compileMultiplicationPrecedenceExpression (fuel + 1))
  addition : Below (compileAdditionPrecedenceExpression fuel : CompileM N Unit)
    (compileAdditionPrecedenceExpression (fuel + 1))
  comparison : Below (compileComparisonPrecedenceExpression fuel : CompileM N Unit)
    (compileComparisonPrecedenceExpression (fuel + 1))
  equality : Below (compileEqualityPrecedenceExpression fuel : CompileM N Unit)
    (compileEqualityPrecedenceExpression (fuel + 1))
  and_ : Below (compileAndPrecedenceExpression fuel : CompileM N Unit)
    (compileAndPrecedenceExpression (fuel + 1))
  or_ : Below (compileOrPrecedenceExpression fuel : CompileM N Unit)
    (compileOrPrecedenceExpression (fuel + 1))
  assignment : Below (compileAssignmentPrecedenceExpression fuel : CompileM N Unit)
    (compileAssignmentPrecedenceExpression (fuel + 1))
  expressionStatement : Below (compileExpressionStatement fuel : CompileM N Unit)
    (compileExpressionStatement (fuel + 1))
  parameterLoop : Below (parameterLoop fuel : CompileM N Nat) (parameterLoop (fuel + 1))
  parameters : Below (compileParameters fuel : CompileM N Nat) (compileParameters (fuel + 1))
  functionRest : ∀ token, Below (compileFunctionRest fuel token : CompileM N Nat)
    (compileFunctionRest (fuel + 1) token)
  declarationLoop : ∀ isEnd, Below (declarationLoop fuel isEnd : CompileM N Unit)
    (declarationLoop (fuel + 1) isEnd)
  ifStatement : Below (compileIfStatement fuel : CompileM N Unit) (compileIfStatement (fuel + 1))
  forInitializer : Below (compileForInitializer fuel : CompileM N Unit)
    (compileForInitializer (fuel + 1))
  forCondition : ∀ token, Below (compileForCondition fuel token : CompileM N Unit)
    (compileForCondition (fuel + 1) token)
  forIncrement : ∀ token, Below (compileForIncrement fuel token : CompileM N Unit)
    (compileForIncrement (fuel + 1) token)
  forStatement : Below (compileForStatement fuel : CompileM N Unit) (compileForStatement (fuel + 1))
  block : Below (compileBlock fuel : CompileM N Unit) (compileBlock (fuel + 1))
  printStatement : Below (compilePrintStatement fuel : CompileM N Unit)
    (compilePrintStatement (fuel + 1))
  returnStatement : Below (compileReturnStatement fuel : CompileM N Unit)
    (compileReturnStatement (fuel + 1))
  whileStatement : Below (compileWhileStatement fuel : CompileM N Unit)
    (compileWhileStatement (fuel + 1))
  statement : Below (compileStatement fuel : CompileM N Unit) (compileStatement (fuel + 1))
  methodLoop : Below (methodLoop fuel : CompileM N Unit) (methodLoop (fuel + 1))
  classBody : Below (compileClassBody fuel : CompileM N Unit) (compileClassBody (fuel + 1))
  classDeclaration : Below (compileClassDeclaration fuel : CompileM N Unit)
    (compileClassDeclaration (fuel + 1))
  funDeclaration : Below (compileFunDeclaration fuel : CompileM N Unit)
    (compileFunDeclaration (fuel + 1))
  varDeclaration : Below (compileVarDeclaration fuel : CompileM N Unit)
    (compileVarDeclaration (fuel + 1))
  initializer : ∀ token, Below (compileInitializer fuel token : CompileM N Unit)
    (compileInitializer (fuel + 1) token)
  declaration : Below (compileDeclaration fuel : CompileM N Unit) (compileDeclaration (fuel + 1))

namespace Monotone

variable [Number N] {fuel : Nat}

theorem zero : Monotone N 0 := by
  constructor <;> intros <;> exact .empty _

theorem primary_succ (ih : Monotone N fuel) :
    Below (compilePrimaryExpression (fuel + 1) : CompileM N Unit)
      (compilePrimaryExpression (fuel + 2)) := by
  rw [compilePrimaryExpression, compilePrimaryExpression]
  refine .same fun token => ?_
  split
  case h_2 => exact .same fun _ => ((ih.functionRest _).inFunction _).andThen _
  case h_5 => exact .same fun _ => ih.assignment.andThen _
  all_goals exact .refl _

theorem callLoop_succ (ih : Monotone N fuel) (calleeToken : SourceMapToken Text) :
    Below (Cpplox.callLoop (fuel + 1) calleeToken : CompileM N Unit)
      (Cpplox.callLoop (fuel + 2) calleeToken) := by
  rw [Cpplox.callLoop, Cpplox.callLoop]
  refine .same fun token => ?_
  split
  · refine .same fun _ => ih.arguments.bind fun _ => .same fun _ => .same fun _ => ?_
    split
    · exact .same fun _ => ih.callLoop _
    · exact ih.callLoop _
  · exact .same fun _ => ih.callLoop _
  · exact .refl _

theorem assignment_succ (ih : Monotone N fuel) :
    Below (compileAssignmentPrecedenceExpression (fuel + 1) : CompileM N Unit)
      (compileAssignmentPrecedenceExpression (fuel + 2)) := by
  rw [compileAssignmentPrecedenceExpression, compileAssignmentPrecedenceExpression]
  refine .same fun compiler => (Below.lift (peekAssignment_below _ _)).bind fun peeked => ?_
  split
  · exact .same fun _ => .same fun _ => ih.assignment.andThen _
  · exact ih.or_

theorem statement_succ (ih : Monotone N fuel) :
    Below (compileStatement (fuel + 1) : CompileM N Unit) (compileStatement (fuel + 2)) := by
  rw [compileStatement, compileStatement]
  refine .same fun token => ?_
  split
  · exact ih.ifStatement
  · exact ih.forStatement
  · exact ih.block
  · exact ih.printStatement
  · exact ih.returnStatement
  · exact ih.whileStatement
  · exact ih.expressionStatement

theorem declaration_succ (ih : Monotone N fuel) :
    Below (compileDeclaration (fuel + 1) : CompileM N Unit) (compileDeclaration (fuel + 2)) := by
  rw [compileDeclaration, compileDeclaration]
  refine .same fun token => ?_
  split
  · exact ih.classDeclaration
  · exact ih.funDeclaration
  · exact ih.varDeclaration
  · exact ih.statement

theorem all (fuel : Nat) : Monotone N fuel := by
  induction fuel with
  | zero => exact zero
  | succ fuel ih =>
      exact {
        primary := ih.primary_succ
        call := by
          rw [compileCallPrecedenceExpression, compileCallPrecedenceExpression]
          exact .same fun _ => ih.primary.bind fun _ => ih.callLoop _
        callLoop := ih.callLoop_succ
        arguments := by
          rw [compileArguments, compileArguments]
          exact .found_or_missing (.refl _) (ih.argumentLoop.andThen _)
        argumentLoop := by
          rw [Cpplox.argumentLoop, Cpplox.argumentLoop]
          exact ih.assignment.bind fun _ => .found_or_missing (ih.argumentLoop.andThen _) (.refl _)
        unary := by
          rw [compileUnaryPrecedenceExpression, compileUnaryPrecedenceExpression]
          refine .same fun token => ?_
          split
          · exact .same fun _ => ih.unary.andThen _
          · exact .same fun _ => ih.unary.andThen _
          · exact ih.call
        multiplication := by
          rw [compileMultiplicationPrecedenceExpression, compileMultiplicationPrecedenceExpression]
          exact ih.unary.bind fun _ => whileOperator_below (binaryStep_below ih.unary) _
        addition := by
          rw [compileAdditionPrecedenceExpression, compileAdditionPrecedenceExpression]
          exact ih.multiplication.bind fun _ =>
            whileOperator_below (binaryStep_below ih.multiplication) _
        comparison := by
          rw [compileComparisonPrecedenceExpression, compileComparisonPrecedenceExpression]
          exact ih.addition.bind fun _ => whileOperator_below (binaryStep_below ih.addition) _
        equality := by
          rw [compileEqualityPrecedenceExpression, compileEqualityPrecedenceExpression]
          exact ih.comparison.bind fun _ => whileOperator_below (binaryStep_below ih.comparison) _
        and_ := by
          rw [compileAndPrecedenceExpression, compileAndPrecedenceExpression]
          exact ih.equality.bind fun _ => whileOperator_below (andStep_below ih.equality) _
        or_ := by
          rw [compileOrPrecedenceExpression, compileOrPrecedenceExpression]
          exact ih.and_.bind fun _ => whileOperator_below (orStep_below ih.and_) _
        assignment := ih.assignment_succ
        expressionStatement := by
          rw [compileExpressionStatement, compileExpressionStatement]
          exact ih.assignment.andThen _
        parameterLoop := by
          rw [Cpplox.parameterLoop, Cpplox.parameterLoop]
          exact .same fun _ => .same fun _ =>
            .found_or_missing (ih.parameterLoop.andThen _) (.refl _)
        parameters := by
          rw [compileParameters, compileParameters]
          exact .found_or_missing (.refl _) ih.parameterLoop
        functionRest := fun token => by
          rw [compileFunctionRest, compileFunctionRest]
          exact .same fun _ => ih.parameters.bind fun _ => .same fun _ =>
            (ih.declarationLoop _).andThen _
        declarationLoop := fun isEnd => by
          rw [Cpplox.declarationLoop, Cpplox.declarationLoop]
          refine .same fun token => ?_
          split
          · exact .refl _
          · exact ih.declaration.bind fun _ => ih.declarationLoop _
        ifStatement := by
          rw [compileIfStatement, compileIfStatement]
          exact .same fun _ => .same fun _ => ih.assignment.bind fun _ => .same fun _ =>
            .same fun _ => .same fun _ => ih.statement.bind fun _ => .same fun _ => .same fun _ =>
              .same fun _ => .same fun _ => (ih.statement.optionally _).andThen _
        forInitializer := by
          rw [compileForInitializer, compileForInitializer]
          refine .found_or_missing (.refl _) (.same fun token => ?_)
          split
          · exact ih.declaration
          · exact ih.expressionStatement
        forCondition := fun token => by
          rw [compileForCondition, compileForCondition]
          exact .found_or_missing (.refl _) (ih.assignment.andThen _)
        forIncrement := fun token => by
          rw [compileForIncrement, compileForIncrement]
          refine .same fun current => ?_
          split
          · exact .refl _
          · exact ih.assignment.andThen _
        forStatement := by
          rw [compileForStatement, compileForStatement]
          exact .same fun _ => .same fun _ => .same fun _ => ih.forInitializer.bind fun _ =>
            .same fun _ => (ih.forCondition _).bind fun _ => .same fun _ => .same fun _ =>
              .same fun _ => (ih.forIncrement _).bind fun _ => .same fun _ => .same fun _ =>
                .same fun _ => .same fun _ => ih.statement.andThen _
        block := by
          rw [compileBlock, compileBlock]
          exact .same fun _ => .same fun _ => (ih.declarationLoop _).andThen _
        printStatement := by
          rw [compilePrintStatement, compilePrintStatement]
          exact .same fun _ => ih.assignment.andThen _
        returnStatement := by
          rw [compileReturnStatement, compileReturnStatement]
          refine .same fun compiler => ?_
          split
          · exact .refl _
          · refine .same fun _ => .found_or_missing (.refl _) (.same fun compiler => ?_)
            split
            · exact .refl _
            · exact ih.assignment.andThen _
        whileStatement := by
          rw [compileWhileStatement, compileWhileStatement]
          exact .same fun _ => .same fun _ => .same fun _ => ih.assignment.bind fun _ =>
            .same fun _ => .same fun _ => .same fun _ => ih.statement.andThen _
        statement := ih.statement_succ
        methodLoop := by
          rw [Cpplox.methodLoop, Cpplox.methodLoop]
          refine .same fun token => ?_
          split
          · exact .same fun _ => (Below.inFunction (.same fun _ => ih.functionRest _) _).bind
              fun _ => .same fun _ => .same fun _ => ih.methodLoop
          · exact .refl _
        classBody := by
          rw [compileClassBody, compileClassBody]
          exact .same fun _ => ih.methodLoop.andThen _
        classDeclaration := by
          rw [compileClassDeclaration, compileClassDeclaration]
          exact .same fun _ => .same fun _ => .same fun _ => .same fun _ => .same fun _ =>
            .found_or_missing (.same fun _ => .same fun _ => ih.classBody.andThen _)
              (ih.classBody.andThen _)
        funDeclaration := by
          rw [compileFunDeclaration, compileFunDeclaration]
          exact .same fun _ => .same fun _ =>
            (Below.inFunction (.same fun _ => ih.functionRest _) _).andThen _
        varDeclaration := by
          rw [compileVarDeclaration, compileVarDeclaration]
          exact .same fun _ => .same fun _ => .same fun _ => .same fun _ =>
            (ih.initializer _).andThen _
        initializer := fun token => by
          rw [compileInitializer, compileInitializer]
          exact .found_or_missing ih.assignment (.refl _)
        declaration := ih.declaration_succ }

end Monotone

theorem compile_succ (N : Type) [Number N] (fuel : Nat) (source : Text) :
    (compile fuel source : Except Error (List (Function (Constant N) Text))) = .error .outOfFuel ∨
      (compile fuel source : Except Error (List (Function (Constant N) Text))) =
        compile (fuel + 1) source := by
  rw [compile, compile]
  refine bind_outOfFuel fun iter => ?_
  rcases (Monotone.all fuel).declarationLoop atEnd
    { tokenIter := iter, back := { chunk := ({} : Chunk.Compiled N) } } with empty | same
  · rw [empty]
    exact .inl rfl
  · rw [same]
    exact .inr rfl

/-- A result of the compiler does not depend on the fuel that is left. -/
theorem compile_fuel [Number N] {fuel more : Nat} {source : Text}
    {result : Except Error (List (Function (Constant N) Text))}
    (compiles : compile fuel source = result) (enough : result ≠ .error .outOfFuel)
    (le : fuel ≤ more) : compile more source = result := by
  induction le with
  | refl => exact compiles
  | step _ ih =>
      rcases compile_succ N _ source with empty | same
      · exact absurd (ih.symm.trans empty) enough
      · exact same.symm.trans ih

end Cpplox
