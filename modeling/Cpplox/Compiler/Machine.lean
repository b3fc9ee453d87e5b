import Cpplox.Compiler.Control

namespace Cpplox

open Data Routine

/-! The machine does what the functions of the compiler do. -/

variable {N α β : Type} [Number N]

variable (N) in
/-- The functions of the compiler, for the calls that stand for them. -/
inductive Proc.Compiles (fuel : Nat) : (procedure : Proc) → CompileM N (procedure.Result N) → Prop where
  | primary : Compiles fuel .primary (compilePrimaryExpression fuel)
  | call : Compiles fuel .call (compileCallPrecedenceExpression fuel)
  | callLoop (calleeToken : SourceMapToken Text) :
      Compiles fuel (.callLoop calleeToken) (Cpplox.callLoop fuel calleeToken)
  | arguments : Compiles fuel .arguments (compileArguments fuel)
  | argumentLoop : Compiles fuel .argumentLoop (Cpplox.argumentLoop fuel)
  | unary : Compiles fuel .unary (compileUnaryPrecedenceExpression fuel)
  | level (tier : Level) : Compiles fuel (.level tier) (compileLevel tier fuel)
  | assignment : Compiles fuel .assignment (compileAssignmentPrecedenceExpression fuel)
  | expressionStatement : Compiles fuel .expressionStatement (compileExpressionStatement fuel)
  | parameterLoop : Compiles fuel .parameterLoop (Cpplox.parameterLoop fuel)
  | parameters : Compiles fuel .parameters (compileParameters fuel)
  | functionRest (funSourceMapToken : SourceMapToken Text) :
      Compiles fuel (.functionRest funSourceMapToken) (compileFunctionRest fuel funSourceMapToken)
  | declarationLoop (isEnd : TokenType → Bool) :
      Compiles fuel (.declarationLoop isEnd) (Cpplox.declarationLoop fuel isEnd)
  | ifStatement : Compiles fuel .ifStatement (compileIfStatement fuel)
  | forInitializer : Compiles fuel .forInitializer (compileForInitializer fuel)
  | forCondition (forToken : SourceMapToken Text) :
      Compiles fuel (.forCondition forToken) (compileForCondition fuel forToken)
  | forIncrement (forToken : SourceMapToken Text) :
      Compiles fuel (.forIncrement forToken) (compileForIncrement fuel forToken)
  | forStatement : Compiles fuel .forStatement (compileForStatement fuel)
  | block : Compiles fuel .block (compileBlock fuel)
  | printStatement : Compiles fuel .printStatement (compilePrintStatement fuel)
  | returnStatement : Compiles fuel .returnStatement (compileReturnStatement fuel)
  | whileStatement : Compiles fuel .whileStatement (compileWhileStatement fuel)
  | statement : Compiles fuel .statement (compileStatement fuel)
  | methodLoop : Compiles fuel .methodLoop (Cpplox.methodLoop fuel)
  | classBody : Compiles fuel .classBody (compileClassBody fuel)
  | classDeclaration : Compiles fuel .classDeclaration (compileClassDeclaration fuel)
  | funDeclaration : Compiles fuel .funDeclaration (compileFunDeclaration fuel)
  | varDeclaration : Compiles fuel .varDeclaration (compileVarDeclaration fuel)
  | initializer (varToken : SourceMapToken Text) :
      Compiles fuel (.initializer varToken) (compileInitializer fuel varToken)
  | declaration : Compiles fuel .declaration (compileDeclaration fuel)

/-- A function follows its routine as far as its fuel lasts. -/
abbrev Does (action : CompileM N α) (routine : Control N α) : Prop :=
  Follows Control.body .outOfFuel action routine

namespace Does

variable {action : CompileM N α} {routine : Control N α}

theorem invoke (procedure : Proc) {action : CompileM N (procedure.Result N)}
    (does : Does action (Control.body procedure)) : Does action (Control.call procedure) :=
  Follows.invoke does

theorem call {procedure : Proc} {action : CompileM N (procedure.Result N)}
    {rest : procedure.Result N → CompileM N β} {next : procedure.Result N → Control N β}
    (does : Does action (Control.body procedure)) (two : ∀ value, Does (rest value) (next value)) :
    Does (action >>= rest) (Control.call procedure >>= next) :=
  Follows.call does two

theorem optionally {action : CompileM N Unit} {routine : Control N Unit} (does : Does action routine)
    (condition : Bool) : Does (Cpplox.optionally condition action)
      (Control.optionally condition routine) := by
  cases condition with
  | true => exact does
  | false => exact .pure ()

theorem inFunction (does : Does action routine) (isClassInitMethod : Bool) :
    Does (Cpplox.inFunction isClassInitMethod action) (Control.inFunction isClassInitMethod routine) :=
  .act fun _ => does.bind fun result => .perform (Control.leaveFunction result)

theorem popLocals (depth : Nat) (token : SourceMapToken Text) (locals : List TrackedLocal) :
    Does (Cpplox.popLocals depth token locals : CompileM N Unit)
      (Control.popLocals depth token locals) := by
  induction locals with
  | nil => exact .pure ()
  | cons tracked rest ih =>
      rw [Cpplox.popLocals, Control.popLocals]
      split
      · exact .act fun _ => .act fun _ => ih
      · exact .pure ()

theorem popTopScopeDepth (token : SourceMapToken Text) :
    Does (Cpplox.popTopScopeDepth token : CompileM N Unit) (Control.popTopScopeDepth token) :=
  .act fun _ => (popLocals _ token _).bind fun _ => .perform _

end Does

omit [Number N] in
theorem peekAssignment_below_add (fuel more : Nat) (iter : TokenIterator) :
    peekAssignment fuel iter = .error .outOfFuel ∨
      peekAssignment fuel iter = peekAssignment (fuel + more) iter := by
  induction more with
  | zero => exact .inr rfl
  | succ more ih =>
      rcases ih with empty | same
      · exact .inl empty
      · rcases peekAssignment_below (fuel + more) iter with empty | further
        · exact .inl (same.trans empty)
        · exact .inr (same.trans further)

/-- With fuel for what remains, the look-ahead is what it is with any fuel. -/
theorem peekAssignment_enough (fuel : Nat) (iter : TokenIterator) :
    peekAssignment fuel iter = .error .outOfFuel ∨
      peekAssignment fuel iter = peekAssignment (iter.remaining + 1) iter := by
  have ends : peekAssignment (iter.remaining + 1) iter ≠ .error .outOfFuel := fun fails =>
    peekAssignment_ends (Nat.lt_succ_self _) fails rfl
  refine (peekAssignment_below_add fuel (iter.remaining + 1) iter).imp id fun same => ?_
  have other := (peekAssignment_below_add (iter.remaining + 1) fuel iter).resolve_left ends
  rw [same, other, Nat.add_comm]

theorem lookAhead_does (fuel : Nat) (iter : TokenIterator) :
    Does (liftM (peekAssignment fuel iter) : CompileM N _) (perform (Control.lookAhead iter)) := by
  rcases peekAssignment_enough fuel iter with empty | same
  · rw [empty]
    exact .gives_up _
  · rw [same]
    exact .perform _

/-- A function with a local in its first slot, or none. -/
def withFirst (first : Option (SourceMapToken Text)) (rest : CompileM N α) : CompileM N α :=
  match first with
  | none => rest
  | some token => do
      trackLocal token
      rest

section

variable {fuel : Nat} (ih : ∀ {procedure : Proc} {action : CompileM N (procedure.Result N)},
  procedure.Compiles N fuel action → Does action (Control.body procedure))

include ih

omit ih in
theorem inScope_does {action : CompileM N α} {inside : Control N α}
    (does : Does action inside) (token : α → SourceMapToken Text) : Does (do
      beginScope
      let value ← action
      popTopScopeDepth (token value)) (Control.inScope inside token) :=
  .act fun _ => does.bind fun _ => Does.popTopScopeDepth _

theorem function_does (isClassInitMethod : Bool) (first : Option (SourceMapToken Text))
    (funSourceMapToken : SourceMapToken Text)
    {rest : Nat × FunctionChunk (Chunk.Compiled N) → CompileM N β}
    {next : Nat × FunctionChunk (Chunk.Compiled N) → Control N β}
    (two : ∀ compiled, Does (rest compiled) (next compiled)) :
    Does ((Cpplox.inFunction isClassInitMethod
        (withFirst first (compileFunctionRest fuel funSourceMapToken)) : CompileM N _) >>= rest)
      (Control.call (.function isClassInitMethod first funSourceMapToken) >>= next) := by
  have inside : Does (withFirst first (compileFunctionRest fuel funSourceMapToken) : CompileM N Nat)
      (Control.functionScope first funSourceMapToken) := by
    cases first with
    | none => exact Does.invoke _ (ih (.functionRest _))
    | some token => exact .act fun _ => Does.invoke _ (ih (.functionRest _))
  have function : Does _ (Control.call (.function isClassInitMethod first funSourceMapToken)) :=
    Does.invoke _ (Does.inFunction inside isClassInitMethod)
  exact function.bind two

theorem primary_does : Does (compilePrimaryExpression (fuel + 1) : CompileM N Unit)
    Control.primary := by
  rw [compilePrimaryExpression, Control.primary]
  refine .act fun token => ?_
  generalize token.type = type
  cases type
  case fun_ => exact .act fun _ => function_does ih _ none _ fun _ => .perform _
  case leftParen => exact .act fun _ => Does.call (ih .assignment) fun _ => .act fun _ => .pure ()
  case super =>
    exact .act fun _ => .act fun _ => .act fun _ => .act fun _ => .act fun _ => .perform _
  all_goals exact .act fun _ => .perform _

omit ih in
theorem property_does {rest : SourceMapToken Text → CompileM N β}
    {next : SourceMapToken Text → Control N β} (does : ∀ token, Does (rest token) (next token)) :
    Does (compileProperty >>= rest) (Control.property >>= next) :=
  .bind (.act fun _ => .act fun _ => .act fun _ => .pure _) does

theorem callLoop_does (calleeToken : SourceMapToken Text) :
    Does (callLoop (fuel + 1) calleeToken : CompileM N Unit) (Control.callLoop calleeToken) := by
  rw [callLoop, Control.callLoop]
  refine .act fun token => ?_
  generalize token.type = type
  cases type
  case leftParen =>
    refine .act fun _ => Does.call (ih .arguments) fun argCount => .act fun _ => .act fun token => ?_
    split
    · exact property_does fun token => Does.invoke _ (ih (.callLoop token))
    · exact Does.invoke _ (ih (.callLoop calleeToken))
  case dot => exact property_does fun token => Does.invoke _ (ih (.callLoop token))
  all_goals exact .pure ()

theorem unary_does : Does (compileUnaryPrecedenceExpression (fuel + 1) : CompileM N Unit)
    Control.unary := by
  rw [compileUnaryPrecedenceExpression, Control.unary]
  refine .act fun token => ?_
  generalize token.type = type
  cases type
  case bang => exact .act fun _ => Does.call (ih .unary) fun _ => .perform _
  case minus => exact .act fun _ => Does.call (ih .unary) fun _ => .perform _
  all_goals exact Does.invoke _ (ih .call)

theorem callOperand_does (level : Level) :
    Does (compileOperand level fuel : CompileM N Unit) (Control.callOperand level) := by
  cases level
  · exact Does.invoke _ (ih (.level .and_))
  · exact Does.invoke _ (ih (.level .equality))
  · exact Does.invoke _ (ih (.level .comparison))
  · exact Does.invoke _ (ih (.level .term))
  · exact Does.invoke _ (ih (.level .factor))
  · exact Does.invoke _ (ih .unary)

omit ih in
theorem operatorStep_does {level : Level}
    (operand : Does (compileOperand level fuel : CompileM N Unit) (Control.callOperand level))
    (operatorToken : Token) :
    Does (level.step (compileOperand level fuel) operatorToken : CompileM N Unit)
      (Control.operatorStep level operatorToken) := by
  cases level with
  | or_ => exact .act fun _ => .act fun _ => .act fun _ => .act fun _ => operand.bind fun _ => .perform _
  | and_ => exact .act fun _ => .act fun _ => operand.bind fun _ => .perform _
  | equality => exact operand.bind fun _ => .perform _
  | comparison => exact operand.bind fun _ => .perform _
  | term => exact operand.bind fun _ => .perform _
  | factor => exact operand.bind fun _ => .perform _

omit ih in
/-- The fuel of the operands does not change from one operator to the next. -/
theorem operatorLoop_does {level : Level}
    (operand : Does (compileOperand level fuel : CompileM N Unit) (Control.callOperand level))
    (turns : Nat) :
    Does (whileOperator level.isOperator (level.step (compileOperand level fuel)) turns :
      CompileM N Unit) (Control.operatorLoop level) := by
  induction turns with
  | zero => exact .gives_up _
  | succ turns loop =>
      rw [whileOperator, Control.operatorLoop]
      refine .act fun token => ?_
      split
      · refine .act fun operatorToken => (operatorStep_does operand operatorToken).bind fun _ => ?_
        exact Does.invoke (.operatorLoop level) loop
      · exact .pure ()

theorem level_does (level : Level) : Does (compileLevel level (fuel + 1) : CompileM N Unit)
    (Control.body (.level level)) := by
  rw [compileLevel_succ]
  have operand := callOperand_does ih level
  exact operand.bind fun _ => Does.invoke (.operatorLoop level) (operatorLoop_does operand fuel)

theorem assignment_does : Does (compileAssignmentPrecedenceExpression (fuel + 1) : CompileM N Unit)
    Control.assignment := by
  rw [compileAssignmentPrecedenceExpression, Control.assignment]
  refine .act fun compiler => (lookAhead_does fuel _).bind fun peeked => ?_
  cases peeked with
  | none => exact Does.invoke _ (ih (.level .or_))
  | some found => exact .act fun _ => .act fun _ => Does.call (ih .assignment) fun _ => .perform _

omit ih in
theorem found_or_missing {type : TokenType} {found missing : CompileM N α}
    {laterFound laterMissing : Control N α} (here : Does found laterFound) (there : Does missing laterMissing) :
    Does (do if ← advanceIfMatch type then found else missing)
      (do if ← perform (advanceIfMatch type) then laterFound else laterMissing) := by
  refine .act fun matched => ?_
  split
  · exact here
  · exact there

theorem forScope_does (forToken : SourceMapToken Text) : Does (do
      let _ ← expectNext .leftParen
      compileForInitializer fuel
      let conditionBeginBytecodeIndex ← bytecodeSize
      compileForCondition fuel forToken
      let toEndJumpBackpatch ← emitJump .jumpIfFalse forToken
      let toBodyJumpBackpatch ← emitJump .jump forToken
      let incrementBeginBytecodeIndex ← bytecodeSize
      compileForIncrement fuel forToken
      let _ ← expectNext .rightParen
      emitLoop conditionBeginBytecodeIndex forToken
      toNextOpcode toBodyJumpBackpatch
      emit .pop forToken
      compileStatement fuel
      emitLoop incrementBeginBytecodeIndex forToken
      toNextOpcode toEndJumpBackpatch
      emit .pop forToken : CompileM N Unit) (Control.forScope forToken) :=
  .act fun _ => Does.call (ih .forInitializer) fun _ => .act fun _ => Does.call (ih (.forCondition _))
    fun _ => .act fun _ => .act fun _ => .act fun _ => Does.call (ih (.forIncrement _)) fun _ =>
      .act fun _ => .act fun _ => .act fun _ => .act fun _ => Does.call (ih .statement) fun _ =>
        .act fun _ => .act fun _ => .perform _

theorem forStatement_does : Does (compileForStatement (fuel + 1) : CompileM N Unit)
    (Control.body .forStatement) := by
  rw [compileForStatement]
  refine .act fun token => ?_
  have scope := inScope_does (forScope_does ih (sourceMapToken token)) fun _ => sourceMapToken token
  simp only [bind_assoc] at scope
  exact Does.invoke (.forScope _) scope

theorem block_does : Does (compileBlock (fuel + 1) : CompileM N Unit) (Control.body .block) := by
  rw [compileBlock]
  refine .act fun _ => ?_
  have inside : Does (do declarationLoop fuel atBlockEnd; expectCurrent .rightBrace)
      Control.blockScope := Does.call (ih (.declarationLoop _)) fun _ => .perform _
  have scope := inScope_does inside sourceMapToken
  simp only [bind_assoc] at scope
  exact Does.invoke .blockScope scope

theorem returnStatement_does : Does (compileReturnStatement (fuel + 1) : CompileM N Unit)
    Control.returnStatement := by
  rw [compileReturnStatement, Control.returnStatement]
  refine .act fun compiler => ?_
  split
  · exact .perform _
  · refine .act fun token => found_or_missing (.act fun _ => .perform _) (.act fun compiler => ?_)
    split
    · exact .act fun _ => .perform _
    · exact Does.call (ih .assignment) fun _ => .act fun _ => .perform _

theorem statement_does : Does (compileStatement (fuel + 1) : CompileM N Unit)
    Control.statement := by
  rw [compileStatement, Control.statement]
  refine .act fun token => ?_
  generalize token.type = type
  cases type
  case if_ => exact Does.invoke _ (ih .ifStatement)
  case for_ => exact Does.invoke _ (ih .forStatement)
  case leftBrace => exact Does.invoke _ (ih .block)
  case print => exact Does.invoke _ (ih .printStatement)
  case return_ => exact Does.invoke _ (ih .returnStatement)
  case while_ => exact Does.invoke _ (ih .whileStatement)
  all_goals exact Does.invoke _ (ih .expressionStatement)

theorem declaration_does : Does (compileDeclaration (fuel + 1) : CompileM N Unit)
    (Control.body .declaration) := by
  rw [compileDeclaration, Control.body]
  refine .act fun token => ?_
  generalize token.type = type
  cases type
  case class_ => exact Does.invoke _ (ih .classDeclaration)
  case fun_ => exact Does.invoke _ (ih .funDeclaration)
  case var => exact Does.invoke _ (ih .varDeclaration)
  all_goals exact Does.invoke _ (ih .statement)

theorem methodLoop_does : Does (methodLoop (fuel + 1) : CompileM N Unit) Control.methodLoop := by
  rw [methodLoop, Control.methodLoop]
  refine .act fun token => ?_
  split
  · exact .act fun methodName => function_does ih _ (some _) _ fun _ => .act fun _ =>
      .act fun _ => Does.invoke _ (ih .methodLoop)
  · exact .pure ()

omit ih in
/-- What comes before the body of a class with a superclass. -/
theorem beginSuperclass_eq (className superclassName : Token) :
    (beginSuperclass className superclassName : CompileM N Unit) = (do
      Control.ensureOtherClass className superclassName
      optionally ((← get).scopeDepth = 0) Control.pushPlaceholder
      beginScope
      emitGetter (sourceMapToken superclassName)
      trackLocal (superTokenAt superclassName.line)
      emit .inherit (sourceMapToken superclassName)) := by
  rw [beginSuperclass, Control.ensureOtherClass]
  split <;> rfl

theorem superclassScope_does (superclassName : Token) : Does (do
      emitGetter (sourceMapToken superclassName)
      trackLocal (superTokenAt superclassName.line)
      emit .inherit (sourceMapToken superclassName)
      compileClassBody fuel
      emit .pop (sourceMapToken superclassName) : CompileM N Unit)
    (Control.superclassScope (sourceMapToken superclassName)) :=
  .act fun _ => .act fun _ => .act fun _ => Does.call (ih .classBody) fun _ => .perform _

theorem subclass_does (className superclassName : Token) : Does ((do
      beginSuperclass className superclassName
      compileClassBody fuel
      endSuperclass superclassName) : CompileM N Unit) (Control.subclass className superclassName) := by
  have scope : Does _ (Control.call (.superclassScope superclassName)) :=
    Does.invoke _ (inScope_does (superclassScope_does ih superclassName)
      fun _ => superTokenAt superclassName.line)
  have whole : Does ((do
      Control.ensureOtherClass className superclassName
      optionally ((← get).scopeDepth = 0) Control.pushPlaceholder
      beginScope
      emitGetter (sourceMapToken superclassName)
      trackLocal (superTokenAt superclassName.line)
      emit .inherit (sourceMapToken superclassName)
      compileClassBody fuel
      endSuperclass superclassName) : CompileM N Unit)
      (Control.subclass className superclassName) := by
    refine .act fun _ => .act fun _ => .act fun _ => ?_
    have last : Does (do optionally ((← get).scopeDepth = 0) Control.popPlaceholder : CompileM N Unit)
        (do
          let compiler ← perform get
          perform (optionally (compiler.scopeDepth = 0) Control.popPlaceholder)) :=
      .act fun _ => .perform _
    have rest := scope.bind fun _ => last
    simp only [bind_assoc] at rest
    exact rest
  rw [beginSuperclass_eq]
  simp only [bind_assoc] at whole ⊢
  exact whole

theorem classDeclaration_does : Does (compileClassDeclaration (fuel + 1) : CompileM N Unit)
    Control.classDeclaration := by
  rw [compileClassDeclaration, Control.classDeclaration]
  refine .act fun classToken => .act fun className => .act fun _ => .act fun _ => .act fun _ =>
    .act fun matched => ?_
  split
  next =>
    refine .act fun superclassName => ?_
    have does := (subclass_does ih className superclassName).bind fun _ =>
      Follows.perform (defineGlobalAtTop className.lexeme (sourceMapToken classToken))
    simp only [bind_assoc] at does ⊢
    exact does
  next => exact Does.call (ih .classBody) fun _ => .perform _

theorem varDeclaration_does : Does (compileVarDeclaration (fuel + 1) : CompileM N Unit)
    Control.varDeclaration := by
  rw [compileVarDeclaration, Control.varDeclaration]
  refine .act fun _ => .act fun _ => .act fun _ => .act fun _ => ?_
  rw [Control.variableValue]
  simp only [Routine.assoc]
  exact Does.call (ih (.initializer _)) fun _ => .act fun _ => .act fun _ => .act fun _ => .perform _

theorem phrase_does {procedure : Proc} {action : CompileM N (procedure.Result N)}
    (compiles : procedure.Compiles N (fuel + 1) action) : Does action (Control.body procedure) := by
  cases compiles with
  | primary => exact primary_does ih
  | call =>
      rw [compileCallPrecedenceExpression]
      exact .act fun token => Does.call (ih .primary) fun _ => Does.invoke _ (ih (.callLoop _))
  | callLoop calleeToken => exact callLoop_does ih calleeToken
  | arguments =>
      rw [compileArguments]
      exact found_or_missing (.pure 0) (Does.call (ih .argumentLoop) fun _ => .act fun _ => .pure _)
  | argumentLoop =>
      rw [argumentLoop]
      exact Does.call (ih .assignment) fun _ =>
        found_or_missing (Does.call (ih .argumentLoop) fun _ => .pure _) (.pure 1)
  | unary => exact unary_does ih
  | level level => exact level_does ih level
  | assignment => exact assignment_does ih
  | expressionStatement =>
      rw [compileExpressionStatement]
      refine Does.call (ih .assignment) fun _ => .act fun token => ?_
      split
      · exact .perform _
      · exact .act fun _ => .perform _
  | parameterLoop =>
      rw [parameterLoop]
      exact .act fun _ => .act fun _ =>
        found_or_missing (Does.call (ih .parameterLoop) fun _ => .pure _) (.act fun _ => .pure 1)
  | parameters =>
      rw [compileParameters]
      exact found_or_missing (.pure 0) (Does.invoke _ (ih .parameterLoop))
  | functionRest funSourceMapToken =>
      rw [compileFunctionRest]
      exact .act fun _ => Does.call (ih .parameters) fun _ => .act fun _ =>
        Does.call (ih (.declarationLoop _)) fun _ => .act fun _ => .act fun _ => .act fun _ => .pure _
  | declarationLoop isEnd =>
      rw [declarationLoop]
      refine .act fun token => ?_
      split
      · exact .pure ()
      · exact Does.call (ih .declaration) fun _ => Does.invoke _ (ih (.declarationLoop isEnd))
  | ifStatement =>
      rw [compileIfStatement]
      exact .act fun _ => .act fun _ => Does.call (ih .assignment) fun _ => .act fun _ => .act fun _ =>
        .act fun _ => Does.call (ih .statement) fun _ => .act fun _ => .act fun _ => .act fun _ =>
          .act fun _ => (Does.optionally (Does.invoke _ (ih .statement)) _).bind fun _ => .perform _
  | forInitializer =>
      rw [compileForInitializer]
      refine found_or_missing (.pure ()) (.act fun token => ?_)
      split
      · exact Does.invoke _ (ih .declaration)
      · exact Does.invoke _ (ih .expressionStatement)
  | forCondition forToken =>
      rw [compileForCondition]
      exact found_or_missing (.perform _) (Does.call (ih .assignment) fun _ => .act fun _ => .pure ())
  | forIncrement forToken =>
      rw [compileForIncrement]
      refine .act fun token => ?_
      split
      · exact .pure ()
      · exact Does.call (ih .assignment) fun _ => .perform _
  | forStatement => exact forStatement_does ih
  | block => exact block_does ih
  | printStatement =>
      rw [compilePrintStatement]
      exact .act fun _ => Does.call (ih .assignment) fun _ => .act fun _ => .perform _
  | returnStatement => exact returnStatement_does ih
  | whileStatement =>
      rw [compileWhileStatement]
      exact .act fun _ => .act fun _ => .act fun _ => Does.call (ih .assignment) fun _ => .act fun _ =>
        .act fun _ => .act fun _ => Does.call (ih .statement) fun _ => .act fun _ => .act fun _ =>
          .perform _
  | statement => exact statement_does ih
  | methodLoop => exact methodLoop_does ih
  | classBody =>
      rw [compileClassBody]
      exact .act fun _ => Does.call (ih .methodLoop) fun _ => .act fun _ => .pure ()
  | classDeclaration => exact classDeclaration_does ih
  | funDeclaration =>
      rw [compileFunDeclaration]
      exact .act fun _ => .act fun funName => function_does ih _ (some _) _ fun _ =>
        .act fun _ => .act fun _ => .act fun _ => .perform _
  | varDeclaration => exact varDeclaration_does ih
  | initializer varToken =>
      rw [compileInitializer]
      exact found_or_missing (Does.invoke _ (ih .assignment)) (.perform _)
  | declaration => exact declaration_does ih

end

/-- What a function of the compiler does with the fuel it has, the machine does. -/
theorem compile_does (fuel : Nat) {procedure : Proc} {action : CompileM N (procedure.Result N)}
    (compiles : procedure.Compiles N fuel action) : Does action (Control.body procedure) := by
  induction fuel generalizing procedure with
  | zero =>
      cases compiles with
      | level level => cases level <;> exact .gives_up _
      | _ => exact .gives_up _
  | succ fuel ih => exact phrase_does ih compiles

/-- `compile` before its first declaration. -/
def Compiler.start (tokenIter : TokenIterator) : Compiler N := { tokenIter, back := { chunk := {} } }

/-- The machine that compiles a source. -/
def Control.compile (tokenIter : TokenIterator) : Config (Compiler N) Error (Proc.Result N) Unit :=
  ⟨Control.call (.declarationLoop atEnd), .start tokenIter⟩

/-- With enough fuel, `compile` is what the machine does. -/
theorem compile_halts {fuel : Nat} {source : Text} {tokenIter : TokenIterator}
    (scans : TokenIterator.ofSource source = .ok tokenIter) (enough : compileFuel source ≤ fuel) :
    Halts Control.body (Control.compile tokenIter : Config (Compiler N) _ _ _)
      ((declarationLoop fuel atEnd).run (.start tokenIter)) := by
  refine (Does.invoke _ (compile_does fuel (.declarationLoop atEnd)) _).resolve_left fun empty => ?_
  have ends := compile_terminates (N := N) source enough
  rw [Cpplox.compile, scans] at ends
  exact ends (except_bind_error.mpr (.inr ⟨tokenIter, rfl, except_bind_error.mpr (.inl empty)⟩))

end Cpplox
