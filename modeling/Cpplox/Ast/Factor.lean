import Cpplox.Ast.Emits

namespace Cpplox

open Structured Lower

variable {N : Type} [Number N] {before after : Compiler N} {l : Lower N} {done : Unit}

/-! The one-pass compiler is the parser followed by lowering. -/

/-- Every successful run of `action` parses a tree, and emits what its lowering is laid
out as. -/
def Factors (action : CompileM N Unit) (parse : ParseM α) (node : α → Node) : Prop :=
  ∀ (before after : Compiler N) (l : Lower N),
    action.run before = .ok ((), after) → Matches before l →
    ∃ tree code final, parse.run before.tokenIter = .ok (tree, after.tokenIter) ∧
      Lowers l (node tree) code final ∧ Emits before (code.flatten layout) after final

def FactorsExpr (action : CompileM N Unit) (parse : ParseM Expr) : Prop :=
  ∀ leading, Factors action parse (.expr leading)

/-- The same for an action that continues an expression: `left` was lowered and emitted
since `start`. -/
def Continues (action : CompileM N Unit) (parse : ParseM α) (left : Expr) (node : α → Expr) : Prop :=
  ∀ (start before after : Compiler N) (l₀ l : Lower N) (leading : Bool) (code : LoweredCode),
    action.run before = .ok ((), after) → Lowers l₀ (.expr leading left) code l →
    Emits start (code.flatten layout) before l →
    ∃ tree laterCode final, parse.run before.tokenIter = .ok (tree, after.tokenIter) ∧
      Lowers l₀ (.expr leading (node tree)) laterCode final ∧ Emits start (laterCode.flatten layout) after final

theorem binaryOpcodes_shape (type : TokenType) :
    ∀ opcode ∈ binaryOpcodes type, opcode.shape = .simple := by
  cases type <;> simp [binaryOpcodes, Opcode.shape]

theorem binaryOpcodes_ne_nil {type : TokenType}
    (found : (isMultiplicationOperator type || isAdditionOperator type ||
      isComparisonOperator type || isEqualityOperator type) = true) : binaryOpcodes type ≠ [] := by
  revert found
  cases type <;> decide

theorem binaryStep_continues {operand : CompileM N Unit} {parse : ParseM Expr}
    (factors : FactorsExpr operand parse) (operator : Token) (left : Expr)
    (binary : binaryOpcodes operator.type ≠ []) :
    Continues (binaryStep operand operator) parse left (.binary operator left) := by
  intro start before after l₀ l leading code runs lowers emitted
  obtain ⟨_, middle, compiles, runs⟩ := run_bind_ok.mp runs
  obtain ⟨right, second, l₁, parses, lowersRight, emits⟩ :=
    factors false _ _ _ compiles emitted.matched
  have operation := emitAll_emits runs (binaryOpcodes_shape operator.type) emits.matched
  refine ⟨right, _, l₁, by rw [parses, operation.tokenIter], .binary binary lowers lowersRight, ?_⟩
  simpa [Code.flatten] using (emitted.trans emits).trans operation.emits

/-- Every level of binary operators. -/
theorem binarySteps {isOperator : TokenType → Bool}
    (covered : ∀ type, isOperator type = true → (isMultiplicationOperator type ||
      isAdditionOperator type || isComparisonOperator type || isEqualityOperator type) = true)
    {operand : CompileM N Unit} {parse : ParseM Expr} (factors : FactorsExpr operand parse)
    (operator : Token) (left : Expr) (found : isOperator operator.type = true) :
    Continues (binaryStep operand operator) parse left (.binary operator left) :=
  binaryStep_continues factors operator left (binaryOpcodes_ne_nil (covered _ found))

theorem andStep_continues {operand : CompileM N Unit} {parse : ParseM Expr}
    (factors : FactorsExpr operand parse) (operator : Token) (left : Expr) :
    Continues (andStep operand operator) parse left (.and_ operator left) := by
  intro start before after l₀ l leading code runs lowers emitted
  rw [andStep] at runs
  obtain ⟨begin_, c₁, jumps, runs⟩ := run_bind_ok.mp runs
  obtain ⟨_, c₂, pops, runs⟩ := run_bind_ok.mp runs
  obtain ⟨_, c₃, compiles, runs⟩ := run_bind_ok.mp runs
  obtain ⟨begins, jump⟩ := emitJump_emits (.jumpIfFalse (l.tagAt (sourceMapToken operator))) jumps
    (fun _ => rfl) (fun _ => rfl) rfl emitted.matched
  have pop := emit_emits pops rfl jump.emits.matched
  obtain ⟨right, second, l₁, parses, lowersRight, emits⟩ :=
    factors leading _ _ _ compiles pop.emits.matched
  have all := ((emitted.trans jump.emits).trans pop.emits).trans emits
  simp only [List.append_assoc, List.singleton_append] at all
  obtain ⟨patched, iter⟩ := toNextOpcode_emits (.jumpIfFalse (l.tagAt (sourceMapToken operator))) runs
    (fun _ => rfl) (fun _ => rfl) (by rw [begins, emitted.length_bytecode]) all
  refine ⟨right, _, l₁, ?_, .and_ lowers lowersRight, ?_⟩
  · rw [iter, ← parses, pop.tokenIter, jump.tokenIter]
  · simpa [Code.flatten] using patched

theorem orStep_continues {operand : CompileM N Unit} {parse : ParseM Expr}
    (factors : FactorsExpr operand parse) (operator : Token) (left : Expr) :
    Continues (orStep operand operator) parse left (.or_ operator left) := by
  intro start before after l₀ l leading code runs lowers emitted
  rw [orStep] at runs
  obtain ⟨toRhs, c₁, jumpsRhs, runs⟩ := run_bind_ok.mp runs
  obtain ⟨toEnd, c₂, jumpsEnd, runs⟩ := run_bind_ok.mp runs
  obtain ⟨_, c₃, patches, runs⟩ := run_bind_ok.mp runs
  obtain ⟨_, c₄, pops, runs⟩ := run_bind_ok.mp runs
  obtain ⟨_, c₅, compiles, runs⟩ := run_bind_ok.mp runs
  obtain ⟨beginsRhs, jumpRhs⟩ := emitJump_emits (.jumpIfFalse (l.tagAt (sourceMapToken operator))) jumpsRhs
    (fun _ => rfl) (fun _ => rfl) rfl emitted.matched
  obtain ⟨beginsEnd, jumpEnd⟩ := emitJump_emits (.jump (l.tagAt (sourceMapToken operator))) jumpsEnd
    (fun _ => rfl) (fun _ => rfl) rfl jumpRhs.emits.matched
  have jumps := (emitted.trans jumpRhs.emits).trans jumpEnd.emits
  simp only [List.append_assoc, List.singleton_append] at jumps
  obtain ⟨patched, iter⟩ := toNextOpcode_emits (.jumpIfFalse (l.tagAt (sourceMapToken operator))) patches
    (fun _ => rfl) (fun _ => rfl) (by rw [beginsRhs, emitted.length_bytecode]) jumps
  have pop := emit_emits pops rfl patched.matched
  obtain ⟨right, second, l₁, parses, lowersRight, emits⟩ :=
    factors leading _ _ _ compiles pop.emits.matched
  have all := (patched.trans pop.emits).trans emits
  have split : ∀ distance, code.flatten layout ++ .jumpIfFalse (l.tagAt (sourceMapToken operator)) distance ::
      [(.jump (l.tagAt (sourceMapToken operator)) 0 : LoweredFlat)] ++
      (l.simple .pop (sourceMapToken operator)).flatten layout ++ second.flatten layout =
      (code.flatten layout ++ [.jumpIfFalse (l.tagAt (sourceMapToken operator)) distance]) ++
        .jump (l.tagAt (sourceMapToken operator)) 0 ::
        ((l.simple .pop (sourceMapToken operator)).flatten layout ++ second.flatten layout) := by
    simp
  rw [split] at all
  obtain ⟨finished, iterEnd⟩ := toNextOpcode_emits (.jump (l.tagAt (sourceMapToken operator))) runs
    (fun _ => rfl) (fun _ => rfl) (by
      rw [beginsEnd, jumpRhs.emits.length_bytecode, emitted.length_bytecode]
      simp [Nat.add_assoc, Flat.size]) all
  refine ⟨right, _, l₁, ?_, .or_ lowers lowersRight, ?_⟩
  · rw [iterEnd, ← parses, pop.tokenIter, iter, jumpEnd.tokenIter, jumpRhs.tokenIter]
  · simpa [Code.flatten, Flat.size] using finished

theorem whileOperator_continues {isOperator : TokenType → Bool} {step : Token → CompileM N Unit}
    {parse : ParseM Expr} {node : Token → Expr → Expr → Expr}
    (steps : ∀ operator left, isOperator operator.type = true →
      Continues (step operator) parse left (node operator left)) (fuel : Nat) (left : Expr) :
    Continues (whileOperator isOperator step fuel)
      (Parse.whileOperator isOperator parse node fuel left) left id := by
  induction fuel generalizing left with
  | zero => intro start before after l₀ l leading code runs; cases runs
  | succ fuel ih =>
      intro start before after l₀ l leading code runs lowers emitted
      rw [whileOperator, run_current_bind] at runs
      split at runs
      next more =>
          obtain ⟨operator, c₁, takes, runs⟩ := run_bind_ok.mp runs
          obtain ⟨_, c₂, runsStep, runs⟩ := run_bind_ok.mp runs
          obtain ⟨current, reads⟩ := next_reads takes emitted.matched
          have started := emitted.trans reads.emits
          rw [List.append_nil] at started
          obtain ⟨right, code₁, l₁, parses, lowersStep, emits⟩ :=
            steps operator left (current ▸ more) _ _ _ _ _ _ _ runsStep lowers started
          obtain ⟨tree, laterCode, final, parsesRest, lowersRest, emitsRest⟩ :=
            ih (node operator left right) _ _ _ _ _ _ _ runs lowersStep emits
          refine ⟨tree, laterCode, final, ?_, lowersRest, emitsRest⟩
          rw [Parse.whileOperator, Parse.run_current_bind, if_pos more, run_ok_bind reads.parses,
            run_ok_bind parses, parsesRest]
      next finished =>
          cases runs
          refine ⟨left, code, l, ?_, lowers, emitted⟩
          rw [Parse.whileOperator, Parse.run_current_bind, if_neg finished]
          rfl

/-- A left-associative level. -/
theorem level_factors {isOperator : TokenType → Bool} {operand : CompileM N Unit}
    {step : Token → CompileM N Unit} {parse : ParseM Expr} {node : Token → Expr → Expr → Expr}
    (factors : FactorsExpr operand parse)
    (steps : ∀ operator left, isOperator operator.type = true →
      Continues (step operator) parse left (node operator left)) (fuel : Nat) :
    FactorsExpr (do operand; whileOperator isOperator step fuel)
      (do Parse.whileOperator isOperator parse node fuel (← parse)) := by
  intro leading before after l runs matched
  obtain ⟨_, middle, compiles, runs⟩ := run_bind_ok.mp runs
  obtain ⟨left, code, l₁, parses, lowers, emits⟩ := factors leading _ _ _ compiles matched
  obtain ⟨tree, laterCode, final, parsesRest, lowersRest, emitsRest⟩ :=
    whileOperator_continues steps fuel left _ _ _ _ _ _ _ runs lowers emits
  exact ⟨tree, laterCode, final, by rw [run_ok_bind parses, parsesRest], lowersRest, emitsRest⟩

def FactorsArgs (action : CompileM N Nat) (parse : ParseM Exprs) : Prop :=
  ∀ (before after : Compiler N) (l : Lower N) (count : Nat),
    action.run before = .ok (count, after) → Matches before l →
    ∃ args code final, parse.run before.tokenIter = .ok (args, after.tokenIter) ∧
      count = args.length ∧ Lowers l (.args args) code final ∧
      Emits before (code.flatten layout) after final

def FactorsParams (action : CompileM N Nat) (parse : ParseM (List Token)) : Prop :=
  ∀ (before after : Compiler N) (l : Lower N) (count : Nat),
    action.run before = .ok (count, after) → Matches before l →
    ∃ params final, parse.run before.tokenIter = .ok (params, after.tokenIter) ∧
      count = params.length ∧ (trackAll (params.map sourceMapToken)).run l = some ((), final) ∧
      Emits before [] after final

/-- Parameters, body and the return at its end, after `self` was tracked. -/
def FactorsFunction (action : CompileM N Nat) (parse : ParseM (List Token × Decls))
    (self : List (SourceMapToken Text)) (token : SourceMapToken Text) : Prop :=
  ∀ (before after : Compiler N) (l : Lower N) (count : Nat),
    action.run before = .ok (count, after) → Matches before l →
    ∃ params body code value l₁ l₂ l₃,
      parse.run before.tokenIter = .ok ((params, body), after.tokenIter) ∧
      count = params.length ∧
      (trackAll (self ++ params.map sourceMapToken)).run l = some ((), l₁) ∧
      Lowers l₁ (.decls body) code l₂ ∧
      (Lower.emitDefaultReturnValue token).run l₂ = some (value, l₃) ∧
      Emits before ((Code.seq code (.seq value (l₃.simple .return_ token))).flatten layout) after l₃

omit [Number N] in
theorem run_trackAll_cons {token : SourceMapToken Text} {rest : List (SourceMapToken Text)}
    {l l₁ : Lower N} {code : LoweredCode}
    (first : (Lower.trackLocal token).run l = some (code, l₁)) :
    (trackAll (token :: rest)).run l = (trackAll rest).run l₁ := by
  simp [trackAll, first]

theorem selfTracked_factors {action : CompileM N Nat} {parse : ParseM (List Token × Decls)}
    {self token : SourceMapToken Text} (factors : FactorsFunction action parse [] token) :
    FactorsFunction (do trackLocal self; action) parse [self] token := by
  intro before after l count runs matched
  obtain ⟨_, middle, tracks, runs⟩ := run_bind_ok.mp runs
  obtain ⟨mark, l₀, lowersTrack, tracked⟩ := trackLocal_emits tracks matched
  obtain ⟨params, body, code, value, l₁, l₂, l₃, parses, counts, lowersParams, lowers, returns,
    emits⟩ := factors _ _ _ _ runs tracked.emits.matched
  refine ⟨params, body, code, value, l₁, l₂, l₃, ?_, counts, ?_, lowers, returns, ?_⟩
  · rw [← parses, tracked.tokenIter]
  · rw [List.singleton_append, run_trackAll_cons lowersTrack]
    exact lowersParams
  · have flat : mark.flatten layout = [] := by
      obtain ⟨-, rfl, -⟩ := trackLocal_some lowersTrack
      exact flatten_declared _ _
    have all := tracked.emits.trans emits
    rwa [flat, List.nil_append] at all

theorem compileFunction_factors {body : CompileM N Nat} {parse : ParseM (List Token × Decls)}
    {self : List (SourceMapToken Text)} {token : SourceMapToken Text} (kind : FunctionKind)
    (name : Text) (factors : FactorsFunction body parse self token)
    (runs : (do
      let compiled ← inFunction (kind = FunctionKind.method && name = initName) body
      Cpplox.emitFunction name compiled token).run before = .ok (done, after))
    (matched : Matches before l) (leading : Bool) :
    ∃ params decls code final, parse.run before.tokenIter = .ok ((params, decls), after.tokenIter) ∧
      Lowers l (.function kind name self params decls token leading) code final ∧
      Emits before (code.flatten layout) after final := by
  obtain ⟨⟨count, compiled⟩, middle, compiles, runs⟩ := run_bind_ok.mp runs
  obtain ⟨inner, outer, rest, runsBody, functions, rfl, rfl⟩ := inFunction_run compiles
  obtain ⟨params, decls, code, value, l₁, l₂, l₃, parses, counts, tracks, lowers, returns, emits⟩ :=
    factors _ _ _ _ runsBody (matched.enterFunction _)
  obtain ⟨l₄, leaves, bytecode, sourceMap, outside⟩ := leaveFunction_emits emits functions
  let function : LoweredFunction N := {
    kind, name, arity := params.length, locals := (constantsOf inner.back).trackedLocals
    captures := (constantsOf inner.back).trackedUpvalues
    constants := (constantsOf inner.back).chunk
    code := .seq code (.seq value (l₃.simple .return_ token)) }
  have assembled : function.assemble = ⟨name, count, inner.back.chunk⟩ := by
    simp only [LoweredFunction.assemble, LoweredFunction.flats, function, ← bytecode, ← sourceMap,
      counts]
    rfl
  obtain ⟨closure, l₅, lowersClosure, closures⟩ :=
    emitFunction_emits runs assembled rfl emits.fits outside.matched leading
  refine ⟨params, decls, closure, l₅, ?_, .function tracks lowers returns leaves lowersClosure, ?_⟩
  · rw [closures.tokenIter]
    exact parses
  · simpa using outside.trans closures.emits

structure FactorAt (N : Type) [Number N] (fuel : Nat) : Prop where
  primary : FactorsExpr (compilePrimaryExpression fuel : CompileM N Unit)
    (Parse.primaryExpression fuel)
  call : FactorsExpr (compileCallPrecedenceExpression fuel : CompileM N Unit)
    (Parse.callExpression fuel)
  callLoop : ∀ callee calleeToken,
    Continues (callLoop fuel (sourceMapToken calleeToken) : CompileM N Unit)
      (Parse.callLoop fuel callee calleeToken) callee id
  arguments : FactorsArgs (compileArguments fuel : CompileM N Nat) (Parse.arguments fuel)
  argumentLoop : FactorsArgs (argumentLoop fuel : CompileM N Nat) (Parse.argumentLoop fuel)
  unary : FactorsExpr (compileUnaryPrecedenceExpression fuel : CompileM N Unit)
    (Parse.unaryExpression fuel)
  multiplication : FactorsExpr (compileMultiplicationPrecedenceExpression fuel : CompileM N Unit)
    (Parse.multiplicationExpression fuel)
  addition : FactorsExpr (compileAdditionPrecedenceExpression fuel : CompileM N Unit)
    (Parse.additionExpression fuel)
  comparison : FactorsExpr (compileComparisonPrecedenceExpression fuel : CompileM N Unit)
    (Parse.comparisonExpression fuel)
  equality : FactorsExpr (compileEqualityPrecedenceExpression fuel : CompileM N Unit)
    (Parse.equalityExpression fuel)
  and_ : FactorsExpr (compileAndPrecedenceExpression fuel : CompileM N Unit)
    (Parse.andExpression fuel)
  or_ : FactorsExpr (compileOrPrecedenceExpression fuel : CompileM N Unit)
    (Parse.orExpression fuel)
  assignment : FactorsExpr (compileAssignmentPrecedenceExpression fuel : CompileM N Unit)
    (Parse.assignmentExpression fuel)
  expressionStatement : Factors (compileExpressionStatement fuel : CompileM N Unit)
    (Parse.expressionStatement fuel) .stmt
  parameterLoop : FactorsParams (parameterLoop fuel : CompileM N Nat) (Parse.parameterLoop fuel)
  parameters : FactorsParams (compileParameters fuel : CompileM N Nat) (Parse.parameters fuel)
  functionRest : ∀ token, FactorsFunction (compileFunctionRest fuel token : CompileM N Nat)
    (Parse.functionRest fuel) [] token
  declarationLoop : ∀ isEnd, Factors (declarationLoop fuel isEnd : CompileM N Unit)
    (Parse.declarationLoop fuel isEnd) .decls
  ifStatement : Factors (compileIfStatement fuel : CompileM N Unit) (Parse.ifStatement fuel) .stmt
  forInitializer : Factors (compileForInitializer fuel : CompileM N Unit)
    (Parse.forInitializer fuel) .decl
  forCondition : ∀ token, FactorsExpr
    (compileForCondition fuel (sourceMapToken token) : CompileM N Unit)
    (Parse.forCondition fuel token)
  forIncrement : ∀ token, Factors
    (compileForIncrement fuel (sourceMapToken token) : CompileM N Unit)
    (Parse.forIncrement fuel token) .stmt
  forStatement : Factors (compileForStatement fuel : CompileM N Unit) (Parse.forStatement fuel) .stmt
  block : Factors (compileBlock fuel : CompileM N Unit) (Parse.block fuel) .stmt
  printStatement : Factors (compilePrintStatement fuel : CompileM N Unit)
    (Parse.printStatement fuel) .stmt
  returnStatement : Factors (compileReturnStatement fuel : CompileM N Unit)
    (Parse.returnStatement fuel) .stmt
  whileStatement : Factors (compileWhileStatement fuel : CompileM N Unit)
    (Parse.whileStatement fuel) .stmt
  statement : Factors (compileStatement fuel : CompileM N Unit) (Parse.statement fuel) .stmt
  methodLoop : Factors (methodLoop fuel : CompileM N Unit) (Parse.methodLoop fuel) .methods
  classBody : Factors (compileClassBody fuel : CompileM N Unit) (Parse.classBody fuel) .methods
  classDeclaration : Factors (compileClassDeclaration fuel : CompileM N Unit)
    (Parse.classDeclaration fuel) .decl
  funDeclaration : Factors (compileFunDeclaration fuel : CompileM N Unit)
    (Parse.funDeclaration fuel) .decl
  varDeclaration : Factors (compileVarDeclaration fuel : CompileM N Unit)
    (Parse.varDeclaration fuel) .decl
  initializer : ∀ token, FactorsExpr
    (compileInitializer fuel (sourceMapToken token) : CompileM N Unit)
    (Parse.initializer fuel token)
  declaration : Factors (compileDeclaration fuel : CompileM N Unit) (Parse.declaration fuel) .decl

end Cpplox
