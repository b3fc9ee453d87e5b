import Cpplox.Grammar.Accepted

namespace Cpplox

open Dialect TokenIterator Filter

/-! What is in the grammar is accepted. -/

variable {N : Type} [Number N] {dialect : Dialect} {types more : List TokenType}
  {before : Compiler N} {last : TokenIterator}

theorem EndsExpression.strength {type : TokenType} (ends : EndsExpression type) :
    type.strength = 0 ∧ type ≠ .dot ∧ type ≠ .equal := by
  revert ends
  rw [EndsExpression]
  cases type <;> decide

theorem accepted_operand {level : Level} (accepted : Accepted N level.operand types) :
    ∀ᶠ fuel in atTop, PassesOver N (compileOperand level fuel) types
      (·.strength < level.strength + 1) := by
  cases level <;> exact accepted

theorem rest_follow {level : Level} {middle : TokenIterator}
    (derives : Derives dialect (.rest level) more) (consumes : middle.Consumes more last)
    (follow : last.token.type.strength < level.strength) :
    middle.token.type.strength < level.strength + 1 := by
  cases derives with
  | noOperator =>
      have same : last = middle := consumes
      exact Nat.lt_succ_of_lt (same ▸ follow)
  | operator member =>
      rw [consumes.1, Level.strength_of_mem member]
      exact Nat.lt_succ_self _

theorem accepted_noOperator (level : Level) : Accepted N (.rest level) [] := by
  refine eventually_atTop.mpr ⟨1, fun fuel enough operandFuel _ before last awaits follow => ?_⟩
  obtain ⟨fuel, rfl⟩ := Nat.exists_eq_add_of_le' enough
  have here : before.tokenIter.token.type.strength < level.strength := awaits.last_eq ▸ follow
  rw [whileOperator]
  refine .current ?_
  split
  next found => exact absurd ((level.isOperator_strength _).mp found) (Nat.ne_of_lt here)
  next => exact .of_quiet (.pure ()) awaits

theorem accepted_operator {level : Level} {operator : TokenType} {right rest : List TokenType}
    (member : operator ∈ level.operators) (derives : Derives dialect (.rest level) rest)
    (operand : Accepted N level.operand right) (accepted : Accepted N (.rest level) rest) :
    Accepted N (.rest level) (operator :: right ++ rest) := by
  have operands := eventually_forall_ge_atTop.mpr (accepted_operand operand)
  refine eventually_succ (operands.and accepted) fun fuel ih operandFuel enough before last awaits follow => ?_
  obtain ⟨operand, accepted⟩ := ih
  have laterEnough := Nat.le_of_succ_le enough
  rw [whileOperator]
  refine .current ?_
  rw [if_pos (by rw [awaits.type_eq]; exact (level.isOperator_iff _).mpr member)]
  refine .next awaits fun token _ awaits => ?_
  refine .phrase awaits (fun middle consumes here => ?_) fun _ _ awaits =>
    accepted operandFuel laterEnough _ _ awaits follow
  exact Level.step_passes (operand operandFuel laterEnough) token _ _ here
    (rest_follow derives consumes follow)

theorem accepted_binary {level : Level} {left rest : List TokenType}
    (derives : Derives dialect (.rest level) rest) (operand : Accepted N level.operand left)
    (accepted : Accepted N (.rest level) rest) : Accepted N (.binary level) (left ++ rest) := by
  refine eventually_succ ((accepted_operand operand).and accepted)
    fun fuel ih before last awaits follow => ?_
  obtain ⟨operand, accepted⟩ := ih
  rw [compileLevel_succ]
  refine .phrase awaits (fun middle consumes here => ?_) fun _ _ awaits =>
    accepted fuel (Nat.le_refl _) _ _ awaits follow
  exact operand _ _ here (rest_follow derives consumes follow)

theorem accepted_unary {operator : TokenType} {operand : List TokenType}
    (member : operator ∈ unaryOperators) (accepted : Accepted N .unary operand) :
    Accepted N .unary (operator :: operand) := by
  refine eventually_succ accepted fun fuel operand before last awaits follow => ?_
  rw [compileUnaryPrecedenceExpression]
  refine .current ?_
  rw [awaits.type_eq]
  simp only [unaryOperators, List.mem_cons, List.not_mem_nil, or_false] at member
  rcases member with rfl | rfl <;>
    exact .next awaits fun _ _ awaits =>
      .finish awaits (fun here => operand _ _ here follow) fun _ => quiet_emit _ _

theorem accepted_unaryCall (derives : Derives dialect .call types) (accepted : Accepted N .call types) :
    Accepted N .unary types := by
  refine eventually_succ accepted fun fuel call before last awaits follow => ?_
  obtain ⟨first, rest, rfl, member⟩ := derives.opens (by decide)
  rw [compileUnaryPrecedenceExpression]
  refine .current ?_
  rw [awaits.type_eq]
  split
  · exact absurd member (by decide)
  · exact absurd member (by decide)
  · exact call _ _ awaits follow

theorem accepted_call {primary suffixes : List TokenType} (first : Accepted N .primary primary)
    (accepted : Accepted N .suffixes suffixes) : Accepted N .call (primary ++ suffixes) := by
  refine eventually_succ (Eventually.and first accepted) fun fuel ih before last awaits follow => ?_
  obtain ⟨primary, suffixes⟩ := ih
  rw [compileCallPrecedenceExpression]
  refine .current (primary.any awaits fun _ _ awaits => ?_)
  exact suffixes _ _ _ awaits follow

theorem accepted_noSuffix : Accepted N .suffixes [] := by
  refine eventually_atTop.mpr ⟨1, fun fuel enough token before last awaits follow => ?_⟩
  obtain ⟨fuel, rfl⟩ := Nat.exists_eq_add_of_le' enough
  have here : before.tokenIter.token.type.strength < 7 := awaits.last_eq ▸ follow
  rw [callLoop]
  refine .current ?_
  split
  next paren => rw [paren] at here; exact absurd here (by decide)
  next dot => rw [dot] at here; exact absurd here (by decide)
  next => exact .of_quiet (.pure ()) awaits

/-- `.name`, and the rest of the suffixes. -/
theorem property_passes {rest : SourceMapToken Text → CompileM N Unit}
    (awaits : Awaits before (.dot :: .identifier :: more) last)
    (two : ∀ token after, Awaits after more last → Passes after (rest token) last) :
    Passes before (compileProperty >>= rest) last := by
  rw [compileProperty]
  simp only [bind_assoc]
  exact .next awaits fun _ _ awaits => .expectCurrent awaits fun _ _ awaits =>
    .quiet (quiet_emitName _ _ _) awaits fun _ _ awaits => two _ _ awaits

theorem accepted_propertySuffix {suffixes : List TokenType}
    (accepted : Accepted N .suffixes suffixes) :
    Accepted N .suffixes (.dot :: .identifier :: suffixes) := by
  refine eventually_succ accepted fun fuel suffixes token before last awaits follow => ?_
  rw [callLoop]
  refine .current ?_
  rw [awaits.type_eq]
  exact property_passes awaits fun _ _ awaits => suffixes _ _ _ awaits follow

theorem accepted_callSuffix {arguments suffixes : List TokenType}
    (args : Accepted N .arguments arguments) (accepted : Accepted N .suffixes suffixes) :
    Accepted N .suffixes (.leftParen :: arguments ++ .rightParen :: suffixes) := by
  have both := eventually_forall_ge_atTop.mpr accepted
  refine eventually_succ (Eventually.and args both) fun fuel ih token before last awaits follow => ?_
  obtain ⟨argsPass, suffixesPass⟩ := ih
  rw [callLoop]
  refine .current ?_
  rw [awaits.type_eq]
  refine .next awaits fun _ _ awaits => ?_
  refine argsPass.closed awaits fun _ _ awaits => .quiet (quiet_emitCall _ _) awaits fun _ middle awaits => .current ?_
  split
  next dot =>
      -- the second `if` does what the next iteration would do
      have more := suffixesPass (fuel + 1) (Nat.le_succ _) token _ _ awaits follow
      rw [callLoop] at more
      have here := more.of_current
      rw [show middle.tokenIter.token.type = .dot from dot] at here
      exact here
  next => exact suffixesPass fuel (Nat.le_refl _) _ _ _ awaits follow

theorem accepted_noArgument : Accepted N .arguments [] := by
  refine eventually_atTop.mpr ⟨1, fun fuel enough before last awaits _ => ?_⟩
  obtain ⟨fuel, rfl⟩ := Nat.exists_eq_add_of_le' enough
  rw [compileArguments]
  exact .found awaits fun _ awaits => .of_quiet (.pure 0) awaits

theorem accepted_arguments (derives : Derives dialect .argumentList types)
    (accepted : Accepted N .argumentList types) : Accepted N .arguments types := by
  refine eventually_succ accepted fun fuel argumentList before last awaits _ => ?_
  obtain ⟨first, rest, rfl, member⟩ := derives.opens (by decide)
  rw [compileArguments]
  refine .missing (fun same => ?_) (argumentList.andThen awaits rfl fun _ _ awaits => ?_)
  · rw [← awaits.type_eq, same] at member
    exact absurd member (by decide)
  · exact .expectNext awaits fun _ _ awaits => .of_quiet (.pure _) awaits

theorem accepted_lastArgument (accepted : Accepted N .expression types) :
    Accepted N .argumentList types := by
  refine eventually_succ accepted fun fuel value before last awaits follow => ?_
  rw [argumentLoop]
  have closing : last.token.type = .rightParen := follow
  refine value.atLast awaits (by rw [closing]; decide) fun _ _ same awaits => .missing ?_ ?_
  · rw [same, closing]
    decide
  · exact .of_quiet (.pure 1) awaits

theorem accepted_argument {value rest : List TokenType} (accepted : Accepted N .expression value)
    (acceptedRest : Accepted N .argumentList rest) :
    Accepted N .argumentList (value ++ .comma :: rest) := by
  refine eventually_succ (Eventually.and accepted acceptedRest) fun fuel ih before last awaits follow => ?_
  obtain ⟨value, rest⟩ := ih
  rw [argumentLoop]
  refine value.andThen awaits (by decide) fun _ _ awaits => .found awaits fun _ awaits => ?_
  exact .finish awaits (fun here => rest _ _ here follow) fun _ => .pure _

theorem accepted_literal {type : TokenType} (member : type ∈ literals) :
    Accepted N .primary [type] := by
  refine eventually_atTop.mpr ⟨1, fun fuel enough before last awaits _ => ?_⟩
  obtain ⟨fuel, rfl⟩ := Nat.exists_eq_add_of_le' enough
  rw [compilePrimaryExpression]
  refine .current ?_
  rw [awaits.type_eq]
  simp only [literals, List.mem_cons, List.not_mem_nil, or_false] at member
  rcases member with rfl | rfl | rfl | rfl | rfl | rfl | rfl
  · exact .next awaits fun _ _ awaits => .of_quiet (quiet_emit _ _) awaits
  · exact .next awaits fun _ _ awaits => .of_quiet (quiet_emit _ _) awaits
  · exact .next awaits fun _ _ awaits => .of_quiet (quiet_emit _ _) awaits
  · exact .next awaits fun _ _ awaits => .of_quiet (quiet_emitGetter _) awaits
  · exact .next awaits fun _ _ awaits => .of_quiet (quiet_emitConstant _ _) awaits
  · exact .next awaits fun _ _ awaits => .of_quiet (quiet_emitConstant _ _) awaits
  · exact .next awaits fun _ _ awaits => .of_quiet (quiet_emitGetter _) awaits

theorem accepted_parenthesized {value : List TokenType} (accepted : Accepted N .expression value) :
    Accepted N .primary (.leftParen :: value ++ [.rightParen]) := by
  refine eventually_succ accepted fun fuel value before last awaits _ => ?_
  rw [compilePrimaryExpression]
  refine .current ?_
  rw [awaits.type_eq]
  exact .next awaits fun _ _ awaits => value.andThen awaits (by decide) fun _ _ awaits =>
    .expectNext awaits fun _ _ awaits => .of_quiet (.pure ()) awaits

theorem accepted_super : Accepted N .primary [.super, .dot, .identifier] := by
  refine eventually_atTop.mpr ⟨1, fun fuel enough before last awaits _ => ?_⟩
  obtain ⟨fuel, rfl⟩ := Nat.exists_eq_add_of_le' enough
  rw [compilePrimaryExpression]
  refine .current ?_
  rw [awaits.type_eq]
  exact .next awaits fun _ _ awaits => .quiet (quiet_emitGetter _) awaits fun _ _ awaits =>
    .quiet (quiet_emitGetter _) awaits fun _ _ awaits => .expectNext awaits fun _ _ awaits =>
      .expectCurrent awaits fun _ _ awaits => .of_quiet (quiet_emitName _ _ _) awaits

theorem accepted_functionExpression {function : List TokenType}
    (accepted : Accepted N .function function) : Accepted N .primary (.fun_ :: function) := by
  refine eventually_succ accepted fun fuel function before last awaits _ => ?_
  rw [compilePrimaryExpression]
  refine .current ?_
  rw [awaits.type_eq]
  exact .next awaits fun token _ awaits => .finish awaits
    (fun here => .inFunction here fun _ inside => function (sourceMapToken token) _ _ inside trivial)
    fun _ => quiet_emitFunction _ _ _

/-- The whole assignment, once its left side is known to be a name and a path. -/
theorem passes_assignment {first : TokenType} {count fuel : Nat} {value : List TokenType}
    (name : IsName first) (variable_ : count = 0 → first = .identifier) (enough : count < fuel)
    (passes : PassesOver N (compileAssignmentPrecedenceExpression fuel) value EndsExpression) :
    PassesOver N (compileAssignmentPrecedenceExpression (fuel + 1))
      (first :: path count ++ .equal :: value) EndsExpression := by
  intro before last awaits follow
  obtain ⟨stop, consumes, consumesRest⟩ := awaits.consumes.split
  obtain ⟨names, peeks, length⟩ := peekAssignment_some name consumes consumesRest.1 enough
  rw [compileAssignmentPrecedenceExpression]
  refine .get ?_
  rw [Passes, run_lift_bind peeks]
  have ahead : Awaits { before with tokenIter := stop } (.equal :: value) last :=
    ⟨consumes.faithful awaits.faithful, consumesRest⟩
  have other : names ≠ [] ∨ before.tokenIter.token.lexeme ≠ thisName := by
    cases count with
    | zero =>
        refine .inr fun same => ?_
        have isThis := awaits.faithful.this_iff.mpr same
        rw [consumes.1, variable_ rfl] at isThis
        cases isThis
    | succ count =>
        refine .inl fun empty => ?_
        rw [empty] at length
        cases length
  have later : Passes { before with tokenIter := stop } (do
      let equalToken ← next
      compileAssignmentPrecedenceExpression fuel
      emitAssignment before.tokenIter.token equalToken names) last :=
    .next ahead fun _ _ awaits => .finish awaits (fun here => passes _ _ here follow)
      fun _ => quiet_emitAssignment other
  exact later

theorem accepted_assignment {value : List TokenType} (accepted : Accepted N .expression value) :
    Accepted N .expression (.identifier :: .equal :: value) := by
  have enough : ∀ᶠ fuel in atTop, 0 < fuel := eventually_gt_atTop 0
  exact eventually_succ (enough.and accepted) fun fuel ih =>
    passes_assignment (.inl rfl) (fun _ => rfl) ih.1 ih.2

theorem accepted_propertyAssignment {object value : List TokenType} (isPath : IsPath object)
    (accepted : Accepted N .expression value) :
    Accepted N .expression (object ++ .dot :: .identifier :: .equal :: value) := by
  obtain ⟨first, count, name, rfl⟩ := isPath
  have enough : ∀ᶠ fuel in atTop, count + 1 < fuel := eventually_gt_atTop _
  have same : first :: path count ++ .dot :: .identifier :: .equal :: value =
      first :: path (count + 1) ++ .equal :: value := by simp [path_succ]
  rw [same]
  exact eventually_succ (enough.and accepted) fun fuel ih =>
    passes_assignment name (fun none => absurd none (Nat.succ_ne_zero _)) ih.1 ih.2

theorem accepted_logicOr (derives : Derives dialect (.binary .or_) types)
    (accepted : Accepted N (.binary .or_) types) : Accepted N .expression types := by
  have enough : ∀ᶠ fuel in atTop, types.length < fuel := eventually_gt_atTop _
  refine eventually_succ (enough.and accepted) fun fuel ih before last awaits follow => ?_
  obtain ⟨enough, or_⟩ := ih
  obtain ⟨weak, ends⟩ := EndsExpression.strength follow
  obtain ⟨first, rest, rfl, -⟩ := derives.opens (by decide)
  rw [compileAssignmentPrecedenceExpression]
  refine .get ?_
  rw [Passes, run_lift_bind
    (peekAssignment_none awaits.consumes derives.clear (List.cons_ne_nil _ _) ends enough)]
  exact or_ _ _ awaits (Nat.lt_of_le_of_lt (Nat.le_of_eq weak) (by decide))

theorem accepted_expressionStatement {value : List TokenType}
    (accepted : Accepted N .expression value) : Accepted N .exprStmt (value ++ [.semicolon]) := by
  refine eventually_succ accepted fun fuel value before last awaits _ => ?_
  rw [compileExpressionStatement]
  refine value.andThen awaits (by decide) fun _ _ awaits => .current ?_
  rw [if_neg (by rw [awaits.type_eq]; decide)]
  exact .expectCurrent awaits fun _ _ awaits => .of_quiet (quiet_emit _ _) awaits

/-- The statements that a token of their own begins. -/
def statementOf : TokenType → Option (Nat → CompileM N Unit)
  | .if_ => some compileIfStatement
  | .for_ => some compileForStatement
  | .leftBrace => some compileBlock
  | .print => some compilePrintStatement
  | .return_ => some compileReturnStatement
  | .while_ => some compileWhileStatement
  | _ => none

theorem accepted_statement {type : TokenType} {rest : List TokenType} {shape : Shape}
    {statement : Nat → CompileM N Unit} (found : statementOf type = some statement)
    (passes : ∀ᶠ fuel in atTop, PassesOver N (statement fuel) (type :: rest)
      fun type => shape = .open_ → type ≠ .else_) : Accepted N (.statement shape) (type :: rest) := by
  refine eventually_succ passes fun fuel statement before last awaits follow => ?_
  rw [compileStatement]
  refine .current ?_
  rw [awaits.type_eq]
  cases type
  case if_ | for_ | leftBrace | print | return_ | while_ =>
      cases found
      exact statement _ _ awaits follow
  all_goals cases found

theorem accepted_exprStmt (derives : Derives dialect .exprStmt types)
    (accepted : Accepted N .exprStmt types) : Accepted N (.statement .closed) types := by
  refine eventually_succ accepted fun fuel value before last awaits _ => ?_
  obtain ⟨first, rest, rfl, member⟩ := derives.opens (by decide)
  rw [compileStatement]
  refine .current ?_
  rw [awaits.type_eq]
  split
  case h_7 => exact value _ _ awaits trivial
  all_goals exact absurd member (by decide)

theorem accepted_print {value : List TokenType} (accepted : Accepted N .expression value) :
    Accepted N (.statement .closed) (.print :: value ++ [.semicolon]) := by
  refine accepted_statement rfl (eventually_succ accepted fun fuel value before last awaits _ => ?_)
  rw [compilePrintStatement]
  exact .next awaits fun _ _ awaits => value.andThen awaits (by decide) fun _ _ awaits =>
    .expectNext awaits fun _ _ awaits => .of_quiet (quiet_emit _ _) awaits

/-- The clause is left out, or the expression passes. -/
theorem Clause.eventually (clause : Clause N types) : ∀ᶠ fuel in atTop,
    types = [] ∨ OpensWith expressionStarts types ∧
      PassesOver N (compileAssignmentPrecedenceExpression fuel) types EndsExpression := by
  rcases clause with empty | ⟨opens, accepted⟩
  · exact .of_forall fun _ => .inl empty
  · exact accepted.mono fun _ passes => .inr ⟨opens, passes⟩

theorem accepted_return {value : List TokenType} (clause : Clause N value) :
    Accepted N (.statement .closed) (.return_ :: value ++ [.semicolon]) := by
  refine accepted_statement rfl
    (eventually_succ clause.eventually fun fuel clause before last awaits _ => ?_)
  rw [compileReturnStatement]
  refine .get ?_
  split
  · exact .throw (.topLevelReturn _)
  refine .next awaits fun _ _ awaits => ?_
  rcases clause with rfl | ⟨⟨first, rest, rfl, member⟩, value⟩
  · exact .found awaits fun _ awaits => .quiet (quiet_emitDefaultReturnValue _) awaits
      fun _ _ awaits => .of_quiet (quiet_emit _ _) awaits
  · refine .missing (fun same => ?_) (.get ?_)
    · rw [← awaits.type_eq, same] at member
      exact absurd member (by decide)
    · split
      · exact .current (.throw (.initializerReturn _))
      · exact value.andThen awaits (by decide) fun _ _ awaits =>
          .expectNext awaits fun _ _ awaits => .of_quiet (quiet_emit _ _) awaits

theorem ends_atBlockEnd : ∀ type, atBlockEnd type → type = .eof ∨ type = .rightBrace := by
  simp [atBlockEnd]

theorem accepted_block {body : List TokenType} (accepted : Accepted N .declarations body) :
    Accepted N (.statement .closed) (.leftBrace :: body ++ [.rightBrace]) := by
  refine accepted_statement rfl
    (eventually_succ (accepted _ ends_atBlockEnd) fun fuel body before last awaits _ => ?_)
  rw [compileBlock]
  exact .next awaits fun _ _ awaits => .quiet quiet_beginScope awaits fun _ _ awaits =>
    body.andThen awaits rfl fun _ _ awaits => .expectCurrent awaits fun _ _ awaits =>
      .of_quiet (quiet_popTopScopeDepth _) awaits

theorem accepted_while {condition body : List TokenType} {shape : Shape}
    (accepted : Accepted N .expression condition)
    (acceptedBody : Accepted N (.statement shape) body) :
    Accepted N (.statement shape)
      (.while_ :: .leftParen :: condition ++ .rightParen :: body) := by
  refine accepted_statement rfl
    (eventually_succ (Eventually.and accepted acceptedBody) fun fuel ih before last awaits follow => ?_)
  obtain ⟨condition, body⟩ := ih
  rw [compileWhileStatement]
  exact .next awaits fun _ _ awaits => .quiet quiet_bytecodeSize awaits fun _ _ awaits =>
    .expectNext awaits fun _ _ awaits => condition.andThen awaits (by decide) fun _ _ awaits =>
      .expectNext awaits fun _ _ awaits => .quiet (quiet_emitJump _ _) awaits fun _ _ awaits =>
        .quiet (quiet_emit _ _) awaits fun _ _ awaits =>
          .finish awaits (fun here => body _ _ here follow) fun _ =>
            (quiet_emitLoop _ _).bind fun _ => (quiet_toNextOpcode _).bind fun _ => quiet_emit _ _

/-- Up to the branch, `if` is the same with and without `else`. -/
theorem if_passes {fuel : Nat} {condition : List TokenType} {rest : List TokenType}
    (passes : PassesOver N (compileAssignmentPrecedenceExpression fuel) condition EndsExpression)
    (awaits : Awaits before (.if_ :: .leftParen :: condition ++ .rightParen :: rest) last)
    (two : ∀ (ifToken : SourceMapToken Text) toElse (after : Compiler N), Awaits after rest last →
      Passes after (do
        compileStatement fuel
        let toEndJumpBackpatch ← emitJump .jump ifToken
        toNextOpcode toElse
        emit .pop ifToken
        optionally (← advanceIfMatch .else_) (compileStatement fuel)
        toNextOpcode toEndJumpBackpatch) last) :
    Passes before (compileIfStatement (fuel + 1)) last := by
  rw [compileIfStatement]
  exact .next awaits fun _ _ awaits => .expectNext awaits fun _ _ awaits =>
    passes.andThen awaits (by decide) fun _ _ awaits => .expectNext awaits fun _ _ awaits =>
      .quiet (quiet_emitJump _ _) awaits fun _ _ awaits =>
        .quiet (quiet_emit _ _) awaits fun _ _ awaits => two _ _ _ awaits

theorem accepted_if {condition body : List TokenType} {shape : Shape}
    (accepted : Accepted N .expression condition)
    (acceptedBody : Accepted N (.statement shape) body) :
    Accepted N (.statement .open_) (.if_ :: .leftParen :: condition ++ .rightParen :: body) := by
  refine accepted_statement rfl
    (eventually_succ (Eventually.and accepted acceptedBody) fun fuel ih before last awaits follow => ?_)
  obtain ⟨condition, body⟩ := ih
  have noElse : last.token.type ≠ .else_ := follow rfl
  refine if_passes condition awaits fun _ _ _ awaits => ?_
  refine body.atLast awaits (fun _ => noElse) fun _ _ _ awaits =>
    .quiet (quiet_emitJump _ _) awaits fun _ _ awaits =>
      .quiet (quiet_toNextOpcode _) awaits fun _ _ awaits =>
        .quiet (quiet_emit _ _) awaits fun _ _ awaits => .missing ?_ ?_
  · rw [← awaits.last_eq]
    exact noElse
  · exact .quiet (.pure ()) awaits fun _ _ awaits => .of_quiet (quiet_toNextOpcode _) awaits

theorem accepted_ifElse {condition body other : List TokenType} {after : Shape}
    (accepted : Accepted N .expression condition)
    (acceptedBody : Accepted N (.statement .closed) body)
    (acceptedOther : Accepted N (.statement after) other) :
    Accepted N (.statement after)
      (.if_ :: .leftParen :: condition ++ .rightParen :: body ++ .else_ :: other) := by
  refine accepted_statement rfl (eventually_succ
    (Eventually.and accepted (acceptedBody.and acceptedOther)) fun fuel ih before last awaits follow => ?_)
  obtain ⟨laterCondition, laterBody, laterOther⟩ := ih
  have ahead : Awaits before
      (.if_ :: .leftParen :: condition ++ .rightParen :: (body ++ .else_ :: other)) last := by
    simpa using awaits
  refine if_passes laterCondition ahead fun _ _ _ awaits => ?_
  exact laterBody.andThen awaits nofun fun _ _ awaits =>
    .quiet (quiet_emitJump _ _) awaits fun _ _ awaits =>
      .quiet (quiet_toNextOpcode _) awaits fun _ _ awaits =>
        .quiet (quiet_emit _ _) awaits fun _ _ awaits => .found awaits fun _ awaits =>
          .finish awaits (fun here => laterOther _ _ here follow) fun _ => quiet_toNextOpcode _

theorem accepted_forNothing : Accepted N .forInitializer [.semicolon] := by
  refine eventually_atTop.mpr ⟨1, fun fuel enough before last awaits _ => ?_⟩
  obtain ⟨fuel, rfl⟩ := Nat.exists_eq_add_of_le' enough
  rw [compileForInitializer]
  exact .found awaits fun _ awaits => .of_quiet (.pure ()) awaits

theorem compileDeclaration_var {fuel : Nat} (passes : PassesOver N (compileVarDeclaration fuel) types Any)
    (opens : OpensWith [.var] types) : PassesOver N (compileDeclaration (fuel + 1)) types Any := by
  intro before last awaits _
  obtain ⟨first, rest, rfl, member⟩ := opens
  obtain rfl := List.mem_singleton.mp member
  rw [compileDeclaration]
  refine .current ?_
  rw [awaits.type_eq]
  exact passes _ _ awaits trivial

theorem accepted_forVar (derives : Derives dialect .varDecl types)
    (accepted : Accepted N .varDecl types) : Accepted N .forInitializer types := by
  have opens := derives.opens (by decide)
  have declares : ∀ᶠ fuel in atTop, PassesOver N (compileDeclaration fuel) types Any :=
    eventually_succ accepted fun _ var => compileDeclaration_var var opens
  refine eventually_succ declares fun fuel declaration before last awaits _ => ?_
  obtain ⟨first, rest, rfl, member⟩ := opens
  obtain rfl := List.mem_singleton.mp member
  rw [compileForInitializer]
  refine .missing (by rw [awaits.type_eq]; decide) (.current ?_)
  rw [if_pos awaits.type_eq]
  exact declaration _ _ awaits trivial

theorem accepted_forExpression (derives : Derives dialect .exprStmt types)
    (accepted : Accepted N .exprStmt types) : Accepted N .forInitializer types := by
  refine eventually_succ accepted fun fuel value before last awaits _ => ?_
  obtain ⟨first, rest, rfl, member⟩ := derives.opens (by decide)
  have first_ne (type : TokenType) (other : type ∉ expressionStarts) : first ≠ type := by
    rintro rfl
    exact other member
  rw [compileForInitializer]
  refine .missing (by rw [awaits.type_eq]; exact first_ne _ (by decide)) (.current ?_)
  rw [if_neg (by rw [awaits.type_eq]; exact first_ne _ (by decide))]
  exact value _ _ awaits trivial

/-- The condition and its semicolon. -/
theorem forCondition_passes (clause : Clause N types) : ∀ᶠ fuel in atTop, ∀ token,
    PassesOver N (compileForCondition fuel token) (types ++ [.semicolon]) Any := by
  refine eventually_succ clause.eventually fun fuel clause token before last awaits _ => ?_
  rw [compileForCondition]
  rcases clause with rfl | ⟨⟨first, rest, rfl, member⟩, value⟩
  · exact .found awaits fun _ awaits => .of_quiet (quiet_emit _ _) awaits
  · refine .missing (fun same => ?_) ?_
    · rw [← awaits.type_eq, same] at member
      exact absurd member (by decide)
    · exact value.andThen awaits (by decide) fun _ _ awaits =>
        .expectNext awaits fun _ _ awaits => .of_quiet (.pure ()) awaits

theorem forIncrement_passes (clause : Clause N types) : ∀ᶠ fuel in atTop, ∀ token,
    PassesOver N (compileForIncrement fuel token) types (· = .rightParen) := by
  refine eventually_succ clause.eventually fun fuel clause token before last awaits follow => ?_
  have closing : last.token.type = .rightParen := follow
  rw [compileForIncrement]
  refine .current ?_
  rcases clause with rfl | ⟨⟨first, rest, rfl, member⟩, value⟩
  · rw [if_pos (by rw [← awaits.last_eq]; exact closing)]
    exact .of_quiet (.pure ()) awaits
  · rw [if_neg fun same => by
      rw [← awaits.type_eq, same] at member
      exact absurd member (by decide)]
    exact .finish awaits (fun here => value _ _ here (by rw [closing]; decide)) fun _ => quiet_emit _ _

theorem accepted_for {initializer condition increment body : List TokenType} {shape : Shape}
    (acceptedInitializer : Accepted N .forInitializer initializer)
    (acceptedCondition : Clause N condition) (acceptedIncrement : Clause N increment)
    (acceptedBody : Accepted N (.statement shape) body) :
    Accepted N (.statement shape) (.for_ :: .leftParen :: initializer ++ condition ++
      .semicolon :: increment ++ .rightParen :: body) := by
  have both := (forCondition_passes acceptedCondition).and (forIncrement_passes acceptedIncrement)
  refine accepted_statement rfl (eventually_succ
    (Eventually.and acceptedInitializer (acceptedBody.and both)) fun fuel ih before last awaits follow => ?_)
  obtain ⟨laterInitializer, laterBody, laterCondition, laterIncrement⟩ := ih
  have ahead : Awaits before (.for_ :: .leftParen :: (initializer ++ (condition ++
      .semicolon :: (increment ++ .rightParen :: body)))) last := by simpa using awaits
  rw [compileForStatement]
  exact .next ahead fun forToken _ awaits => .quiet quiet_beginScope awaits fun _ _ awaits =>
    .expectNext awaits fun _ _ awaits => laterInitializer.any awaits fun _ _ awaits =>
      .quiet quiet_bytecodeSize awaits fun _ _ awaits =>
        (laterCondition (sourceMapToken forToken)).closed awaits fun _ _ awaits =>
          .quiet (quiet_emitJump _ _) awaits fun _ _ awaits =>
            .quiet (quiet_emitJump _ _) awaits fun _ _ awaits =>
              .quiet quiet_bytecodeSize awaits fun _ _ awaits =>
                (laterIncrement (sourceMapToken forToken)).andThen awaits rfl fun _ _ awaits =>
                  .expectNext awaits fun _ _ awaits =>
                    .quiet (quiet_emitLoop _ _) awaits fun _ _ awaits =>
                      .quiet (quiet_toNextOpcode _) awaits fun _ _ awaits =>
                        .quiet (quiet_emit _ _) awaits fun _ _ awaits =>
                          .finish awaits (fun here => laterBody _ _ here follow) fun _ =>
                            (quiet_emitLoop _ _).bind fun _ => (quiet_toNextOpcode _).bind fun _ =>
                              (quiet_emit _ _).bind fun _ => quiet_popTopScopeDepth _

theorem accepted_noParameter : Accepted N .parameters [] := by
  refine eventually_atTop.mpr ⟨1, fun fuel enough before last awaits _ => ?_⟩
  obtain ⟨fuel, rfl⟩ := Nat.exists_eq_add_of_le' enough
  rw [compileParameters]
  exact .found awaits fun _ awaits => .of_quiet (.pure 0) awaits

theorem accepted_parameters (derives : Derives dialect .parameterList types)
    (accepted : Accepted N .parameterList types) : Accepted N .parameters types := by
  refine eventually_succ accepted fun fuel parameters before last awaits _ => ?_
  obtain ⟨first, rest, rfl, member⟩ := derives.opens (by decide)
  rw [compileParameters]
  refine .missing (fun same => ?_) (parameters _ _ awaits trivial)
  rw [← awaits.type_eq, same] at member
  exact absurd member (by decide)

theorem accepted_lastParameter : Accepted N .parameterList [.identifier] := by
  refine eventually_atTop.mpr ⟨1, fun fuel enough before last awaits _ => ?_⟩
  obtain ⟨fuel, rfl⟩ := Nat.exists_eq_add_of_le' enough
  rw [parameterLoop]
  refine .expectCurrent awaits fun _ _ awaits => .quiet (quiet_trackLocal _ _) awaits
    fun _ _ awaits => .missing (by rw [awaits.type_eq]; decide) ?_
  exact .expectNext awaits fun _ _ awaits => .of_quiet (.pure 1) awaits

theorem accepted_parameter (accepted : Accepted N .parameterList types) :
    Accepted N .parameterList (.identifier :: .comma :: types) := by
  refine eventually_succ accepted fun fuel parameters before last awaits _ => ?_
  rw [parameterLoop]
  refine .expectCurrent awaits fun _ _ awaits => .quiet (quiet_trackLocal _ _) awaits
    fun _ _ awaits => .found awaits fun _ awaits => ?_
  exact .finish awaits (fun here => parameters _ _ here trivial) fun _ => .pure _

theorem accepted_function {parameters body : List TokenType}
    (accepted : Accepted N .parameters parameters) (acceptedBody : Accepted N .declarations body) :
    Accepted N .function
      (.leftParen :: parameters ++ .rightParen :: .leftBrace :: body ++ [.rightBrace]) := by
  refine eventually_succ (Eventually.and accepted (acceptedBody _ ends_atBlockEnd))
    fun fuel ih token before last awaits _ => ?_
  obtain ⟨laterParameters, laterBody⟩ := ih
  have ahead : Awaits before (.leftParen :: (parameters ++ .rightParen :: .leftBrace ::
      (body ++ [.rightBrace]))) last := by simpa using awaits
  rw [compileFunctionRest]
  exact .expectNext ahead fun _ _ awaits => laterParameters.closed awaits fun _ _ awaits =>
    .expectNext awaits fun _ _ awaits => laterBody.andThen awaits rfl fun _ _ awaits =>
      .expectNext awaits fun _ _ awaits => .quiet (quiet_emitDefaultReturnValue _) awaits
        fun _ _ awaits => .quiet (quiet_emit _ _) awaits fun _ _ awaits =>
          .of_quiet (.pure _) awaits

theorem declarations_open (derives : Derives dialect .declarations types) :
    types = [] ∨ OpensWith Category.declaration.starts types := by
  cases derives with
  | noDeclaration => exact .inl rfl
  | declarations head _ => exact .inr ((head.opens (List.cons_ne_nil _ _)).append _)

theorem accepted_noDeclaration : Accepted N .declarations [] := by
  intro isEnd _
  refine eventually_atTop.mpr ⟨1, fun fuel enough before last awaits follow => ?_⟩
  obtain ⟨fuel, rfl⟩ := Nat.exists_eq_add_of_le' enough
  have ends : isEnd before.tokenIter.token.type = true := awaits.last_eq ▸ follow
  rw [declarationLoop]
  refine .current ?_
  rw [if_pos ends]
  exact .of_quiet (.pure ()) awaits

theorem accepted_declarations {head tail : List TokenType}
    (derives : Derives dialect .declaration head) (derivesTail : Derives dialect .declarations tail)
    (accepted : Accepted N .declaration head) (acceptedTail : Accepted N .declarations tail) :
    Accepted N .declarations (head ++ tail) := by
  intro isEnd ends
  have begins : ∀ type ∈ Category.declaration.starts, isEnd type = false ∧ type ≠ .else_ := by
    intro type member
    refine ⟨Bool.eq_false_iff.mpr fun found => ?_, fun same => absurd (same ▸ member) (by decide)⟩
    rcases ends type found with rfl | rfl <;> exact absurd member (by decide)
  refine eventually_succ (Eventually.and accepted (acceptedTail isEnd ends))
    fun fuel ih before last awaits follow => ?_
  obtain ⟨laterHead, laterTail⟩ := ih
  obtain ⟨first, rest, rfl, member⟩ := derives.opens (List.cons_ne_nil _ _)
  rw [declarationLoop]
  refine .current ?_
  rw [if_neg (by rw [awaits.type_eq, (begins _ member).1]; decide)]
  refine .phrase awaits (fun middle consumes here => laterHead _ _ here ?_) fun _ _ awaits =>
    laterTail _ _ awaits follow
  rcases declarations_open derivesTail with rfl | ⟨next, more, rfl, member⟩
  · have same : last = middle := consumes
    subst same
    intro isElse
    rcases ends _ follow with eof | brace
    · cases eof.symm.trans isElse
    · cases brace.symm.trans isElse
  · rw [consumes.1]
    exact (begins _ member).2

/-- The declarations that a token of their own begins. -/
def declarationOf : TokenType → Option (Nat → CompileM N Unit)
  | .class_ => some compileClassDeclaration
  | .fun_ => some compileFunDeclaration
  | .var => some compileVarDeclaration
  | _ => none

theorem accepted_declaration {type : TokenType} {rest : List TokenType}
    {declaration : Nat → CompileM N Unit} (found : declarationOf type = some declaration)
    (passes : ∀ᶠ fuel in atTop, PassesOver N (declaration fuel) (type :: rest) Any) :
    Accepted N .declaration (type :: rest) := by
  refine eventually_succ passes fun fuel declaration before last awaits _ => ?_
  rw [compileDeclaration]
  refine .current ?_
  rw [awaits.type_eq]
  cases type
  case class_ | fun_ | var =>
      cases found
      exact declaration _ _ awaits trivial
  all_goals cases found

theorem accepted_statementDeclaration {shape : Shape} (notFun : types.head? ≠ some .fun_)
    (derives : Derives dialect (.statement shape) types)
    (accepted : Accepted N (.statement shape) types) : Accepted N .declaration types := by
  refine eventually_succ accepted fun fuel statement before last awaits follow => ?_
  obtain ⟨first, rest, rfl, member⟩ := derives.opens (List.cons_ne_nil _ _)
  rw [compileDeclaration]
  refine .current ?_
  rw [awaits.type_eq]
  rw [Category.starts_statement] at member
  split
  · exact absurd member (by decide)
  · exact absurd rfl notFun
  · exact absurd member (by decide)
  · exact statement _ _ awaits fun _ => follow

theorem accepted_noMethod : Accepted N .methods [] := by
  refine eventually_atTop.mpr ⟨1, fun fuel enough before last awaits follow => ?_⟩
  obtain ⟨fuel, rfl⟩ := Nat.exists_eq_add_of_le' enough
  have closing : before.tokenIter.token.type = .rightBrace := awaits.last_eq ▸ follow
  rw [methodLoop]
  refine .current ?_
  rw [if_neg (by rw [closing]; decide)]
  exact .of_quiet (.pure ()) awaits

theorem accepted_methods {head tail : List TokenType} (accepted : Accepted N .function head)
    (acceptedTail : Accepted N .methods tail) :
    Accepted N .methods (.identifier :: head ++ tail) := by
  refine eventually_succ (Eventually.and accepted acceptedTail)
    fun fuel ih before last awaits follow => ?_
  obtain ⟨laterHead, laterTail⟩ := ih
  rw [methodLoop]
  refine .current ?_
  rw [if_pos awaits.type_eq]
  refine .next awaits fun name _ awaits => ?_
  have function : PassesOver N (inFunction (name.lexeme = initName) (do
      trackLocal (thisToken (sourceMapToken name).line)
      compileFunctionRest fuel (sourceMapToken name))) head Any := fun _ _ awaits _ =>
    .inFunction awaits fun _ inside => .quiet (quiet_trackLocal _ _) inside fun _ _ inside =>
      laterHead _ _ _ inside trivial
  exact function.any awaits fun _ _ awaits => .quiet (quiet_emitFunction _ _ _) awaits
    fun _ _ awaits => .quiet (quiet_emitName _ _ _) awaits fun _ _ awaits =>
      laterTail _ _ awaits follow

theorem classBody_passes {methods : List TokenType} (accepted : Accepted N .methods methods) :
    ∀ᶠ fuel in atTop, PassesOver N (compileClassBody fuel)
      (.leftBrace :: methods ++ [.rightBrace]) Any := by
  refine eventually_succ accepted fun fuel methods before last awaits _ => ?_
  rw [compileClassBody]
  exact .expectNext awaits fun _ _ awaits => methods.andThen awaits rfl fun _ _ awaits =>
    .expectNext awaits fun _ _ awaits => .of_quiet (.pure ()) awaits

theorem accepted_class {methods : List TokenType} (accepted : Accepted N .methods methods) :
    Accepted N .declaration (.class_ :: .identifier :: .leftBrace :: methods ++ [.rightBrace]) := by
  refine accepted_declaration rfl
    (eventually_succ (classBody_passes accepted) fun fuel body before last awaits _ => ?_)
  rw [compileClassDeclaration]
  refine .next awaits fun _ _ awaits => .expectCurrent awaits fun _ _ awaits =>
    .quiet (quiet_emitName _ _ _) awaits fun _ _ awaits => .get (.quiet
      ((quiet_trackLocal _ _).optionally _) awaits fun _ _ awaits => .missing ?_ ?_)
  · rw [awaits.type_eq]
    decide
  · exact .finish awaits (fun here => body _ _ here trivial) fun _ => quiet_defineGlobalAtTop _ _

theorem accepted_subclass {methods : List TokenType} (accepted : Accepted N .methods methods) :
    Accepted N .declaration (.class_ :: .identifier :: .less :: .identifier :: .leftBrace ::
      methods ++ [.rightBrace]) := by
  refine accepted_declaration rfl
    (eventually_succ (classBody_passes accepted) fun fuel body before last awaits _ => ?_)
  rw [compileClassDeclaration]
  exact .next awaits fun _ _ awaits => .expectCurrent awaits fun _ _ awaits =>
    .quiet (quiet_emitName _ _ _) awaits fun _ _ awaits => .get (.quiet
      ((quiet_trackLocal _ _).optionally _) awaits fun _ _ awaits => .found awaits fun _ awaits =>
        .expectCurrent awaits fun _ _ awaits => .quiet (quiet_beginSuperclass _ _) awaits
          fun _ _ awaits => .finish awaits (fun here => body _ _ here trivial) fun _ =>
            (quiet_endSuperclass _).bind fun _ => quiet_defineGlobalAtTop _ _)

theorem accepted_fun {function : List TokenType} (accepted : Accepted N .function function) :
    Accepted N .declaration (.fun_ :: .identifier :: function) := by
  refine accepted_declaration rfl
    (eventually_succ accepted fun fuel function before last awaits _ => ?_)
  rw [compileFunDeclaration]
  exact .next awaits fun _ _ awaits => .expectCurrent awaits fun _ _ awaits =>
    .finish awaits (fun here => .inFunction here fun _ inside =>
      .quiet (quiet_trackLocal _ _) inside fun _ _ inside => function _ _ _ inside trivial) fun _ =>
        (quiet_emitFunction _ _ _).bind fun _ => (quiet_defineGlobalAtTop _ _).bind fun _ =>
          Quiet.get.bind fun _ => (quiet_trackLocal _ _).optionally _

theorem accepted_var (derives : Derives dialect .varDecl types)
    (accepted : Accepted N .varDecl types) : Accepted N .declaration types := by
  obtain ⟨first, rest, rfl, member⟩ := derives.opens (by decide)
  obtain rfl := List.mem_singleton.mp member
  exact accepted_declaration rfl accepted

theorem accepted_varDecl {value : List TokenType} (accepted : Accepted N .initializer value) :
    Accepted N .varDecl (.var :: .identifier :: value ++ [.semicolon]) := by
  refine eventually_succ accepted fun fuel value before last awaits _ => ?_
  rw [compileVarDeclaration]
  exact .next awaits fun varToken _ awaits => .expectCurrent awaits fun _ _ awaits => .get (.quiet
    ((quiet_trackLocal _ _).optionally _) awaits fun _ _ awaits =>
      (value (sourceMapToken varToken)).andThen awaits rfl fun _ _ awaits =>
        .expectNext awaits fun _ _ awaits => .quiet (quiet_defineGlobalAtTop _ _) awaits
          fun _ _ awaits => .get (.of_quiet (quiet_initializeBack.optionally _) awaits))

theorem accepted_noInitializer : Accepted N .initializer [] := by
  refine eventually_atTop.mpr ⟨1, fun fuel enough token before last awaits follow => ?_⟩
  obtain ⟨fuel, rfl⟩ := Nat.exists_eq_add_of_le' enough
  have closing : before.tokenIter.token.type = .semicolon := awaits.last_eq ▸ follow
  rw [compileInitializer]
  exact .missing (by rw [closing]; decide) (.of_quiet (quiet_emit _ _) awaits)

theorem accepted_initializer {value : List TokenType} (accepted : Accepted N .expression value) :
    Accepted N .initializer (.equal :: value) := by
  refine eventually_succ accepted fun fuel value token before last awaits follow => ?_
  have closing : last.token.type = .semicolon := follow
  rw [compileInitializer]
  exact .found awaits fun _ awaits => value _ _ awaits (by rw [closing]; decide)

theorem Derives.accepted {category : Category} (derives : Derives Dialect.greedy category types) :
    Accepted N category types := by
  induction derives with
  | program => trivial
  | noDeclaration => exact accepted_noDeclaration
  | declarations head tail ih ihTail => exact accepted_declarations head tail ih ihTail
  | class_ _ ih => exact accepted_class ih
  | subclass _ ih => exact accepted_subclass ih
  | fun_ _ ih => exact accepted_fun ih
  | var derives ih => exact accepted_var derives ih
  | statement notFun derives ih => exact accepted_statementDeclaration notFun derives ih
  | varDecl _ ih => exact accepted_varDecl ih
  | noInitializer => exact accepted_noInitializer
  | initializer _ ih => exact accepted_initializer ih
  | noMethod => exact accepted_noMethod
  | methods _ _ ih ihTail => exact accepted_methods ih ihTail
  | function _ _ ih ihBody => exact accepted_function ih ihBody
  | noParameter => exact accepted_noParameter
  | parameters derives ih => exact accepted_parameters derives ih
  | lastParameter => exact accepted_lastParameter
  | parameter _ ih => exact accepted_parameter ih
  | exprStmt derives ih => exact accepted_exprStmt derives ih
  | expressionStatement _ ih => exact accepted_expressionStatement ih
  | for_ _ _ _ _ ihInitializer ihCondition ihIncrement ih =>
      exact accepted_for ihInitializer ihCondition ihIncrement ih
  | if_ _ _ ihCondition ih => exact accepted_if ihCondition ih
  | ifElse _ closed _ _ ihCondition ih ihOther =>
      cases closed
      exact accepted_ifElse ihCondition ih ihOther
  | print _ ih => exact accepted_print ih
  | return_ _ ih => exact accepted_return ih
  | while_ _ _ ihCondition ih => exact accepted_while ihCondition ih
  | block _ ih => exact accepted_block ih
  | forNothing => exact accepted_forNothing
  | forVar derives ih => exact accepted_forVar derives ih
  | forExpression derives ih => exact accepted_forExpression derives ih
  | noClause => exact .inl rfl
  | clause derives ih => exact .inr ⟨derives.opens (by decide), ih⟩
  | assignment _ ih => exact accepted_assignment ih
  | propertyAssignment isPath _ _ _ ih => exact accepted_propertyAssignment isPath ih
  | logicOr derives ih => exact accepted_logicOr derives ih
  | binary _ rest ih ihRest => exact accepted_binary rest ih ihRest
  | noOperator => exact accepted_noOperator _
  | operator member _ rest ih ihRest => exact accepted_operator member rest ih ihRest
  | unary member _ ih => exact accepted_unary member ih
  | unaryCall derives ih => exact accepted_unaryCall derives ih
  | call _ _ ih ihSuffixes => exact accepted_call ih ihSuffixes
  | noSuffix => exact accepted_noSuffix
  | callSuffix _ _ ih ihSuffixes => exact accepted_callSuffix ih ihSuffixes
  | propertySuffix _ ih => exact accepted_propertySuffix ih
  | noArgument => exact accepted_noArgument
  | arguments derives ih => exact accepted_arguments derives ih
  | lastArgument _ ih => exact accepted_lastArgument ih
  | argument _ _ ih ihRest => exact accepted_argument ih ihRest
  | literal member => exact accepted_literal member
  | parenthesized _ ih => exact accepted_parenthesized ih
  | super => exact accepted_super
  | functionExpression _ ih => exact accepted_functionExpression ih

end Cpplox
