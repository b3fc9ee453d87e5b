import Cpplox.Ast.FactorExpressions

namespace Cpplox

open Structured Lower

variable {N : Type} [Number N] {fuel : Nat}

theorem FactorAt.expressionStatement_succ (ih : FactorAt N fuel) :
    Factors (compileExpressionStatement (fuel + 1) : CompileM N Unit)
      (Parse.expressionStatement (fuel + 1)) .stmt := by
  intro before after l runs matched
  rw [compileExpressionStatement] at runs
  obtain ⟨_, c₁, compiles, runs⟩ := run_bind_ok.mp runs
  obtain ⟨value, code, l₁, parses, lowers, emits⟩ := ih.assignment true _ _ _ compiles matched
  rw [Parse.expressionStatement, run_ok_bind parses, Parse.run_current_bind]
  rw [run_current_bind] at runs
  split at runs
  next => cases runs
  next other =>
      obtain ⟨semicolon, c₂, expects, runs⟩ := run_bind_ok.mp runs
      obtain ⟨-, reads⟩ := expectCurrent_reads expects emits.matched
      have pop := emit_emits runs rfl reads.emits.matched
      refine ⟨.expression value semicolon, _, l₁, ?_, .expression lowers,
        by simpa [Code.flatten] using (emits.trans reads.emits).trans pop.emits⟩
      rw [if_neg other, run_ok_bind reads.parses, pop.tokenIter]
      rfl

theorem FactorAt.parameterLoop_succ (ih : FactorAt N fuel) :
    FactorsParams (Cpplox.parameterLoop (fuel + 1) : CompileM N Nat)
      (Parse.parameterLoop (fuel + 1)) := by
  intro before after l count runs matched
  rw [Cpplox.parameterLoop] at runs
  obtain ⟨param, c₁, expects, runs⟩ := run_bind_ok.mp runs
  obtain ⟨-, name⟩ := expectCurrent_reads expects matched
  obtain ⟨_, c₂, tracks, runs⟩ := run_bind_ok.mp runs
  obtain ⟨mark, l₁, lowersTrack, tracked⟩ := trackLocal_emits tracks name.emits.matched
  obtain ⟨-, rfl, -⟩ := trackLocal_some lowersTrack
  rw [flatten_declared] at tracked
  obtain ⟨found, c₃, matches_, runs⟩ := run_bind_ok.mp runs
  have reads := advanceIfMatch_reads matches_ tracked.emits.matched
  rw [Parse.parameterLoop, run_ok_bind name.parses, ← tracked.tokenIter, run_ok_bind reads.parses]
  have first := (name.emits.trans tracked.emits).trans reads.emits
  cases found with
  | true =>
      obtain ⟨more, c₄, loops, runs⟩ := run_bind_ok.mp runs
      cases runs
      obtain ⟨params, later, parses, rfl, lowers, emits⟩ :=
        ih.parameterLoop _ _ _ _ loops reads.emits.matched
      refine ⟨param :: params, later, ?_, rfl, ?_, by simpa using first.trans emits⟩
      · simp only [if_true]
        rw [run_ok_bind parses]
        rfl
      · rw [List.map_cons, run_trackAll_cons lowersTrack, lowers]
  | false =>
      obtain ⟨_, c₄, closes, runs⟩ := run_bind_ok.mp runs
      cases runs
      have close := expectNext_reads closes reads.emits.matched
      refine ⟨[param], l₁, ?_, rfl, ?_, by simpa using first.trans close.emits⟩
      · simp only [Bool.false_eq_true, if_false]
        rw [run_ok_bind close.parses]
        rfl
      · rw [List.map_cons, run_trackAll_cons lowersTrack]
        rfl

theorem FactorAt.parameters_succ (ih : FactorAt N fuel) :
    FactorsParams (compileParameters (fuel + 1) : CompileM N Nat)
      (Parse.parameters (fuel + 1)) := by
  intro before after l count runs matched
  rw [compileParameters] at runs
  obtain ⟨found, c₁, matches_, runs⟩ := run_bind_ok.mp runs
  have reads := advanceIfMatch_reads matches_ matched
  rw [Parse.parameters, run_ok_bind reads.parses]
  cases found with
  | true =>
      cases runs
      exact ⟨[], l, rfl, rfl, rfl, reads.emits⟩
  | false =>
      obtain ⟨params, later, parses, counts, lowers, emits⟩ :=
        ih.parameterLoop _ _ _ _ runs reads.emits.matched
      exact ⟨params, later, parses, counts, lowers, by simpa using reads.emits.trans emits⟩

theorem FactorAt.functionRest_succ (ih : FactorAt N fuel) (token : SourceMapToken Text) :
    FactorsFunction (compileFunctionRest (fuel + 1) token : CompileM N Nat)
      (Parse.functionRest (fuel + 1)) [] token := by
  intro before after l count runs matched
  rw [compileFunctionRest] at runs
  obtain ⟨_, c₁, opens, runs⟩ := run_bind_ok.mp runs
  obtain ⟨params, c₂, tracks, runs⟩ := run_bind_ok.mp runs
  obtain ⟨_, c₃, begins, runs⟩ := run_bind_ok.mp runs
  obtain ⟨_, c₄, compiles, runs⟩ := run_bind_ok.mp runs
  obtain ⟨_, c₅, ends, runs⟩ := run_bind_ok.mp runs
  obtain ⟨_, c₆, values, runs⟩ := run_bind_ok.mp runs
  obtain ⟨_, c₇, returns, runs⟩ := run_bind_ok.mp runs
  cases runs
  have leftParen := expectNext_reads opens matched
  obtain ⟨names, l₁, parsesParams, counts, lowersParams, tracked⟩ :=
    ih.parameters _ _ _ _ tracks leftParen.emits.matched
  have leftBrace := expectNext_reads begins tracked.matched
  obtain ⟨body, code, l₂, parsesBody, lowersBody, bodies⟩ :=
    ih.declarationLoop atBlockEnd _ _ _ compiles leftBrace.emits.matched
  have rightBrace := expectNext_reads ends bodies.matched
  obtain ⟨value, l₃, lowersValue, value_⟩ :=
    emitDefaultReturnValue_emits values rightBrace.emits.matched
  have ret := emit_emits returns rfl value_.emits.matched
  refine ⟨names, body, code, value, l₁, l₂, l₃, ?_, counts, lowersParams, lowersBody, lowersValue, ?_⟩
  · rw [Parse.functionRest, run_ok_bind leftParen.parses, run_ok_bind parsesParams,
      run_ok_bind leftBrace.parses, run_ok_bind parsesBody, run_ok_bind rightBrace.parses,
      ret.tokenIter, value_.tokenIter]
    rfl
  · simpa [Code.flatten] using (((((leftParen.emits.trans tracked).trans leftBrace.emits).trans
      bodies).trans rightBrace.emits).trans value_.emits).trans ret.emits

theorem FactorAt.declarationLoop_succ (ih : FactorAt N fuel) (isEnd : TokenType → Bool) :
    Factors (Cpplox.declarationLoop (fuel + 1) isEnd : CompileM N Unit)
      (Parse.declarationLoop (fuel + 1) isEnd) .decls := by
  intro before after l runs matched
  rw [Cpplox.declarationLoop, run_current_bind] at runs
  rw [Parse.declarationLoop, Parse.run_current_bind]
  split at runs
  next ended =>
      cases runs
      rw [if_pos ended]
      exact ⟨.nil, .nil, l, rfl, .declsNil, .refl matched⟩
  next more =>
      obtain ⟨_, c₁, compiles, runs⟩ := run_bind_ok.mp runs
      obtain ⟨head, first, l₁, parses, lowers, emits⟩ := ih.declaration _ _ _ compiles matched
      obtain ⟨tail, rest, l₂, parsesRest, lowersRest, emitsRest⟩ :=
        ih.declarationLoop isEnd _ _ _ runs emits.matched
      refine ⟨.cons head tail, .seq first rest, l₂, ?_, .declsCons lowers lowersRest,
        emits.trans emitsRest⟩
      rw [if_neg more, run_ok_bind parses, run_ok_bind parsesRest]
      rfl

theorem FactorAt.block_succ (ih : FactorAt N fuel) :
    Factors (compileBlock (fuel + 1) : CompileM N Unit) (Parse.block (fuel + 1)) .stmt := by
  intro before after l runs matched
  rw [compileBlock] at runs
  obtain ⟨_, c₁, takes, runs⟩ := run_bind_ok.mp runs
  obtain ⟨_, c₂, begins, runs⟩ := run_bind_ok.mp runs
  obtain ⟨_, c₃, compiles, runs⟩ := run_bind_ok.mp runs
  obtain ⟨brace, c₄, ends, runs⟩ := run_bind_ok.mp runs
  obtain ⟨-, reads⟩ := next_reads takes matched
  have scope := beginScope_emits begins reads.emits.matched
  obtain ⟨body, code, l₁, parses, lowers, emits⟩ :=
    ih.declarationLoop atBlockEnd _ _ _ compiles scope.emits.matched
  obtain ⟨-, rightBrace⟩ := expectCurrent_reads ends emits.matched
  obtain ⟨pops, l₂, lowersPops, popped⟩ := popTopScopeDepth_emits runs rightBrace.emits.matched
  refine ⟨.block body brace, .seq code pops, l₂, ?_, .block lowers lowersPops,
    by simpa [Code.flatten] using (((reads.emits.trans scope.emits).trans emits).trans
      rightBrace.emits).trans popped.emits⟩
  rw [Parse.block, run_ok_bind reads.parses, ← scope.tokenIter, run_ok_bind parses,
    run_ok_bind rightBrace.parses, popped.tokenIter]
  rfl

theorem FactorAt.printStatement_succ (ih : FactorAt N fuel) :
    Factors (compilePrintStatement (fuel + 1) : CompileM N Unit)
      (Parse.printStatement (fuel + 1)) .stmt := by
  intro before after l runs matched
  rw [compilePrintStatement] at runs
  obtain ⟨token, c₁, takes, runs⟩ := run_bind_ok.mp runs
  obtain ⟨_, c₂, compiles, runs⟩ := run_bind_ok.mp runs
  obtain ⟨_, c₃, ends, runs⟩ := run_bind_ok.mp runs
  obtain ⟨-, reads⟩ := next_reads takes matched
  obtain ⟨value, code, l₁, parses, lowers, emits⟩ :=
    ih.assignment true _ _ _ compiles reads.emits.matched
  have semicolon := expectNext_reads ends emits.matched
  have print := emit_emits runs rfl semicolon.emits.matched
  refine ⟨.print token value, _, l₁, ?_, .print lowers, by simpa [Code.flatten] using
    ((reads.emits.trans emits).trans semicolon.emits).trans print.emits⟩
  rw [Parse.printStatement, run_ok_bind reads.parses, run_ok_bind parses,
    run_ok_bind semicolon.parses, print.tokenIter]
  rfl

theorem FactorAt.returnStatement_succ (ih : FactorAt N fuel) :
    Factors (compileReturnStatement (fuel + 1) : CompileM N Unit)
      (Parse.returnStatement (fuel + 1)) .stmt := by
  intro before after l runs matched
  rw [compileReturnStatement, run_get_bind] at runs
  split at runs
  next => cases runs
  next inFunction =>
      have enclosed : l.enclosing ≠ [] := by
        rw [matched.enclosing]
        simpa using inFunction
      obtain ⟨token, c₁, takes, runs⟩ := run_bind_ok.mp runs
      obtain ⟨-, reads⟩ := next_reads takes matched
      obtain ⟨found, c₂, matches_, runs⟩ := run_bind_ok.mp runs
      have semicolon := advanceIfMatch_reads matches_ reads.emits.matched
      rw [Parse.returnStatement, run_ok_bind reads.parses, run_ok_bind semicolon.parses]
      have started := reads.emits.trans semicolon.emits
      cases found with
      | true =>
          obtain ⟨_, c₃, values, runs⟩ := run_bind_ok.mp runs
          obtain ⟨value, l₁, lowersValue, value_⟩ :=
            emitDefaultReturnValue_emits values semicolon.emits.matched
          have ret := emit_emits runs rfl value_.emits.matched
          refine ⟨.returnDefault token, _, l₁, ?_, .returnDefault enclosed lowersValue,
            by simpa [Code.flatten] using (started.trans value_.emits).trans ret.emits⟩
          rw [ret.tokenIter, value_.tokenIter]
          rfl
      | false =>
          simp only [Bool.false_eq_true, if_false] at runs ⊢
          rw [run_get_bind] at runs
          split at runs
          next => cases runs
          next ordinary =>
              rw [semicolon.emits.matched.isClassInitMethod, Bool.not_eq_true] at ordinary
              obtain ⟨_, c₃, compiles, runs⟩ := run_bind_ok.mp runs
              obtain ⟨_, c₄, ends, runs⟩ := run_bind_ok.mp runs
              obtain ⟨value, code, l₁, parses, lowers, emits⟩ :=
                ih.assignment true _ _ _ compiles semicolon.emits.matched
              have final := expectNext_reads ends emits.matched
              have ret := emit_emits runs rfl final.emits.matched
              refine ⟨.return_ token value, _, l₁, ?_, .return_ enclosed ordinary lowers,
                by simpa [Code.flatten] using
                  ((started.trans emits).trans final.emits).trans ret.emits⟩
              rw [run_ok_bind parses, run_ok_bind final.parses, ret.tokenIter]
              rfl

omit [Number N] in
theorem bytecodeSize_run {before after : Compiler N} {size : Nat}
    (runs : bytecodeSize.run before = .ok (size, after)) :
    size = before.back.chunk.bytecode.length ∧ before = after := by
  cases runs
  exact ⟨rfl, rfl⟩

theorem FactorAt.whileStatement_succ (ih : FactorAt N fuel) :
    Factors (compileWhileStatement (fuel + 1) : CompileM N Unit)
      (Parse.whileStatement (fuel + 1)) .stmt := by
  intro before after l runs matched
  rw [compileWhileStatement] at runs
  obtain ⟨token, c₁, takes, runs⟩ := run_bind_ok.mp runs
  obtain ⟨loopBegin, _, sizes, runs⟩ := run_bind_ok.mp runs
  obtain ⟨begins, rfl⟩ := bytecodeSize_run sizes
  obtain ⟨_, c₂, opens, runs⟩ := run_bind_ok.mp runs
  obtain ⟨_, c₃, tests, runs⟩ := run_bind_ok.mp runs
  obtain ⟨_, c₄, closes, runs⟩ := run_bind_ok.mp runs
  obtain ⟨toEnd, c₅, jumps, runs⟩ := run_bind_ok.mp runs
  obtain ⟨_, c₆, pops, runs⟩ := run_bind_ok.mp runs
  obtain ⟨_, c₇, compiles, runs⟩ := run_bind_ok.mp runs
  obtain ⟨_, c₈, loops, runs⟩ := run_bind_ok.mp runs
  obtain ⟨_, c₉, patches, runs⟩ := run_bind_ok.mp runs
  obtain ⟨-, reads⟩ := next_reads takes matched
  have leftParen := expectNext_reads opens reads.emits.matched
  obtain ⟨condition, test, l₁, parsesCondition, lowersCondition, conditions⟩ :=
    ih.assignment true _ _ _ tests leftParen.emits.matched
  have rightParen := expectNext_reads closes conditions.matched
  have started := ((reads.emits.trans leftParen.emits).trans conditions).trans rightParen.emits
  simp only [List.nil_append, List.append_nil] at started
  obtain ⟨beginsJump, jump⟩ := emitJump_emits (.jumpIfFalse (l₁.tagAt (sourceMapToken token))) jumps
    (fun _ => rfl) (fun _ => rfl) rfl started.matched
  have pop := emit_emits pops rfl jump.emits.matched
  obtain ⟨body, inner, l₂, parsesBody, lowersBody, bodies⟩ :=
    ih.statement _ _ _ compiles pop.emits.matched
  have looped := ((started.trans jump.emits).trans pop.emits).trans bodies
  have loop := emitLoop_emits (l₁.tagAt (sourceMapToken token)) rfl loops bodies.matched
  have distance : c₇.back.chunk.bytecode.length + 3 - loopBegin =
      extent layout (test.flatten layout) + 3 +
        extent layout ((Code.seq (l₁.simple .pop (sourceMapToken token)) inner).flatten layout) + 3 := by
    have size := reads.emits.length_bytecode
    rw [looped.length_bytecode, begins, size]
    simp [Code.flatten, Flat.size]
    omega
  rw [distance] at loop
  have all := looped.trans loop.emits
  simp only [List.append_assoc, List.cons_append] at all
  obtain ⟨patched, iter⟩ := toNextOpcode_emits (.jumpIfFalse (l₁.tagAt (sourceMapToken token))) patches
    (fun _ => rfl) (fun _ => rfl) (by rw [beginsJump, started.length_bytecode]) all
  have popEnd := emit_emits runs rfl patched.matched
  refine ⟨.while_ token condition body, _, l₂, ?_, .while_ lowersCondition lowersBody, ?_⟩
  · rw [Parse.whileStatement, run_ok_bind reads.parses, run_ok_bind leftParen.parses,
      run_ok_bind parsesCondition, run_ok_bind rightParen.parses, ← jump.tokenIter, ← pop.tokenIter,
      run_ok_bind parsesBody, popEnd.tokenIter, iter, loop.tokenIter]
    rfl
  · simpa [Code.flatten, Flat.size, Nat.add_assoc] using patched.trans popEnd.emits

theorem FactorAt.ifStatement_succ (ih : FactorAt N fuel) :
    Factors (compileIfStatement (fuel + 1) : CompileM N Unit)
      (Parse.ifStatement (fuel + 1)) .stmt := by
  intro before after l runs matched
  rw [compileIfStatement] at runs
  obtain ⟨token, c₁, takes, runs⟩ := run_bind_ok.mp runs
  obtain ⟨_, c₂, opens, runs⟩ := run_bind_ok.mp runs
  obtain ⟨_, c₃, tests, runs⟩ := run_bind_ok.mp runs
  obtain ⟨_, c₄, closes, runs⟩ := run_bind_ok.mp runs
  obtain ⟨toElse, c₅, jumpsElse, runs⟩ := run_bind_ok.mp runs
  obtain ⟨_, c₆, popsTrue, runs⟩ := run_bind_ok.mp runs
  obtain ⟨_, c₇, compiles, runs⟩ := run_bind_ok.mp runs
  obtain ⟨toEnd, c₈, jumpsEnd, runs⟩ := run_bind_ok.mp runs
  obtain ⟨_, c₉, patchesElse, runs⟩ := run_bind_ok.mp runs
  obtain ⟨_, c₁₀, popsFalse, runs⟩ := run_bind_ok.mp runs
  obtain ⟨found, c₁₁, matches_, runs⟩ := run_bind_ok.mp runs
  obtain ⟨_, c₁₂, compilesElse, runs⟩ := run_bind_ok.mp runs
  obtain ⟨-, reads⟩ := next_reads takes matched
  have leftParen := expectNext_reads opens reads.emits.matched
  obtain ⟨condition, test, l₁, parsesCondition, lowersCondition, conditions⟩ :=
    ih.assignment true _ _ _ tests leftParen.emits.matched
  have rightParen := expectNext_reads closes conditions.matched
  have started := ((reads.emits.trans leftParen.emits).trans conditions).trans rightParen.emits
  simp only [List.nil_append, List.append_nil] at started
  obtain ⟨beginsElse, jumpElse⟩ := emitJump_emits (.jumpIfFalse (l₁.tagAt (sourceMapToken token))) jumpsElse
    (fun _ => rfl) (fun _ => rfl) rfl started.matched
  have popTrue := emit_emits popsTrue rfl jumpElse.emits.matched
  obtain ⟨thenBranch, whenTrue, l₂, parsesThen, lowersThen, thens⟩ :=
    ih.statement _ _ _ compiles popTrue.emits.matched
  obtain ⟨beginsEnd, jumpEnd⟩ := emitJump_emits (.jump (l₁.tagAt (sourceMapToken token))) jumpsEnd
    (fun _ => rfl) (fun _ => rfl) rfl thens.matched
  have taken := ((started.trans jumpElse.emits).trans popTrue.emits).trans thens
  have toBranch := taken.trans jumpEnd.emits
  simp only [List.append_assoc, List.singleton_append] at toBranch
  obtain ⟨patched, iterElse⟩ := toNextOpcode_emits (.jumpIfFalse (l₁.tagAt (sourceMapToken token))) patchesElse
    (fun _ => rfl) (fun _ => rfl) (by rw [beginsElse, started.length_bytecode]) toBranch
  have popFalse := emit_emits popsFalse rfl patched.matched
  have elseToken := advanceIfMatch_reads matches_ popFalse.emits.matched
  obtain ⟨elseBranch, whenFalse, l₃, parsesElse, lowersElse, elses⟩ :
      ∃ elseBranch whenFalse l₃, (if found then Parse.statement fuel else pure .empty).run
        c₁₁.tokenIter = .ok (elseBranch, c₁₂.tokenIter) ∧
        Lowers l₂ (.stmt elseBranch) whenFalse l₃ ∧ Emits c₁₁ (whenFalse.flatten layout) c₁₂ l₃ := by
    cases found with
    | true => exact ih.statement _ _ _ compilesElse elseToken.emits.matched
    | false =>
        cases compilesElse
        exact ⟨.empty, .nil, l₂, rfl, .empty, .refl elseToken.emits.matched⟩
  let toElse_ := extent layout ((l₁.simple .pop (sourceMapToken token)).flatten layout ++
    (whenTrue.flatten layout ++ [.jump (l₁.tagAt (sourceMapToken token)) 0]))
  have all : Emits before
      ((test.flatten layout ++ .jumpIfFalse (l₁.tagAt (sourceMapToken token)) toElse_ ::
        ((l₁.simple .pop (sourceMapToken token)).flatten layout ++ whenTrue.flatten layout)) ++
        .jump (l₁.tagAt (sourceMapToken token)) 0 ::
          ((l₂.simple .pop (sourceMapToken token)).flatten layout ++ whenFalse.flatten layout))
      c₁₂ l₃ := by
    simpa [toElse_] using ((patched.trans popFalse.emits).trans elseToken.emits).trans elses
  obtain ⟨finished, iterEnd⟩ := toNextOpcode_emits (.jump (l₁.tagAt (sourceMapToken token))) runs
    (fun _ => rfl) (fun _ => rfl) (by
      rw [beginsEnd, taken.length_bytecode]
      simp [Flat.size, Nat.add_assoc]) all
  refine ⟨.if_ token condition thenBranch elseBranch, _, l₃, ?_,
    .if_ lowersCondition lowersThen lowersElse, ?_⟩
  · rw [Parse.ifStatement, run_ok_bind reads.parses, run_ok_bind leftParen.parses,
      run_ok_bind parsesCondition, run_ok_bind rightParen.parses, ← jumpElse.tokenIter,
      ← popTrue.tokenIter, run_ok_bind parsesThen, ← jumpEnd.tokenIter, ← iterElse,
      ← popFalse.tokenIter, run_ok_bind elseToken.parses, iterEnd]
    cases found with
    | true => simp only [if_true] at parsesElse ⊢; rw [run_ok_bind parsesElse]; rfl
    | false =>
        obtain ⟨same, iter⟩ := Prod.mk.inj (Except.ok.inj parsesElse)
        rw [← same, ← iter]
        rfl
  · simpa [Code.flatten, Flat.size, Nat.add_assoc, toElse_] using finished

theorem FactorAt.statement_succ (ih : FactorAt N fuel) :
    Factors (compileStatement (fuel + 1) : CompileM N Unit) (Parse.statement (fuel + 1)) .stmt := by
  intro before after l runs matched
  rw [compileStatement, run_current_bind] at runs
  split at runs
  next type =>
      rw [Parse.statement, Parse.run_current_bind]
      simp only [type]
      exact ih.ifStatement _ _ _ runs matched
  next type =>
      rw [Parse.statement, Parse.run_current_bind]
      simp only [type]
      exact ih.forStatement _ _ _ runs matched
  next type =>
      rw [Parse.statement, Parse.run_current_bind]
      simp only [type]
      exact ih.block _ _ _ runs matched
  next type =>
      rw [Parse.statement, Parse.run_current_bind]
      simp only [type]
      exact ih.printStatement _ _ _ runs matched
  next type =>
      rw [Parse.statement, Parse.run_current_bind]
      simp only [type]
      exact ih.returnStatement _ _ _ runs matched
  next type =>
      rw [Parse.statement, Parse.run_current_bind]
      simp only [type]
      exact ih.whileStatement _ _ _ runs matched
  next notIf notFor notBlock notPrint notReturn notWhile =>
      obtain ⟨tree, code, later, parses, rest⟩ := ih.expressionStatement _ _ _ runs matched
      refine ⟨tree, code, later, ?_, rest⟩
      rw [Parse.statement, Parse.run_current_bind]
      split
      next type => exact absurd type notIf
      next type => exact absurd type notFor
      next type => exact absurd type notBlock
      next type => exact absurd type notPrint
      next type => exact absurd type notReturn
      next type => exact absurd type notWhile
      next => exact parses

theorem FactorAt.forInitializer_succ (ih : FactorAt N fuel) :
    Factors (compileForInitializer (fuel + 1) : CompileM N Unit)
      (Parse.forInitializer (fuel + 1)) .decl := by
  intro before after l runs matched
  rw [compileForInitializer] at runs
  obtain ⟨found, c₁, matches_, runs⟩ := run_bind_ok.mp runs
  have reads := advanceIfMatch_reads matches_ matched
  rw [Parse.forInitializer, run_ok_bind reads.parses]
  cases found with
  | true =>
      cases runs
      exact ⟨.statement .empty, .nil, l, rfl, .statement .empty, reads.emits⟩
  | false =>
      simp only [Bool.false_eq_true, if_false] at runs ⊢
      rw [run_current_bind] at runs
      rw [Parse.run_current_bind]
      split at runs
      next declares =>
          rw [if_pos declares]
          obtain ⟨tree, code, later, parses, lowers, emits⟩ :=
            ih.declaration _ _ _ runs reads.emits.matched
          exact ⟨tree, code, later, parses, lowers, by simpa using reads.emits.trans emits⟩
      next other =>
          rw [if_neg other]
          obtain ⟨tree, code, later, parses, lowers, emits⟩ :=
            ih.expressionStatement _ _ _ runs reads.emits.matched
          refine ⟨.statement tree, code, later, ?_, .statement lowers,
            by simpa using reads.emits.trans emits⟩
          rw [run_ok_bind parses]
          rfl

theorem FactorAt.forCondition_succ (ih : FactorAt N fuel) (token : Token) :
    FactorsExpr (compileForCondition (fuel + 1) (sourceMapToken token) : CompileM N Unit)
      (Parse.forCondition (fuel + 1) token) := by
  intro leading before after l runs matched
  rw [compileForCondition] at runs
  obtain ⟨found, c₁, matches_, runs⟩ := run_bind_ok.mp runs
  have reads := advanceIfMatch_reads matches_ matched
  rw [Parse.forCondition, run_ok_bind reads.parses]
  cases found with
  | true =>
      have emits := emit_emits runs rfl reads.emits.matched
      refine ⟨.true_ token, _, l, ?_, .true_, by simpa using reads.emits.trans emits.emits⟩
      rw [emits.tokenIter]
      rfl
  | false =>
      obtain ⟨_, c₂, compiles, runs⟩ := run_bind_ok.mp runs
      obtain ⟨_, c₃, ends, runs⟩ := run_bind_ok.mp runs
      cases runs
      obtain ⟨tree, code, later, parses, lowers, emits⟩ :=
        ih.assignment leading _ _ _ compiles reads.emits.matched
      have semicolon := expectNext_reads ends emits.matched
      refine ⟨tree, code, later, ?_, lowers,
        by simpa using (reads.emits.trans emits).trans semicolon.emits⟩
      simp only [Bool.false_eq_true, if_false]
      rw [run_ok_bind parses, run_ok_bind semicolon.parses]
      rfl

theorem FactorAt.forIncrement_succ (ih : FactorAt N fuel) (token : Token) :
    Factors (compileForIncrement (fuel + 1) (sourceMapToken token) : CompileM N Unit)
      (Parse.forIncrement (fuel + 1) token) .stmt := by
  intro before after l runs matched
  rw [compileForIncrement, run_current_bind] at runs
  rw [Parse.forIncrement, Parse.run_current_bind]
  split at runs
  next ended =>
      cases runs
      rw [if_pos ended]
      exact ⟨.empty, .nil, l, rfl, .empty, .refl matched⟩
  next more =>
      obtain ⟨_, c₁, compiles, runs⟩ := run_bind_ok.mp runs
      obtain ⟨value, code, later, parses, lowers, emits⟩ := ih.assignment true _ _ _ compiles matched
      have pop := emit_emits runs rfl emits.matched
      refine ⟨.expression value token, _, later, ?_, .expression lowers, emits.trans pop.emits⟩
      rw [if_neg more, run_ok_bind parses, pop.tokenIter]
      rfl

theorem FactorAt.forStatement_succ (ih : FactorAt N fuel) :
    Factors (compileForStatement (fuel + 1) : CompileM N Unit)
      (Parse.forStatement (fuel + 1)) .stmt := by
  intro before after l runs matched
  rw [compileForStatement] at runs
  obtain ⟨token, c₁, takes, runs⟩ := run_bind_ok.mp runs
  obtain ⟨_, c₂, begins, runs⟩ := run_bind_ok.mp runs
  obtain ⟨_, c₃, opens, runs⟩ := run_bind_ok.mp runs
  obtain ⟨_, c₄, initializes, runs⟩ := run_bind_ok.mp runs
  obtain ⟨conditionBegin, _, sizes, runs⟩ := run_bind_ok.mp runs
  obtain ⟨beginsCondition, rfl⟩ := bytecodeSize_run sizes
  obtain ⟨_, c₅, tests, runs⟩ := run_bind_ok.mp runs
  obtain ⟨toEnd, c₆, jumpsEnd, runs⟩ := run_bind_ok.mp runs
  obtain ⟨toBody, c₇, jumpsBody, runs⟩ := run_bind_ok.mp runs
  obtain ⟨incrementBegin, _, sizes, runs⟩ := run_bind_ok.mp runs
  obtain ⟨beginsIncrement, rfl⟩ := bytecodeSize_run sizes
  obtain ⟨_, c₈, increments, runs⟩ := run_bind_ok.mp runs
  obtain ⟨_, c₉, closes, runs⟩ := run_bind_ok.mp runs
  obtain ⟨_, c₁₀, loopsCondition, runs⟩ := run_bind_ok.mp runs
  obtain ⟨_, c₁₁, patchesBody, runs⟩ := run_bind_ok.mp runs
  obtain ⟨_, c₁₂, pops, runs⟩ := run_bind_ok.mp runs
  obtain ⟨_, c₁₃, compiles, runs⟩ := run_bind_ok.mp runs
  obtain ⟨_, c₁₄, loopsIncrement, runs⟩ := run_bind_ok.mp runs
  obtain ⟨_, c₁₅, patchesEnd, runs⟩ := run_bind_ok.mp runs
  obtain ⟨_, c₁₆, popsEnd, runs⟩ := run_bind_ok.mp runs
  obtain ⟨-, reads⟩ := next_reads takes matched
  have scope := beginScope_emits begins reads.emits.matched
  have leftParen := expectNext_reads opens scope.emits.matched
  obtain ⟨initializer, init, l₁, parsesInit, lowersInit, inits⟩ :=
    ih.forInitializer _ _ _ initializes leftParen.emits.matched
  have initialized := ((reads.emits.trans scope.emits).trans leftParen.emits).trans inits
  simp only [List.nil_append, List.append_nil] at initialized
  obtain ⟨condition, test, l₂, parsesCondition, lowersCondition, conditions⟩ :=
    ih.forCondition token true _ _ _ tests initialized.matched
  obtain ⟨beginsEnd, jumpEnd⟩ := emitJump_emits (.jumpIfFalse (l₂.tagAt (sourceMapToken token))) jumpsEnd
    (fun _ => rfl) (fun _ => rfl) rfl conditions.matched
  obtain ⟨beginsBody, jumpBody⟩ := emitJump_emits (.jump (l₂.tagAt (sourceMapToken token))) jumpsBody
    (fun _ => rfl) (fun _ => rfl) rfl jumpEnd.emits.matched
  obtain ⟨increment, step, l₃, parsesIncrement, lowersIncrement, increments_⟩ :=
    ih.forIncrement token _ _ _ increments jumpBody.emits.matched
  have rightParen := expectNext_reads closes increments_.matched
  have tested := (conditions.trans jumpEnd.emits).trans jumpBody.emits
  have stepped := (tested.trans increments_).trans rightParen.emits
  simp only [List.append_nil] at stepped
  have loopCondition := emitLoop_emits (l₂.tagAt (sourceMapToken token)) rfl loopsCondition stepped.matched
  have conditionDistance : c₉.back.chunk.bytecode.length + 3 - conditionBegin =
      extent layout (test.flatten layout) + 3 + 3 + extent layout (step.flatten layout) + 3 := by
    rw [stepped.length_bytecode, beginsCondition]
    simp [Flat.size]
    omega
  rw [conditionDistance] at loopCondition
  let back : LoweredFlat := .loop (l₂.tagAt (sourceMapToken token)) (extent layout (test.flatten layout) + 3 + 3 +
    extent layout (step.flatten layout) + 3)
  have toBody_ : Emits c₄ ((test.flatten layout ++ [.jumpIfFalse (l₂.tagAt (sourceMapToken token)) 0]) ++
      .jump (l₂.tagAt (sourceMapToken token)) 0 :: (step.flatten layout ++ [back])) c₁₀ l₃ := by
    simpa using stepped.trans loopCondition.emits
  obtain ⟨patchedBody, iterBody⟩ := toNextOpcode_emits (.jump (l₂.tagAt (sourceMapToken token))) patchesBody
    (fun _ => rfl) (fun _ => rfl) (by
      rw [beginsBody, jumpEnd.emits.length_bytecode, conditions.length_bytecode]
      simp [Nat.add_assoc]) toBody_
  have pop := emit_emits pops rfl patchedBody.matched
  obtain ⟨body, inner, l₄, parsesBody, lowersBody, bodies⟩ :=
    ih.statement _ _ _ compiles pop.emits.matched
  have looped := (patchedBody.trans pop.emits).trans bodies
  have loopIncrement := emitLoop_emits (l₂.tagAt (sourceMapToken token)) rfl loopsIncrement bodies.matched
  have incrementDistance : c₁₃.back.chunk.bytecode.length + 3 - incrementBegin =
      extent layout (step.flatten layout) + 3 +
        extent layout ((Code.seq (l₃.simple .pop (sourceMapToken token)) inner).flatten layout) + 3 := by
    rw [looped.length_bytecode, beginsIncrement, tested.length_bytecode]
    simp [Code.flatten, Flat.size, back]
    omega
  rw [incrementDistance] at loopIncrement
  let again : LoweredFlat := .loop (l₂.tagAt (sourceMapToken token)) (extent layout (step.flatten layout) + 3 +
    extent layout ((Code.seq (l₃.simple .pop (sourceMapToken token)) inner).flatten layout) + 3)
  have toEnd_ : Emits c₄ (test.flatten layout ++ .jumpIfFalse (l₂.tagAt (sourceMapToken token)) 0 ::
      (.jump (l₂.tagAt (sourceMapToken token)) (extent layout (step.flatten layout ++ [back])) ::
        (step.flatten layout ++ back ::
          ((l₃.simple .pop (sourceMapToken token)).flatten layout ++ (inner.flatten layout ++
            [again]))))) c₁₄ l₄ := by
    simpa using looped.trans loopIncrement.emits
  obtain ⟨patchedEnd, iterEnd⟩ := toNextOpcode_emits (.jumpIfFalse (l₂.tagAt (sourceMapToken token))) patchesEnd
    (fun _ => rfl) (fun _ => rfl) (by rw [beginsEnd, conditions.length_bytecode]) toEnd_
  have popEnd := emit_emits popsEnd rfl patchedEnd.matched
  obtain ⟨scopeCode, l₅, lowersPop, popped⟩ := popTopScopeDepth_emits runs popEnd.emits.matched
  refine ⟨.for_ token initializer condition increment body, _, l₅, ?_,
    .for_ lowersInit lowersCondition lowersIncrement lowersBody lowersPop, ?_⟩
  · rw [Parse.forStatement, run_ok_bind reads.parses, ← scope.tokenIter, run_ok_bind leftParen.parses,
      run_ok_bind parsesInit, run_ok_bind parsesCondition, ← jumpEnd.tokenIter, ← jumpBody.tokenIter,
      run_ok_bind parsesIncrement, run_ok_bind rightParen.parses, ← loopCondition.tokenIter,
      ← iterBody, ← pop.tokenIter, run_ok_bind parsesBody, popped.tokenIter, popEnd.tokenIter,
      iterEnd, loopIncrement.tokenIter]
    rfl
  · have all := ((initialized.trans patchedEnd).trans popEnd.emits).trans popped.emits
    simpa [Code.flatten, Flat.size, Nat.add_assoc, back, again] using all

theorem FactorAt.initializer_succ (ih : FactorAt N fuel) (token : Token) :
    FactorsExpr (compileInitializer (fuel + 1) (sourceMapToken token) : CompileM N Unit)
      (Parse.initializer (fuel + 1) token) := by
  intro leading before after l runs matched
  rw [compileInitializer] at runs
  obtain ⟨found, c₁, matches_, runs⟩ := run_bind_ok.mp runs
  have reads := advanceIfMatch_reads matches_ matched
  rw [Parse.initializer, run_ok_bind reads.parses]
  cases found with
  | true =>
      obtain ⟨tree, code, later, parses, lowers, emits⟩ :=
        ih.assignment leading _ _ _ runs reads.emits.matched
      exact ⟨tree, code, later, parses, lowers, by simpa using reads.emits.trans emits⟩
  | false =>
      have emits := emit_emits runs rfl reads.emits.matched
      refine ⟨.nil token, _, l, ?_, .nil, by simpa using reads.emits.trans emits.emits⟩
      rw [emits.tokenIter]
      rfl

theorem FactorAt.methodLoop_succ (ih : FactorAt N fuel) :
    Factors (Cpplox.methodLoop (fuel + 1) : CompileM N Unit)
      (Parse.methodLoop (fuel + 1)) .methods := by
  intro before after l runs matched
  rw [Cpplox.methodLoop, run_current_bind] at runs
  rw [Parse.methodLoop, Parse.run_current_bind]
  split at runs
  next isMethod =>
      rw [if_pos isMethod]
      obtain ⟨name, c₁, takes, runs⟩ := run_bind_ok.mp runs
      obtain ⟨compiled, c₂, compiles, runs⟩ := run_bind_ok.mp runs
      obtain ⟨_, c₃, closes, runs⟩ := run_bind_ok.mp runs
      obtain ⟨_, c₄, names, runs⟩ := run_bind_ok.mp runs
      obtain ⟨-, reads⟩ := next_reads takes matched
      have makes : (do
          let compiled ← inFunction (FunctionKind.method = .method && name.lexeme = initName) (do
            Cpplox.trackLocal (thisToken name.line)
            compileFunctionRest fuel (sourceMapToken name))
          Cpplox.emitFunction name.lexeme compiled (sourceMapToken name) : CompileM N Unit).run c₁ =
            .ok ((), c₃) := by
        simp only [decide_true, Bool.true_and]
        exact run_bind_ok.mpr ⟨compiled, c₂, compiles, closes⟩
      obtain ⟨params, body, closure, l₁, parses, lowers, emits⟩ :=
        compileFunction_factors _ _ (selfTracked_factors (ih.functionRest _)) makes reads.emits.matched
          false
      obtain ⟨method, l₂, lowersMethod, methods⟩ := emitName_emits names rfl emits.matched none
      obtain ⟨tail, rest, l₃, parsesRest, lowersRest, emitsRest⟩ :=
        ih.methodLoop _ _ _ runs methods.emits.matched
      refine ⟨.cons name params body tail, _, l₃, ?_, .methodsCons lowers lowersMethod lowersRest,
        by simpa [Code.flatten] using ((reads.emits.trans emits).trans methods.emits).trans emitsRest⟩
      rw [run_ok_bind reads.parses, run_ok_bind parses]
      dsimp only
      rw [← methods.tokenIter, run_ok_bind parsesRest]
      rfl
  next finished =>
      cases runs
      rw [if_neg finished]
      exact ⟨.nil, .nil, l, rfl, .methodsNil, .refl matched⟩

theorem FactorAt.classBody_succ (ih : FactorAt N fuel) :
    Factors (compileClassBody (fuel + 1) : CompileM N Unit)
      (Parse.classBody (fuel + 1)) .methods := by
  intro before after l runs matched
  rw [compileClassBody] at runs
  obtain ⟨_, c₁, opens, runs⟩ := run_bind_ok.mp runs
  obtain ⟨_, c₂, loops, runs⟩ := run_bind_ok.mp runs
  obtain ⟨_, c₃, closes, runs⟩ := run_bind_ok.mp runs
  cases runs
  have leftBrace := expectNext_reads opens matched
  obtain ⟨methods, code, later, parses, lowers, emits⟩ :=
    ih.methodLoop _ _ _ loops leftBrace.emits.matched
  have rightBrace := expectNext_reads closes emits.matched
  refine ⟨methods, code, later, ?_, lowers,
    by simpa using (leftBrace.emits.trans emits).trans rightBrace.emits⟩
  rw [Parse.classBody, run_ok_bind leftBrace.parses, run_ok_bind parses,
    run_ok_bind rightBrace.parses]
  rfl

theorem FactorAt.classDeclaration_succ (ih : FactorAt N fuel) :
    Factors (compileClassDeclaration (fuel + 1) : CompileM N Unit)
      (Parse.classDeclaration (fuel + 1)) .decl := by
  intro before after l runs matched
  rw [compileClassDeclaration] at runs
  obtain ⟨classToken, c₁, takes, runs⟩ := run_bind_ok.mp runs
  obtain ⟨name, c₂, expects, runs⟩ := run_bind_ok.mp runs
  obtain ⟨_, c₃, makes, runs⟩ := run_bind_ok.mp runs
  rw [run_get_bind] at runs
  obtain ⟨_, c₄, tracks, runs⟩ := run_bind_ok.mp runs
  obtain ⟨found, c₅, matches_, runs⟩ := run_bind_ok.mp runs
  obtain ⟨-, reads⟩ := next_reads takes matched
  obtain ⟨-, named⟩ := expectCurrent_reads expects reads.emits.matched
  obtain ⟨klass, l₁, lowersClass, classes⟩ := emitName_emits makes rfl named.emits.matched none
  obtain ⟨declared, l₂, lowersTrack, tracked⟩ := trackDeclared_emits tracks classes.emits.matched
  have less := advanceIfMatch_reads matches_ tracked.emits.matched
  rw [Parse.classDeclaration, run_ok_bind reads.parses, run_ok_bind named.parses,
    ← classes.tokenIter, ← tracked.tokenIter, run_ok_bind less.parses]
  have started := (((reads.emits.trans named.emits).trans classes.emits).trans tracked.emits).trans
    less.emits
  cases found with
  | true =>
      obtain ⟨superclass, c₆, expectsSuper, runs⟩ := run_bind_ok.mp runs
      obtain ⟨same, superName⟩ := expectCurrent_reads expectsSuper less.emits.matched
      have superNamed : superclass.lexeme ≠ [] := same ▸ less.emits.matched.scanned
      obtain ⟨_, c₇, begins, runs⟩ := run_bind_ok.mp runs
      obtain ⟨_, c₈, compiles, runs⟩ := run_bind_ok.mp runs
      obtain ⟨_, c₉, ends, runs⟩ := run_bind_ok.mp runs
      obtain ⟨before_, l₃, lowersBegin, begun⟩ :=
        beginSuperclass_emits begins superNamed superName.emits.matched
      obtain ⟨methods, body, l₄, parses, lowers, bodies⟩ :=
        ih.classBody _ _ _ compiles begun.emits.matched
      obtain ⟨after_, l₅, lowersEnd, ended⟩ := endSuperclass_emits ends bodies.matched
      obtain ⟨define, l₆, lowersDefine, defines⟩ := defineGlobalAtTop_emits runs ended.emits.matched
      refine ⟨.class_ classToken name (some superclass) methods, _, l₆, ?_,
        .subclass lowersClass lowersTrack lowersBegin lowers lowersEnd lowersDefine, ?_⟩
      · simp only [if_true]
        rw [run_ok_bind superName.parses, ← begun.tokenIter, run_ok_bind parses,
          defines.tokenIter, ended.tokenIter]
        rfl
      · simpa [Code.flatten] using ((((started.trans superName.emits).trans begun.emits).trans
          bodies).trans ended.emits).trans defines.emits
  | false =>
      obtain ⟨_, c₆, compiles, runs⟩ := run_bind_ok.mp runs
      obtain ⟨methods, body, l₃, parses, lowers, bodies⟩ :=
        ih.classBody _ _ _ compiles less.emits.matched
      obtain ⟨define, l₄, lowersDefine, defines⟩ := defineGlobalAtTop_emits runs bodies.matched
      refine ⟨.class_ classToken name none methods, _, l₄, ?_,
        .baseClass lowersClass lowersTrack lowers lowersDefine, ?_⟩
      · simp only [Bool.false_eq_true, if_false]
        rw [run_ok_bind parses, defines.tokenIter]
        rfl
      · simpa [Code.flatten] using (started.trans bodies).trans defines.emits

theorem FactorAt.funDeclaration_succ (ih : FactorAt N fuel) :
    Factors (compileFunDeclaration (fuel + 1) : CompileM N Unit)
      (Parse.funDeclaration (fuel + 1)) .decl := by
  intro before after l runs matched
  rw [compileFunDeclaration] at runs
  obtain ⟨funToken, c₁, takes, runs⟩ := run_bind_ok.mp runs
  obtain ⟨name, c₂, expects, runs⟩ := run_bind_ok.mp runs
  obtain ⟨compiled, c₃, compiles, runs⟩ := run_bind_ok.mp runs
  obtain ⟨_, c₄, closes, runs⟩ := run_bind_ok.mp runs
  obtain ⟨_, c₅, defines_, runs⟩ := run_bind_ok.mp runs
  rw [run_get_bind] at runs
  obtain ⟨-, reads⟩ := next_reads takes matched
  obtain ⟨-, named⟩ := expectCurrent_reads expects reads.emits.matched
  have makes : (do
      let compiled ← inFunction (FunctionKind.declaration = .method && name.lexeme = initName) (do
        Cpplox.trackLocal (sourceMapToken name)
        compileFunctionRest fuel (sourceMapToken funToken))
      Cpplox.emitFunction name.lexeme compiled (sourceMapToken funToken) : CompileM N Unit).run c₂ =
        .ok ((), c₄) :=
    run_bind_ok.mpr ⟨compiled, c₃, compiles, closes⟩
  obtain ⟨params, body, closure, l₁, parses, lowers, emits⟩ :=
    compileFunction_factors _ _ (selfTracked_factors (ih.functionRest _)) makes named.emits.matched false
  obtain ⟨define, l₂, lowersDefine, defines⟩ := defineGlobalAtTop_emits defines_ emits.matched
  obtain ⟨declared, l₃, lowersTrack, tracked⟩ := trackDeclared_emits runs defines.emits.matched
  refine ⟨.fun_ funToken name params body, _, l₃, ?_, .fun_ lowers lowersDefine lowersTrack,
    by simpa [Code.flatten] using (((reads.emits.trans named.emits).trans emits).trans
      defines.emits).trans tracked.emits⟩
  rw [Parse.funDeclaration, run_ok_bind reads.parses, run_ok_bind named.parses, run_ok_bind parses,
    tracked.tokenIter, defines.tokenIter]
  rfl

theorem FactorAt.varDeclaration_succ (ih : FactorAt N fuel) :
    Factors (compileVarDeclaration (fuel + 1) : CompileM N Unit)
      (Parse.varDeclaration (fuel + 1)) .decl := by
  intro before after l runs matched
  rw [compileVarDeclaration] at runs
  obtain ⟨varToken, c₁, takes, runs⟩ := run_bind_ok.mp runs
  obtain ⟨name, c₂, expects, runs⟩ := run_bind_ok.mp runs
  rw [run_get_bind] at runs
  obtain ⟨_, c₃, tracks, runs⟩ := run_bind_ok.mp runs
  obtain ⟨_, c₄, compiles, runs⟩ := run_bind_ok.mp runs
  obtain ⟨_, c₅, ends, runs⟩ := run_bind_ok.mp runs
  obtain ⟨_, c₆, defines_, runs⟩ := run_bind_ok.mp runs
  rw [run_get_bind] at runs
  obtain ⟨-, reads⟩ := next_reads takes matched
  obtain ⟨-, named⟩ := expectCurrent_reads expects reads.emits.matched
  obtain ⟨mark, l₁, lowersTrack, tracked⟩ := trackDeclared_emits tracks named.emits.matched
  have flat : mark.flatten layout = [] := by
    simp only [trackDeclared, StateT.run_bind, StateT.run_get, Option.pure_def,
      Option.bind_eq_bind, Option.bind_some] at lowersTrack
    split at lowersTrack
    next =>
        obtain ⟨-, rfl, -⟩ := trackLocal_some lowersTrack
        exact flatten_declared _ _
    next => cases lowersTrack; rfl
  rw [flat] at tracked
  obtain ⟨value, code, l₂, parses, lowers, emits⟩ :=
    ih.initializer varToken true _ _ _ compiles tracked.emits.matched
  have semicolon := expectNext_reads ends emits.matched
  obtain ⟨define, l₃, lowersDefine, defines⟩ :=
    defineGlobalAtTop_emits defines_ semicolon.emits.matched
  obtain ⟨declared, l₄, lowersDeclared, declares⟩ :=
    initializeDeclared_emits runs defines.emits.matched
  refine ⟨.var varToken name value, _, l₄, ?_,
    .var lowersTrack lowers lowersDefine lowersDeclared,
    by simpa [Code.flatten] using (((((reads.emits.trans named.emits).trans tracked.emits).trans
      emits).trans semicolon.emits).trans defines.emits).trans declares.emits⟩
  rw [Parse.varDeclaration, run_ok_bind reads.parses, run_ok_bind named.parses, ← tracked.tokenIter,
    run_ok_bind parses, run_ok_bind semicolon.parses, declares.tokenIter, defines.tokenIter]
  rfl

theorem FactorAt.declaration_succ (ih : FactorAt N fuel) :
    Factors (compileDeclaration (fuel + 1) : CompileM N Unit)
      (Parse.declaration (fuel + 1)) .decl := by
  intro before after l runs matched
  rw [compileDeclaration, run_current_bind] at runs
  split at runs
  next type =>
      rw [Parse.declaration, Parse.run_current_bind]
      simp only [type]
      exact ih.classDeclaration _ _ _ runs matched
  next type =>
      rw [Parse.declaration, Parse.run_current_bind]
      simp only [type]
      exact ih.funDeclaration _ _ _ runs matched
  next type =>
      rw [Parse.declaration, Parse.run_current_bind]
      simp only [type]
      exact ih.varDeclaration _ _ _ runs matched
  next notClass notFun notVar =>
      obtain ⟨tree, code, later, parses, lowers, emits⟩ := ih.statement _ _ _ runs matched
      refine ⟨.statement tree, code, later, ?_, .statement lowers, emits⟩
      rw [Parse.declaration, Parse.run_current_bind]
      split
      next type => exact absurd type notClass
      next type => exact absurd type notFun
      next type => exact absurd type notVar
      next => rw [run_ok_bind parses]; rfl

theorem factorAt_zero : FactorAt N 0 := by
  constructor <;> (repeat intro) <;> first
    | (rename_i runs _; cases runs; done)
    | (rename_i runs _ _; cases runs)

theorem factorAt : ∀ fuel, FactorAt N fuel
  | 0 => factorAt_zero
  | fuel + 1 =>
      have ih := factorAt fuel
      { primary := ih.primary_succ
        call := ih.call_succ
        callLoop := ih.callLoop_succ
        arguments := ih.arguments_succ
        argumentLoop := ih.argumentLoop_succ
        unary := ih.unary_succ
        multiplication := level_factors ih.unary (binarySteps (by simp +contextual) ih.unary) fuel
        addition := level_factors ih.multiplication (binarySteps (by simp +contextual) ih.multiplication) fuel
        comparison := level_factors ih.addition (binarySteps (by simp +contextual) ih.addition) fuel
        equality := level_factors ih.comparison (binarySteps (by simp +contextual) ih.comparison) fuel
        and_ := level_factors ih.equality (fun operator left _ => andStep_continues ih.equality operator left) fuel
        or_ := level_factors ih.and_ (fun operator left _ => orStep_continues ih.and_ operator left) fuel
        assignment := ih.assignment_succ
        expressionStatement := ih.expressionStatement_succ
        parameterLoop := ih.parameterLoop_succ
        parameters := ih.parameters_succ
        functionRest := ih.functionRest_succ
        declarationLoop := ih.declarationLoop_succ
        ifStatement := ih.ifStatement_succ
        forInitializer := ih.forInitializer_succ
        forCondition := ih.forCondition_succ
        forIncrement := ih.forIncrement_succ
        forStatement := ih.forStatement_succ
        block := ih.block_succ
        printStatement := ih.printStatement_succ
        returnStatement := ih.returnStatement_succ
        whileStatement := ih.whileStatement_succ
        statement := ih.statement_succ
        methodLoop := ih.methodLoop_succ
        classBody := ih.classBody_succ
        classDeclaration := ih.classDeclaration_succ
        funDeclaration := ih.funDeclaration_succ
        varDeclaration := ih.varDeclaration_succ
        initializer := ih.initializer_succ
        declaration := ih.declaration_succ }

/-- Whatever the compiler accepts is a program, and what it makes of it is the assembled
lowering of that program. -/
theorem compile_factors {source : Text} {functions : List (Function (Constant N) Text)}
    (accepted : compile fuel source = .ok functions) :
    ∃ (decls : Decls) (code : LoweredCode) (l : Lower N),
      parse fuel source = .ok decls ∧ Lowers {} (.decls decls) code l ∧
      Assembles functions (l.functions ++ [l.script code]) := by
  obtain ⟨iter, scans, accepted⟩ := bind_ok.mp accepted
  obtain ⟨⟨⟨⟩, compiler⟩, loops, accepted⟩ := bind_ok.mp accepted
  cases accepted
  have matched : Matches { tokenIter := iter, back := { chunk := {} } } ({} : Lower N) :=
    ⟨⟨rfl, by simp⟩, rfl, rfl, rfl, TokenIterator.ofSource_scanned scans⟩
  obtain ⟨decls, code, l, parses, lowers, emits⟩ :=
    (factorAt fuel).declarationLoop atEnd _ _ _ loops matched
  refine ⟨decls, code, l, ?_, lowers, ?_⟩
  · rw [parse]
    exact bind_ok.mpr ⟨iter, scans, bind_ok.mpr ⟨(decls, compiler.tokenIter), parses, rfl⟩⟩
  · have script : (l.script code).assemble = ⟨[], 0, compiler.back.chunk⟩ := by
      have bytecode := emits.bytecode
      have sourceMap := emits.sourceMap
      have constants := emits.matched.constants
      simp only [List.nil_append] at bytecode sourceMap
      simp only [LoweredFunction.assemble, LoweredFunction.flats, Lower.script, ← bytecode,
        ← sourceMap, ← constants]
    rw [← script]
    exact emits.matched.functions.snoc emits.fits

end Cpplox
