import Cpplox.Ast.Factor

namespace Cpplox

open Structured Lower

variable {N : Type} [Number N] {fuel : Nat}

theorem FactorAt.primary_succ (ih : FactorAt N fuel) :
    FactorsExpr (compilePrimaryExpression (fuel + 1) : CompileM N Unit)
      (Parse.primaryExpression (fuel + 1)) := by
  intro leading before after l runs matched
  rw [compilePrimaryExpression, run_current_bind] at runs
  split at runs
  next type =>
      obtain ⟨token, c₁, takes, runs⟩ := run_bind_ok.mp runs
      obtain ⟨-, reads⟩ := next_reads takes matched
      have emits := emit_emits runs rfl reads.emits.matched
      refine ⟨.false_ token, _, l, ?_, .false_, by simpa using reads.emits.trans emits.emits⟩
      rw [Parse.primaryExpression, Parse.run_current_bind]
      simp only [type]
      rw [run_ok_bind reads.parses, emits.tokenIter]
      rfl
  next type =>
      obtain ⟨token, c₁, takes, runs⟩ := run_bind_ok.mp runs
      obtain ⟨-, reads⟩ := next_reads takes matched
      obtain ⟨params, body, code, later, parses, lowers, emits⟩ :=
        compileFunction_factors .expression [] (ih.functionRest _) runs
          reads.emits.matched leading
      refine ⟨.function token params body, code, later, ?_, .functionExpr lowers,
        by simpa using reads.emits.trans emits⟩
      rw [Parse.primaryExpression, Parse.run_current_bind]
      simp only [type]
      rw [run_ok_bind reads.parses, run_ok_bind parses]
      rfl
  next type =>
      obtain ⟨token, c₁, takes, runs⟩ := run_bind_ok.mp runs
      obtain ⟨rfl, reads⟩ := next_reads takes matched
      obtain ⟨code, later, lowers, emits⟩ := emitGetter_emits runs matched.scanned reads.emits.matched
      refine ⟨.variable _, code, later, ?_, .occurrence lowers,
        by simpa using reads.emits.trans emits.emits⟩
      rw [Parse.primaryExpression, Parse.run_current_bind]
      simp only [type]
      rw [run_ok_bind reads.parses, emits.tokenIter]
      rfl
  next type =>
      obtain ⟨token, c₁, takes, runs⟩ := run_bind_ok.mp runs
      obtain ⟨rfl, reads⟩ := next_reads takes matched
      obtain ⟨code, later, lowers, emits⟩ := emitGetter_emits runs matched.scanned reads.emits.matched
      refine ⟨.variable _, code, later, ?_, .occurrence lowers,
        by simpa using reads.emits.trans emits.emits⟩
      rw [Parse.primaryExpression, Parse.run_current_bind]
      simp only [type]
      rw [run_ok_bind reads.parses, emits.tokenIter]
      rfl
  next type =>
      obtain ⟨_, c₁, takes, runs⟩ := run_bind_ok.mp runs
      obtain ⟨_, c₂, compiles, runs⟩ := run_bind_ok.mp runs
      obtain ⟨_, c₃, expects, runs⟩ := run_bind_ok.mp runs
      cases runs
      obtain ⟨-, reads⟩ := next_reads takes matched
      obtain ⟨inner, code, later, parses, lowers, emits⟩ :=
        ih.assignment leading _ _ _ compiles reads.emits.matched
      have close := expectNext_reads expects emits.matched
      refine ⟨inner, code, later, ?_, lowers,
        by simpa using (reads.emits.trans emits).trans close.emits⟩
      rw [Parse.primaryExpression, Parse.run_current_bind]
      simp only [type]
      rw [run_ok_bind reads.parses, run_ok_bind parses, run_ok_bind close.parses]
      rfl
  next type =>
      obtain ⟨token, c₁, takes, runs⟩ := run_bind_ok.mp runs
      obtain ⟨-, reads⟩ := next_reads takes matched
      have emits := emit_emits runs rfl reads.emits.matched
      refine ⟨.nil token, _, l, ?_, .nil, by simpa using reads.emits.trans emits.emits⟩
      rw [Parse.primaryExpression, Parse.run_current_bind]
      simp only [type]
      rw [run_ok_bind reads.parses, emits.tokenIter]
      rfl
  next type =>
      obtain ⟨token, c₁, takes, runs⟩ := run_bind_ok.mp runs
      obtain ⟨-, reads⟩ := next_reads takes matched
      obtain ⟨code, later, lowers, emits⟩ := emitConstant_emits runs reads.emits.matched
      refine ⟨.number token, code, later, ?_, .number lowers,
        by simpa using reads.emits.trans emits.emits⟩
      rw [Parse.primaryExpression, Parse.run_current_bind]
      simp only [type]
      rw [run_ok_bind reads.parses, emits.tokenIter]
      rfl
  next type =>
      obtain ⟨token, c₁, takes, runs⟩ := run_bind_ok.mp runs
      obtain ⟨-, reads⟩ := next_reads takes matched
      obtain ⟨code, later, lowers, emits⟩ := emitConstant_emits runs reads.emits.matched
      refine ⟨.string token, code, later, ?_, .string lowers,
        by simpa using reads.emits.trans emits.emits⟩
      rw [Parse.primaryExpression, Parse.run_current_bind]
      simp only [type]
      rw [run_ok_bind reads.parses, emits.tokenIter]
      rfl
  next type =>
      obtain ⟨token, c₁, takes, runs⟩ := run_bind_ok.mp runs
      obtain ⟨rfl, reads⟩ := next_reads takes matched
      obtain ⟨_, c₂, getsThis, runs⟩ := run_bind_ok.mp runs
      obtain ⟨_, c₃, getsSuper, runs⟩ := run_bind_ok.mp runs
      obtain ⟨_, c₄, expects, runs⟩ := run_bind_ok.mp runs
      obtain ⟨method, c₅, names, runs⟩ := run_bind_ok.mp runs
      obtain ⟨receiver, l₁, lowersThis, first⟩ :=
        emitGetter_emits getsThis (List.cons_ne_nil _ _) reads.emits.matched
      obtain ⟨superclass, l₂, lowersSuper, second⟩ :=
        emitGetter_emits getsSuper matched.scanned first.emits.matched
      have dot := expectNext_reads expects second.emits.matched
      obtain ⟨-, name⟩ := expectCurrent_reads names dot.emits.matched
      obtain ⟨code, l₃, lowers, third⟩ := emitName_emits runs rfl name.emits.matched none
      refine ⟨.super _ method, _, l₃, ?_, .super lowersThis lowersSuper lowers, ?_⟩
      · rw [Parse.primaryExpression, Parse.run_current_bind]
        simp only [type]
        rw [run_ok_bind reads.parses, ← first.tokenIter, ← second.tokenIter,
          run_ok_bind dot.parses, run_ok_bind name.parses, third.tokenIter]
        rfl
      · simpa [Code.flatten] using ((((reads.emits.trans first.emits).trans second.emits).trans
          dot.emits).trans name.emits).trans third.emits
  next type =>
      obtain ⟨token, c₁, takes, runs⟩ := run_bind_ok.mp runs
      obtain ⟨-, reads⟩ := next_reads takes matched
      have emits := emit_emits runs rfl reads.emits.matched
      refine ⟨.true_ token, _, l, ?_, .true_, by simpa using reads.emits.trans emits.emits⟩
      rw [Parse.primaryExpression, Parse.run_current_bind]
      simp only [type]
      rw [run_ok_bind reads.parses, emits.tokenIter]
      rfl
  next => cases runs

theorem FactorAt.call_succ (ih : FactorAt N fuel) :
    FactorsExpr (compileCallPrecedenceExpression (fuel + 1) : CompileM N Unit)
      (Parse.callExpression (fuel + 1)) := by
  intro leading before after l runs matched
  rw [compileCallPrecedenceExpression, run_current_bind] at runs
  obtain ⟨_, middle, compiles, runs⟩ := run_bind_ok.mp runs
  obtain ⟨callee, code, l₁, parses, lowers, emits⟩ := ih.primary leading _ _ _ compiles matched
  obtain ⟨tree, laterCode, later, parsesLoop, lowersLoop, emitsLoop⟩ :=
    ih.callLoop callee before.tokenIter.token _ _ _ _ _ _ _ runs lowers emits
  refine ⟨tree, laterCode, later, ?_, lowersLoop, emitsLoop⟩
  rw [Parse.callExpression, Parse.run_current_bind, run_ok_bind parses, parsesLoop]

/-- `.name`. -/
theorem property_continues {before after : Compiler N} {start : Compiler N} {l₀ l : Lower N}
    {leading : Bool} {code : LoweredCode} {callee : Expr} {token : SourceMapToken Text}
    (runs : compileProperty.run before = .ok (token, after))
    (lowers : Lowers l₀ (.expr leading callee) code l)
    (emitted : Emits start (code.flatten layout) before l) :
    ∃ name laterCode later, Parse.property.run before.tokenIter = .ok (name, after.tokenIter) ∧
      token = sourceMapToken name ∧
      Lowers l₀ (.expr leading (.getProperty callee name)) laterCode later ∧
      Emits start (laterCode.flatten layout) after later := by
  obtain ⟨_, c₁, takes, runs⟩ := run_bind_ok.mp runs
  obtain ⟨name, c₂, names, runs⟩ := run_bind_ok.mp runs
  obtain ⟨_, c₃, gets, runs⟩ := run_bind_ok.mp runs
  cases runs
  obtain ⟨-, dot⟩ := next_reads takes emitted.matched
  obtain ⟨-, reads⟩ := expectCurrent_reads names dot.emits.matched
  obtain ⟨property, later, lowersProperty, emits⟩ := emitName_emits gets rfl reads.emits.matched none
  refine ⟨name, _, later, ?_, rfl, .getProperty lowers lowersProperty, ?_⟩
  · rw [Parse.property, run_ok_bind dot.parses, reads.parses, emits.tokenIter]
  · simpa [Code.flatten] using ((emitted.trans dot.emits).trans reads.emits).trans emits.emits

theorem FactorAt.callLoop_succ (ih : FactorAt N fuel) (callee : Expr) (calleeToken : Token) :
    Continues (Cpplox.callLoop (fuel + 1) (sourceMapToken calleeToken) : CompileM N Unit)
      (Parse.callLoop (fuel + 1) callee calleeToken) callee id := by
  intro start before after l₀ l leading code runs lowers emitted
  rw [Cpplox.callLoop, run_current_bind] at runs
  split at runs
  next type =>
      obtain ⟨_, c₁, takes, runs⟩ := run_bind_ok.mp runs
      obtain ⟨-, reads⟩ := next_reads takes emitted.matched
      obtain ⟨count, c₂, compiles, runs⟩ := run_bind_ok.mp runs
      obtain ⟨args, values, l₁, parsesArgs, counts, lowersArgs, emitsArgs⟩ :=
        ih.arguments _ _ _ _ compiles reads.emits.matched
      obtain ⟨_, c₃, calls, runs⟩ := run_bind_ok.mp runs
      rw [run_current_bind] at runs
      rw [counts] at calls
      obtain ⟨small, call⟩ := emitIndex_emits calls rfl emitsArgs.matched none
      have lowersCall : Lowers l₀ (.expr leading (.call callee args calleeToken)) _ l₁ :=
        .call lowers lowersArgs (run_emitIndex small none)
      have called := ((emitted.trans reads.emits).trans emitsArgs).trans call.emits
      simp only [List.append_nil, List.append_assoc] at called
      rw [Parse.callLoop, Parse.run_current_bind]
      simp only [type]
      rw [run_ok_bind reads.parses, run_ok_bind parsesArgs]
      rw [Parse.run_current_bind, ← call.tokenIter]
      split at runs
      next dot =>
          obtain ⟨token, c₄, compilesProperty, runs⟩ := run_bind_ok.mp runs
          obtain ⟨name, code₁, l₂, parsesName, rfl, lowersName, emitsName⟩ :=
            property_continues compilesProperty lowersCall called
          obtain ⟨tree, laterCode, later, parses, lowersLoop, emits⟩ :=
            ih.callLoop _ name _ _ _ _ _ _ _ runs lowersName emitsName
          refine ⟨tree, laterCode, later, ?_, lowersLoop, emits⟩
          rw [if_pos dot, run_ok_bind parsesName, parses]
      next other =>
          obtain ⟨tree, laterCode, later, parses, lowersLoop, emits⟩ :=
            ih.callLoop _ calleeToken _ _ _ _ _ _ _ runs lowersCall called
          refine ⟨tree, laterCode, later, ?_, lowersLoop, emits⟩
          rw [if_neg other, parses]
  next type =>
      obtain ⟨token, c₁, compilesProperty, runs⟩ := run_bind_ok.mp runs
      obtain ⟨name, code₁, l₁, parsesName, rfl, lowersName, emitsName⟩ :=
        property_continues compilesProperty lowers emitted
      obtain ⟨tree, laterCode, later, parses, lowersLoop, emits⟩ :=
        ih.callLoop _ name _ _ _ _ _ _ _ runs lowersName emitsName
      refine ⟨tree, laterCode, later, ?_, lowersLoop, emits⟩
      rw [Parse.callLoop, Parse.run_current_bind]
      simp only [type]
      rw [run_ok_bind parsesName, parses]
  next notCall notDot =>
      cases runs
      refine ⟨callee, code, l, ?_, lowers, emitted⟩
      rw [Parse.callLoop, Parse.run_current_bind]
      split
      next type => exact absurd type notCall
      next type => exact absurd type notDot
      next => rfl

theorem FactorAt.arguments_succ (ih : FactorAt N fuel) :
    FactorsArgs (compileArguments (fuel + 1) : CompileM N Nat) (Parse.arguments (fuel + 1)) := by
  intro before after l count runs matched
  rw [compileArguments] at runs
  obtain ⟨found, c₁, matches_, runs⟩ := run_bind_ok.mp runs
  have reads := advanceIfMatch_reads matches_ matched
  rw [Parse.arguments, run_ok_bind reads.parses]
  cases found with
  | true =>
      cases runs
      exact ⟨.nil, .nil, l, rfl, rfl, .argsNil, reads.emits⟩
  | false =>
      obtain ⟨_, c₂, compiles, runs⟩ := run_bind_ok.mp runs
      obtain ⟨_, c₃, expects, runs⟩ := run_bind_ok.mp runs
      cases runs
      obtain ⟨args, code, later, parses, counts, lowers, emits⟩ :=
        ih.argumentLoop _ _ _ _ compiles reads.emits.matched
      have close := expectNext_reads expects emits.matched
      refine ⟨args, code, later, ?_, counts, lowers,
        by simpa using (reads.emits.trans emits).trans close.emits⟩
      simp only [Bool.false_eq_true, if_false]
      rw [run_ok_bind parses, run_ok_bind close.parses]
      rfl

theorem FactorAt.argumentLoop_succ (ih : FactorAt N fuel) :
    FactorsArgs (Cpplox.argumentLoop (fuel + 1) : CompileM N Nat)
      (Parse.argumentLoop (fuel + 1)) := by
  intro before after l count runs matched
  rw [Cpplox.argumentLoop] at runs
  obtain ⟨_, c₁, compiles, runs⟩ := run_bind_ok.mp runs
  obtain ⟨found, c₂, matches_, runs⟩ := run_bind_ok.mp runs
  obtain ⟨head, first, l₁, parses, lowers, emits⟩ := ih.assignment false _ _ _ compiles matched
  have reads := advanceIfMatch_reads matches_ emits.matched
  rw [Parse.argumentLoop, run_ok_bind parses, run_ok_bind reads.parses]
  have headEmits := emits.trans reads.emits
  rw [List.append_nil] at headEmits
  cases found with
  | true =>
      obtain ⟨more, c₃, compilesRest, runs⟩ := run_bind_ok.mp runs
      cases runs
      obtain ⟨tail, rest, later, parsesRest, rfl, lowersRest, emitsRest⟩ :=
        ih.argumentLoop _ _ _ _ compilesRest reads.emits.matched
      refine ⟨.cons head tail, .seq first rest, later, ?_, rfl, .argsCons lowers lowersRest,
        headEmits.trans emitsRest⟩
      simp only [if_true]
      rw [run_ok_bind parsesRest]
      rfl
  | false =>
      cases runs
      exact ⟨.cons head .nil, .seq first .nil, l₁, rfl, rfl, .argsCons lowers .argsNil,
        by simpa [Code.flatten] using headEmits⟩

theorem unaryOperator_factors (ih : FactorAt N fuel) {opcode : Opcode} {before after : Compiler N}
    {l : Lower N} (runs : (do
      let operatorToken := sourceMapToken (← next)
      compileUnaryPrecedenceExpression fuel
      emit opcode operatorToken : CompileM N Unit).run before = .ok ((), after))
    (shape : opcode.shape = .simple) (unary : unaryOpcode before.tokenIter.token.type = opcode)
    (matched : Matches before l) (leading : Bool) :
    ∃ tree code later, (do
        let operator ← Parse.next
        return .unary operator (← Parse.unaryExpression fuel) : ParseM Expr).run before.tokenIter =
        .ok (tree, after.tokenIter) ∧
      Lowers l (.expr leading tree) code later ∧ Emits before (code.flatten layout) after later := by
  obtain ⟨operator, c₁, takes, runs⟩ := run_bind_ok.mp runs
  obtain ⟨same, reads⟩ := next_reads takes matched
  obtain ⟨_, c₂, compiles, runs⟩ := run_bind_ok.mp runs
  obtain ⟨operand, code, later, parses, lowers, emits⟩ :=
    ih.unary leading _ _ _ compiles reads.emits.matched
  have operation := emit_emits runs shape emits.matched
  rw [← unary, ← same] at operation
  refine ⟨.unary operator operand, _, later, ?_, .unary lowers,
    by simpa [Code.flatten] using (reads.emits.trans emits).trans operation.emits⟩
  rw [run_ok_bind reads.parses, run_ok_bind parses, operation.tokenIter]
  rfl

theorem FactorAt.unary_succ (ih : FactorAt N fuel) :
    FactorsExpr (compileUnaryPrecedenceExpression (fuel + 1) : CompileM N Unit)
      (Parse.unaryExpression (fuel + 1)) := by
  intro leading before after l runs matched
  rw [compileUnaryPrecedenceExpression, run_current_bind] at runs
  split at runs
  next type =>
      rw [Parse.unaryExpression, Parse.run_current_bind]
      simp only [type]
      exact unaryOperator_factors ih runs rfl (by rw [type]; rfl) matched leading
  next type =>
      rw [Parse.unaryExpression, Parse.run_current_bind]
      simp only [type]
      exact unaryOperator_factors ih runs rfl (by rw [type]; rfl) matched leading
  next notMinus notBang =>
      obtain ⟨tree, code, later, parses, lowers, emits⟩ := ih.call leading _ _ _ runs matched
      refine ⟨tree, code, later, ?_, lowers, emits⟩
      rw [Parse.unaryExpression, Parse.run_current_bind]
      split
      next type => exact absurd type notMinus
      next type => exact absurd type notBang
      next => exact parses

theorem peekPropertyNames_scanned {iter last : TokenIterator} {names : List Token}
    (scanned : iter.Scanned) (peeks : peekPropertyNames fuel iter = .ok (names, last)) :
    last.Scanned := by
  induction fuel generalizing iter names with
  | zero => cases peeks
  | succ fuel ih =>
      rw [peekPropertyNames] at peeks
      split at peeks
      next =>
          obtain ⟨named, _, peeks⟩ := bind_ok.mp peeks
          obtain ⟨_, _, peeks⟩ := bind_ok.mp peeks
          obtain ⟨after, advances, peeks⟩ := bind_ok.mp peeks
          obtain ⟨⟨rest, final⟩, deeper, peeks⟩ := bind_ok.mp peeks
          cases peeks
          exact ih (TokenIterator.advance_scanned advances) deeper
      next => cases peeks; exact scanned

theorem peekAssignment_scanned {iter ahead : TokenIterator} {names : List Token}
    (peeks : peekAssignment fuel iter = .ok (some (names, ahead))) : ahead.Scanned := by
  rw [peekAssignment] at peeks
  split at peeks
  next =>
      obtain ⟨after, advances, peeks⟩ := bind_ok.mp peeks
      obtain ⟨⟨found, last⟩, finds, peeks⟩ := bind_ok.mp peeks
      have scanned := peekPropertyNames_scanned (TokenIterator.advance_scanned advances) finds
      by_cases equal : last.token.type = .equal
      · simp only [equal, if_true, pure, Except.pure, Except.ok.injEq, Option.some.injEq,
          Prod.mk.injEq] at peeks
        exact peeks.2 ▸ scanned
      · simp [equal, pure, Except.pure] at peeks
  next => cases peeks

theorem FactorAt.assignment_succ (ih : FactorAt N fuel) :
    FactorsExpr (compileAssignmentPrecedenceExpression (fuel + 1) : CompileM N Unit)
      (Parse.assignmentExpression (fuel + 1)) := by
  intro leading before after l runs matched
  rw [compileAssignmentPrecedenceExpression, run_get_bind] at runs
  obtain ⟨peeked, peeks, runs⟩ := run_lift_bind_ok.mp runs
  rw [Parse.assignmentExpression, run_get_bind, run_lift_bind peeks]
  cases peeked with
  | none => exact ih.or_ leading _ _ _ runs matched
  | some ahead =>
      obtain ⟨names, peekAhead⟩ := ahead
      obtain ⟨_, c₁, sets, runs⟩ := run_bind_ok.mp runs
      cases sets
      obtain ⟨equalToken, c₂, takes, runs⟩ := run_bind_ok.mp runs
      obtain ⟨_, c₃, compiles, runs⟩ := run_bind_ok.mp runs
      have peeking := Emits.ofTokenIter matched (peekAssignment_scanned peeks)
      obtain ⟨-, reads⟩ := next_reads takes peeking.matched
      obtain ⟨value, code, l₁, parses, lowers, emits⟩ :=
        ih.assignment leading _ _ _ compiles reads.emits.matched
      obtain ⟨assignment, later, lowersAssignment, assigns⟩ :=
        emitAssignment_emits runs matched.scanned emits.matched
      refine ⟨.assign before.tokenIter.token equalToken names value, _, later, ?_,
        .assign lowers lowersAssignment, by simpa [Code.flatten] using
          ((peeking.trans reads.emits).trans emits).trans assigns.emits⟩
      have sets : (set peekAhead : ParseM PUnit).run before.tokenIter = .ok ((), peekAhead) := rfl
      dsimp only
      rw [run_ok_bind sets, run_ok_bind reads.parses, run_ok_bind parses, assigns.tokenIter]
      rfl

end Cpplox
