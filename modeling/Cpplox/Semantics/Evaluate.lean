import Cpplox.Semantics.Perform

namespace Cpplox

open Data

/-! The meaning of a program without functions and classes, by its syntax tree. -/

/-- The variables of the scopes around, innermost first, and those of the outermost scope. -/
structure State (N : Type) where
  locals : List (Text × Datum N)
  globals : Text → Option (Datum N)
  output : List Text

abbrev EvalM (N : Type) := EStateM (Stop Text) (State N)

variable {N : Type}

/-- The innermost variable of a name. -/
def State.read (name : Text) (state : State N) : Option (Datum N) :=
  (lookup state.locals name).or (state.globals name)

def State.write (name : Text) (value : Datum N) (state : State N) : Option (State N) :=
  if (lookup state.locals name).isSome then
    some { state with locals := assign state.locals name value }
  else if (state.globals name).isSome then
    some { state with globals := Function.update state.globals name (some value) }
  else none

def orUndefined {A : Type} (token : Token) : Option A → EvalM N A
  | some result => return result
  | none => throw (undefinedVariable (sourceMapToken token) token.lexeme)

def readVariable (token : Token) : EvalM N (Datum N) := do
  orUndefined token ((← get).read token.lexeme)

def writeVariable (token : Token) (value : Datum N) : EvalM N Unit := do
  set (← orUndefined token ((← get).write token.lexeme value))

/-- Declarations outside of all blocks are global, and there a name may be declared again. -/
def declareVariable (top : Bool) (name : Text) (value : Datum N) : EvalM N Unit :=
  modify fun state =>
    if top then { state with globals := Function.update state.globals name (some value) }
    else { state with locals := (name, value) :: state.locals }

/-- What a block declares is gone after it. -/
def inBlock (body : EvalM N Unit) : EvalM N Unit := do
  let outer := (← get).locals.length
  body
  modify fun state => { state with locals := state.locals.drop (state.locals.length - outer) }

def resultOf : Except (Stop Text) (Datum N) → EvalM N (Datum N)
  | .ok value => return value
  | .error stop => throw stop

variable [Number N]

def applyUnary (operator : Token) (value : Datum N) : Except (Stop Text) (Datum N) :=
  match operator.type with
  | .minus => value.negate (sourceMapToken operator)
  | _ => .ok (.bool (!value.isTruthy))

/-- `>=`, `<=` and `!=` are the negations of `<`, `>` and `==`. -/
def applyBinary (operator : Token) (left right : Datum N) : Except (Stop Text) (Datum N) :=
  let token := sourceMapToken operator
  match operator.type with
  | .plus => left.add token right
  | .minus => left.numbers token (fun one two => .number (Number.subtract one two)) right
  | .star => left.numbers token (fun one two => .number (Number.multiply one two)) right
  | .slash => left.numbers token (fun one two => .number (Number.divide one two)) right
  | .less => left.numbers token (fun one two => .bool (Number.less one two)) right
  | .greater => left.numbers token (fun one two => .bool (Number.greater one two)) right
  | .greaterEqual => left.numbers token (fun one two => .bool (!Number.less one two)) right
  | .lessEqual => left.numbers token (fun one two => .bool (!Number.greater one two)) right
  | .equalEqual => .ok (.bool (left.equal right))
  | .bangEqual => .ok (.bool (!left.equal right))
  | _ => .error .stuck

/-- Functions, calls and properties are left out: what comes to one is stuck. -/
def evalExpr : Expr → EvalM N (Datum N)
  | .false_ _ => return .bool false
  | .true_ _ => return .bool true
  | .nil _ => return .nil
  | .number token => return .number (Number.lexicalCast token.lexeme)
  | .string token => return .string token.lexeme.tail.dropLast
  | .variable token => readVariable token
  | .unary operator operand => do
      let value ← evalExpr operand
      resultOf (applyUnary operator value)
  | .binary operator left right => do
      let one ← evalExpr left
      let two ← evalExpr right
      resultOf (applyBinary operator one two)
  | .and_ _ left right => do
      let value ← evalExpr left
      if value.isTruthy then evalExpr right else return value
  | .or_ _ left right => do
      let value ← evalExpr left
      if value.isTruthy then return value else evalExpr right
  | .assign target _ [] value => do
      let value ← evalExpr value
      writeVariable target value
      return value
  | _ => throw .stuck

def evalCondition (condition : Expr) : EvalM N Bool := do
  let value ← evalExpr condition
  return value.isTruthy

def printValue (value : Expr) : EvalM N Unit := do
  let value ← evalExpr value
  modify fun state => { state with output := state.output ++ [value.text] }

mutual

/-- Loops have fuel. -/
def execStmt (fuel : Nat) : Stmt → EvalM N Unit
  | .empty => return ()
  | .expression value _ => do let _ ← evalExpr value
  | .if_ _ condition thenBranch elseBranch => do
      if ← evalCondition condition then execStmt fuel thenBranch else execStmt fuel elseBranch
  | .for_ _ initializer condition increment body => inBlock do
      execDecl fuel false initializer
      whileTrue (evalCondition condition) (do
        execStmt fuel body
        execStmt fuel increment) fuel
  | .block body _ => inBlock (execDecls fuel false body)
  | .print _ value => printValue value
  | .while_ _ condition body => whileTrue (evalCondition condition) (execStmt fuel body) fuel
  | .returnDefault _ => throw .stuck
  | .return_ _ _ => throw .stuck

def execDecl (fuel : Nat) (top : Bool) : Decl → EvalM N Unit
  | .statement body => execStmt fuel body
  | .var _ name initializer => do
      let value ← evalExpr initializer
      declareVariable top name.lexeme value
  | .class_ _ _ _ _ => throw .stuck
  | .fun_ _ _ _ _ => throw .stuck

def execDecls (fuel : Nat) (top : Bool) : Decls → EvalM N Unit
  | .nil => return ()
  | .cons head tail => do
      execDecl fuel top head
      execDecls fuel top tail

end

def isBinaryOperator : TokenType → Bool
  | .plus | .minus | .star | .slash | .less | .greater | .greaterEqual | .lessEqual
  | .equalEqual | .bangEqual => true
  | _ => false

def Expr.isImperative : Expr → Bool
  | .false_ _ | .true_ _ | .nil _ | .number _ | .string _ | .variable _ => true
  | .unary _ operand => operand.isImperative
  | .binary operator left right =>
      isBinaryOperator operator.type && left.isImperative && right.isImperative
  | .and_ _ left right | .or_ _ left right => left.isImperative && right.isImperative
  | .assign _ _ names value => names.isEmpty && value.isImperative
  | .super _ _ | .function _ _ _ | .call _ _ _ | .getProperty _ _ => false

mutual

def Stmt.isImperative : Stmt → Bool
  | .empty => true
  | .expression value _ | .print _ value => value.isImperative
  | .if_ _ condition thenBranch elseBranch =>
      condition.isImperative && thenBranch.isImperative && elseBranch.isImperative
  | .for_ _ initializer condition increment body =>
      initializer.isImperative && condition.isImperative && increment.isImperative &&
        body.isImperative
  | .block body _ => body.isImperative
  | .while_ _ condition body => condition.isImperative && body.isImperative
  | .returnDefault _ | .return_ _ _ => false

def Decl.isImperative : Decl → Bool
  | .statement body => body.isImperative
  | .var _ _ initializer => initializer.isImperative
  | .class_ _ _ _ _ | .fun_ _ _ _ _ => false

def Decls.isImperative : Decls → Bool
  | .nil => true
  | .cons head tail => head.isImperative && tail.isImperative

end

section

variable {name operator : Token} {one two value : Datum N}

omit [Number N] in
theorem unstuck_orUndefined {A : Type} (result : Option A) :
    Unstuck (orUndefined name result : EvalM N A) := by
  cases result with
  | none => exact .throw (by simp [undefinedVariable])
  | some result => exact .pure result

omit [Number N] in
theorem unstuck_resultOf {result : Except (Stop Text) (Datum N)} (unstuck : result ≠ .error .stuck) :
    Unstuck (resultOf result) := by
  cases result with
  | ok value => exact .pure value
  | error stop =>
      refine .throw ?_
      rintro rfl
      exact unstuck rfl

omit [Number N] in
theorem numbers_unstuck (token : SourceMapToken Text) (operation : N → N → Datum N) :
    one.numbers token operation two ≠ .error .stuck := by
  cases one <;> cases two <;> simp [Datum.numbers, errorAt]

theorem applyUnary_unstuck : applyUnary operator value ≠ .error .stuck := by
  unfold applyUnary
  split
  · cases value <;> simp [Datum.negate, errorAt]
  · simp

theorem applyBinary_unstuck (binary : isBinaryOperator operator.type = true) :
    applyBinary operator one two ≠ .error .stuck := by
  unfold applyBinary
  cases type : operator.type with
  | plus => cases one <;> cases two <;> simp [Datum.add, errorAt]
  | minus | star | slash | less | greater | greaterEqual | lessEqual => exact numbers_unstuck _ _
  | equalEqual | bangEqual => simp
  | _ => simp [type, isBinaryOperator] at binary

end

theorem unstuck_evalExpr : ∀ tree : Expr, tree.isImperative = true →
    Unstuck (evalExpr tree : EvalM N (Datum N))
  | .false_ _, _ | .true_ _, _ | .nil _, _ | .number _, _ | .string _, _ => .pure _
  | .variable _, _ => .bind .get fun _ => unstuck_orUndefined _
  | .unary _ operand, imperative =>
      .bind (unstuck_evalExpr operand imperative) fun _ => unstuck_resultOf applyUnary_unstuck
  | .binary operator left right, imperative => by
      simp only [Expr.isImperative, Bool.and_eq_true] at imperative
      obtain ⟨⟨binary, first⟩, second⟩ := imperative
      exact .bind (unstuck_evalExpr left first) fun _ => .bind (unstuck_evalExpr right second) fun _ =>
        unstuck_resultOf (applyBinary_unstuck binary)
  | .and_ _ left right, imperative => by
      simp only [Expr.isImperative, Bool.and_eq_true] at imperative
      refine .bind (unstuck_evalExpr left imperative.1) fun value => ?_
      cases value.isTruthy with
      | true => exact unstuck_evalExpr right imperative.2
      | false => exact .pure value
  | .or_ _ left right, imperative => by
      simp only [Expr.isImperative, Bool.and_eq_true] at imperative
      refine .bind (unstuck_evalExpr left imperative.1) fun value => ?_
      cases value.isTruthy with
      | true => exact .pure value
      | false => exact unstuck_evalExpr right imperative.2
  | .assign _ _ [] value, imperative =>
      .bind (unstuck_evalExpr value imperative) fun _ =>
        .bind (.bind .get fun _ => .bind (unstuck_orUndefined _) fun _ => .modify _) fun _ => .pure _
  | .assign _ _ (_ :: _) _, imperative => by cases imperative
  | .super _ _, imperative | .function _ _ _, imperative | .call _ _ _, imperative
  | .getProperty _ _, imperative => by cases imperative

theorem unstuck_condition {condition : Expr} (imperative : condition.isImperative = true) :
    Unstuck (evalCondition condition : EvalM N Bool) :=
  .bind (unstuck_evalExpr condition imperative) fun _ => .pure _

omit [Number N] in
theorem unstuck_inBlock {body : EvalM N Unit} (unstuck : Unstuck body) : Unstuck (inBlock body) :=
  .bind .get fun _ => .bind unstuck fun _ => .modify _

mutual

theorem unstuck_execStmt (fuel : Nat) : ∀ tree : Stmt, tree.isImperative = true →
    Unstuck (execStmt fuel tree : EvalM N Unit)
  | .empty, _ => .pure _
  | .expression value _, imperative => .bind (unstuck_evalExpr value imperative) fun _ => .pure _
  | .if_ _ condition thenBranch elseBranch, imperative => by
      simp only [Stmt.isImperative, Bool.and_eq_true] at imperative
      obtain ⟨⟨test, yes⟩, no⟩ := imperative
      refine .bind (unstuck_condition test) fun result => ?_
      cases result with
      | true => exact unstuck_execStmt fuel thenBranch yes
      | false => exact unstuck_execStmt fuel elseBranch no
  | .for_ _ initializer condition increment body, imperative => by
      simp only [Stmt.isImperative, Bool.and_eq_true] at imperative
      obtain ⟨⟨⟨first, test⟩, step⟩, inner⟩ := imperative
      exact unstuck_inBlock (.bind (unstuck_execDecl fuel false initializer first) fun _ =>
        .whileTrue (unstuck_condition test) (.bind (unstuck_execStmt fuel body inner) fun _ =>
          unstuck_execStmt fuel increment step) fuel)
  | .block body _, imperative => unstuck_inBlock (unstuck_execDecls fuel false body imperative)
  | .print _ value, imperative => .bind (unstuck_evalExpr value imperative) fun _ => .modify _
  | .while_ _ condition body, imperative => by
      simp only [Stmt.isImperative, Bool.and_eq_true] at imperative
      exact .whileTrue (unstuck_condition imperative.1) (unstuck_execStmt fuel body imperative.2) fuel
  | .returnDefault _, imperative | .return_ _ _, imperative => by cases imperative

theorem unstuck_execDecl (fuel : Nat) (top : Bool) : ∀ tree : Decl, tree.isImperative = true →
    Unstuck (execDecl fuel top tree : EvalM N Unit)
  | .statement body, imperative => unstuck_execStmt fuel body imperative
  | .var _ _ initializer, imperative =>
      .bind (unstuck_evalExpr initializer imperative) fun _ => .modify _
  | .class_ _ _ _ _, imperative | .fun_ _ _ _ _, imperative => by cases imperative

theorem unstuck_execDecls (fuel : Nat) (top : Bool) : ∀ trees : Decls, trees.isImperative = true →
    Unstuck (execDecls fuel top trees : EvalM N Unit)
  | .nil, _ => .pure _
  | .cons head tail, imperative => by
      simp only [Decls.isImperative, Bool.and_eq_true] at imperative
      exact .bind (unstuck_execDecl fuel top head imperative.1) fun _ =>
        unstuck_execDecls fuel top tail imperative.2

end

end Cpplox
