import Cpplox.Ast
import Cpplox.Compiler.Compile

namespace Cpplox

/-! The reference parser: Lox with its precedence levels, left-associative binary
operators and right-associative assignment.  It looks at tokens only; what the
one-pass compiler emits for a tree is `Lower`. -/

abbrev ParseM := StateT TokenIterator (Except Error)

namespace Parse

def current : ParseM Token := return (← get).token

def next : ParseM Token := do
  let iter ← get
  let after ← iter.advance
  set after
  return iter.token

def advanceIfMatch (type : TokenType) : ParseM Bool := do
  if (← current).type = type then
    let _ ← next
    return true
  else return false

def expectNext (expected : TokenType) : ParseM Token := do
  let token ← next
  ensureTokenIs token expected
  return token

def expectCurrent (expected : TokenType) : ParseM Token := do
  ensureTokenIs (← current) expected
  next

/-- The rest of a left-associative level, after its first operand. -/
def whileOperator (isOperator : TokenType → Bool) (operand : ParseM Expr)
    (node : Token → Expr → Expr → Expr) : Nat → Expr → ParseM Expr
  | 0, _ => throw .outOfFuel
  | fuel + 1, left => do
      if isOperator (← current).type then do
        let operator ← next
        let right ← operand
        whileOperator isOperator operand node fuel (node operator left right)
      else return left

/-- `.name` after an object. -/
def property : ParseM Token := do
  let _ ← next
  expectCurrent .identifier

mutual

def primaryExpression : Nat → ParseM Expr
  | 0 => throw .outOfFuel
  | fuel + 1 => do
      match (← current).type with
      | .false_ => return .false_ (← next)
      | .fun_ => do
          let funToken ← next
          let (params, body) ← functionRest fuel
          return .function funToken params body
      | .identifier => return .variable (← next)
      | .this_ => return .variable (← next)
      | .leftParen => do
          let _ ← next
          let inner ← assignmentExpression fuel
          let _ ← expectNext .rightParen
          return inner
      | .nil => return .nil (← next)
      | .number => return .number (← next)
      | .string => return .string (← next)
      | .super => do
          let superToken ← next
          let _ ← expectNext .dot
          return .super superToken (← expectCurrent .identifier)
      | .true_ => return .true_ (← next)
      | _ => throw (unexpectedTokenError (← current))

def callExpression : Nat → ParseM Expr
  | 0 => throw .outOfFuel
  | fuel + 1 => do
      let calleeToken ← current
      let callee ← primaryExpression fuel
      callLoop fuel callee calleeToken

def callLoop : Nat → Expr → Token → ParseM Expr
  | 0, _, _ => throw .outOfFuel
  | fuel + 1, callee, calleeToken => do
      match (← current).type with
      | .leftParen => do
          let _ ← next
          let args ← arguments fuel
          let result := Expr.call callee args calleeToken
          if (← current).type = .dot then do
            let name ← property
            callLoop fuel (.getProperty result name) name
          else callLoop fuel result calleeToken
      | .dot => do
          let name ← property
          callLoop fuel (.getProperty callee name) name
      | _ => return callee

def arguments : Nat → ParseM Exprs
  | 0 => throw .outOfFuel
  | fuel + 1 => do
      if ← advanceIfMatch .rightParen then return .nil
      else do
        let args ← argumentLoop fuel
        let _ ← expectNext .rightParen
        return args

def argumentLoop : Nat → ParseM Exprs
  | 0 => throw .outOfFuel
  | fuel + 1 => do
      let head ← assignmentExpression fuel
      if ← advanceIfMatch .comma then return .cons head (← argumentLoop fuel)
      else return .cons head .nil

def unaryExpression : Nat → ParseM Expr
  | 0 => throw .outOfFuel
  | fuel + 1 => do
      match (← current).type with
      | .minus => do
          let operator ← next
          return .unary operator (← unaryExpression fuel)
      | .bang => do
          let operator ← next
          return .unary operator (← unaryExpression fuel)
      | _ => callExpression fuel

def multiplicationExpression : Nat → ParseM Expr
  | 0 => throw .outOfFuel
  | fuel + 1 => do
      whileOperator isMultiplicationOperator (unaryExpression fuel) .binary fuel
        (← unaryExpression fuel)

def additionExpression : Nat → ParseM Expr
  | 0 => throw .outOfFuel
  | fuel + 1 => do
      whileOperator isAdditionOperator (multiplicationExpression fuel) .binary fuel
        (← multiplicationExpression fuel)

def comparisonExpression : Nat → ParseM Expr
  | 0 => throw .outOfFuel
  | fuel + 1 => do
      whileOperator isComparisonOperator (additionExpression fuel) .binary fuel
        (← additionExpression fuel)

def equalityExpression : Nat → ParseM Expr
  | 0 => throw .outOfFuel
  | fuel + 1 => do
      whileOperator isEqualityOperator (comparisonExpression fuel) .binary fuel
        (← comparisonExpression fuel)

def andExpression : Nat → ParseM Expr
  | 0 => throw .outOfFuel
  | fuel + 1 => do
      whileOperator (· = .and_) (equalityExpression fuel) .and_ fuel (← equalityExpression fuel)

def orExpression : Nat → ParseM Expr
  | 0 => throw .outOfFuel
  | fuel + 1 => do
      whileOperator (· = .or_) (andExpression fuel) .or_ fuel (← andExpression fuel)

def assignmentExpression : Nat → ParseM Expr
  | 0 => throw .outOfFuel
  | fuel + 1 => do
      let iter ← get
      match ← peekAssignment fuel iter with
      | some (names, peekAhead) => do
          set peekAhead
          let equalToken ← next
          return .assign iter.token equalToken names (← assignmentExpression fuel)
      | none => orExpression fuel

def expressionStatement : Nat → ParseM Stmt
  | 0 => throw .outOfFuel
  | fuel + 1 => do
      let value ← assignmentExpression fuel
      let token ← current
      if token.type = .equal then throw (invalidAssignmentError token.line)
      else return .expression value (← expectCurrent .semicolon)

def parameterLoop : Nat → ParseM (List Token)
  | 0 => throw .outOfFuel
  | fuel + 1 => do
      let param ← expectCurrent .identifier
      if ← advanceIfMatch .comma then return param :: (← parameterLoop fuel)
      else do
        let _ ← expectNext .rightParen
        return [param]

def parameters : Nat → ParseM (List Token)
  | 0 => throw .outOfFuel
  | fuel + 1 => do
      if ← advanceIfMatch .rightParen then return []
      else parameterLoop fuel

def functionRest : Nat → ParseM (List Token × Decls)
  | 0 => throw .outOfFuel
  | fuel + 1 => do
      let _ ← expectNext .leftParen
      let params ← parameters fuel
      let _ ← expectNext .leftBrace
      let body ← declarationLoop fuel atBlockEnd
      let _ ← expectNext .rightBrace
      return (params, body)

def declarationLoop : Nat → (TokenType → Bool) → ParseM Decls
  | 0, _ => throw .outOfFuel
  | fuel + 1, isEnd => do
      if isEnd (← current).type then return .nil
      else do
        let head ← declaration fuel
        return .cons head (← declarationLoop fuel isEnd)

def ifStatement : Nat → ParseM Stmt
  | 0 => throw .outOfFuel
  | fuel + 1 => do
      let token ← next
      let _ ← expectNext .leftParen
      let condition ← assignmentExpression fuel
      let _ ← expectNext .rightParen
      let thenBranch ← statement fuel
      if ← advanceIfMatch .else_ then
        return .if_ token condition thenBranch (← statement fuel)
      else return .if_ token condition thenBranch .empty

def forInitializer : Nat → ParseM Decl
  | 0 => throw .outOfFuel
  | fuel + 1 => do
      if ← advanceIfMatch .semicolon then return .statement .empty
      else if (← current).type = .var then declaration fuel
      else return .statement (← expressionStatement fuel)

def forCondition : Nat → Token → ParseM Expr
  | 0, _ => throw .outOfFuel
  | fuel + 1, forToken => do
      if ← advanceIfMatch .semicolon then return .true_ forToken
      else do
        let condition ← assignmentExpression fuel
        let _ ← expectNext .semicolon
        return condition

def forIncrement : Nat → Token → ParseM Stmt
  | 0, _ => throw .outOfFuel
  | fuel + 1, forToken => do
      if (← current).type = .rightParen then return .empty
      else return .expression (← assignmentExpression fuel) forToken

def forStatement : Nat → ParseM Stmt
  | 0 => throw .outOfFuel
  | fuel + 1 => do
      let forToken ← next
      let _ ← expectNext .leftParen
      let initializer ← forInitializer fuel
      let condition ← forCondition fuel forToken
      let increment ← forIncrement fuel forToken
      let _ ← expectNext .rightParen
      return .for_ forToken initializer condition increment (← statement fuel)

def block : Nat → ParseM Stmt
  | 0 => throw .outOfFuel
  | fuel + 1 => do
      let _ ← next
      let body ← declarationLoop fuel atBlockEnd
      return .block body (← expectCurrent .rightBrace)

def printStatement : Nat → ParseM Stmt
  | 0 => throw .outOfFuel
  | fuel + 1 => do
      let token ← next
      let value ← assignmentExpression fuel
      let _ ← expectNext .semicolon
      return .print token value

def returnStatement : Nat → ParseM Stmt
  | 0 => throw .outOfFuel
  | fuel + 1 => do
      let token ← next
      if ← advanceIfMatch .semicolon then return .returnDefault token
      else do
        let value ← assignmentExpression fuel
        let _ ← expectNext .semicolon
        return .return_ token value

def whileStatement : Nat → ParseM Stmt
  | 0 => throw .outOfFuel
  | fuel + 1 => do
      let token ← next
      let _ ← expectNext .leftParen
      let condition ← assignmentExpression fuel
      let _ ← expectNext .rightParen
      return .while_ token condition (← statement fuel)

def statement : Nat → ParseM Stmt
  | 0 => throw .outOfFuel
  | fuel + 1 => do
      match (← current).type with
      | .if_ => ifStatement fuel
      | .for_ => forStatement fuel
      | .leftBrace => block fuel
      | .print => printStatement fuel
      | .return_ => returnStatement fuel
      | .while_ => whileStatement fuel
      | _ => expressionStatement fuel

def methodLoop : Nat → ParseM Methods
  | 0 => throw .outOfFuel
  | fuel + 1 => do
      if (← current).type = .identifier then do
        let name ← next
        let (params, body) ← functionRest fuel
        return .cons name params body (← methodLoop fuel)
      else return .nil

def classBody : Nat → ParseM Methods
  | 0 => throw .outOfFuel
  | fuel + 1 => do
      let _ ← expectNext .leftBrace
      let methods ← methodLoop fuel
      let _ ← expectNext .rightBrace
      return methods

def classDeclaration : Nat → ParseM Decl
  | 0 => throw .outOfFuel
  | fuel + 1 => do
      let classToken ← next
      let name ← expectCurrent .identifier
      if ← advanceIfMatch .less then do
        let superclass ← expectCurrent .identifier
        return .class_ classToken name (some superclass) (← classBody fuel)
      else return .class_ classToken name none (← classBody fuel)

def funDeclaration : Nat → ParseM Decl
  | 0 => throw .outOfFuel
  | fuel + 1 => do
      let funToken ← next
      let name ← expectCurrent .identifier
      let (params, body) ← functionRest fuel
      return .fun_ funToken name params body

def varDeclaration : Nat → ParseM Decl
  | 0 => throw .outOfFuel
  | fuel + 1 => do
      let varToken ← next
      let name ← expectCurrent .identifier
      let value ← initializer fuel varToken
      let _ ← expectNext .semicolon
      return .var varToken name value

def initializer : Nat → Token → ParseM Expr
  | 0, _ => throw .outOfFuel
  | fuel + 1, varToken => do
      if ← advanceIfMatch .equal then assignmentExpression fuel
      else return .nil varToken

def declaration : Nat → ParseM Decl
  | 0 => throw .outOfFuel
  | fuel + 1 => do
      match (← current).type with
      | .class_ => classDeclaration fuel
      | .fun_ => funDeclaration fuel
      | .var => varDeclaration fuel
      | _ => return .statement (← statement fuel)

end

end Parse

/-- The tree of a source text. -/
def parse (fuel : Nat) (source : Text) : Except Error Decls := do
  let iter ← TokenIterator.ofSource source
  let (program, _) ← (Parse.declarationLoop fuel atEnd).run iter
  return program

end Cpplox
