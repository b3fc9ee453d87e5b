import Cpplox.Compiler.Emit

namespace Cpplox

/-! The one-pass compiler: recursive descent fused with code generation.

Every function takes fuel, one unit a call.  A result other than `outOfFuel` does
not depend on the fuel that was left. -/

variable {N : Type}

def unexpectedTokenError (token : Token) : Error :=
  .runtimeError (atLine token.line.toNat ++ ": Unexpected token \"".toList ++ token.lexeme ++
    "\".".toList)

def invalidAssignmentError (line : UInt32) : Error :=
  .runtimeError (atLine line.toNat ++ " at \"=\": Invalid assignment target.".toList)

def topLevelReturnError (line : UInt32) : Error :=
  .runtimeError (atLine line.toNat ++ " at \"return\": Can't return from top-level code.".toList)

def initializerReturnError (line : UInt32) : Error :=
  .runtimeError (atLine line.toNat ++
    " at \"return\": Can't return a value from an initializer.".toList)

def selfInheritanceError (line : UInt32) : Error :=
  .runtimeError (atLine line.toNat ++ ": A class can't inherit from itself.".toList)

/-- `Token{Token_type::this_, "this", line}`, as `source_map_token` sees it. -/
def thisToken (line : UInt32) : SourceMapToken Text := ⟨thisName, line⟩

def superTokenAt (line : UInt32) : SourceMapToken Text := ⟨superName, line⟩

/-- The opcodes of a binary operator. -/
def binaryOpcodes : TokenType → List Opcode
  | .star => [.multiply]
  | .slash => [.divide]
  | .plus => [.add]
  | .minus => [.subtract]
  | .less => [.less]
  | .lessEqual => [.greater, .not_]
  | .greater => [.greater]
  | .greaterEqual => [.less, .not_]
  | .equalEqual => [.equal]
  | .bangEqual => [.equal, .not_]
  | _ => []

def isMultiplicationOperator (type : TokenType) : Bool := type = .star || type = .slash

def isAdditionOperator (type : TokenType) : Bool := type = .plus || type = .minus

def isComparisonOperator (type : TokenType) : Bool :=
  type = .less || type = .lessEqual || type = .greater || type = .greaterEqual

def isEqualityOperator (type : TokenType) : Bool := type = .equalEqual || type = .bangEqual

def emitAll : List Opcode → SourceMapToken Text → CompileM N Unit
  | [], _ => return ()
  | opcode :: rest, token => do
      emit opcode token
      emitAll rest token

/-- The loop of a left-associative level: while the current token is an operator,
consume it and do `step`. -/
def whileOperator (isOperator : TokenType → Bool) (step : Token → CompileM N Unit) :
    Nat → CompileM N Unit
  | 0 => throw .outOfFuel
  | fuel + 1 => do
      if isOperator (← current).type then do
        step (← next)
        whileOperator isOperator step fuel
      else return ()

/-- One binary operator: its right operand, then its opcodes. -/
def binaryStep (operand : CompileM N Unit) (operatorToken : Token) : CompileM N Unit := do
  operand
  emitAll (binaryOpcodes operatorToken.type) (sourceMapToken operatorToken)

def andStep (operand : CompileM N Unit) (operatorToken : Token) : CompileM N Unit := do
  let andToken := sourceMapToken operatorToken
  let shortCircuitJumpBackpatch ← emitJump .jumpIfFalse andToken
  emit .pop andToken
  operand
  toNextOpcode shortCircuitJumpBackpatch

def orStep (operand : CompileM N Unit) (operatorToken : Token) : CompileM N Unit := do
  let orToken := sourceMapToken operatorToken
  let toRhsJumpBackpatch ← emitJump .jumpIfFalse orToken
  let toEndJumpBackpatch ← emitJump .jump orToken
  toNextOpcode toRhsJumpBackpatch
  emit .pop orToken
  operand
  toNextOpcode toEndJumpBackpatch

/-- The look-ahead over `(. identifier)*`, on a copy of the iterator. -/
def peekPropertyNames : Nat → TokenIterator → Except Error (List Token × TokenIterator)
  | 0, _ => .error .outOfFuel
  | fuel + 1, peekAhead =>
      if peekAhead.token.type = .dot then do
        let peekAhead ← peekAhead.advance
        ensureTokenIs peekAhead.token .identifier
        let (names, last) ← peekPropertyNames fuel (← peekAhead.advance)
        return (peekAhead.token :: names, last)
      else return ([], peekAhead)

/-- The names between the object and the `=`, and where the look-ahead stopped;
`none` when no assignment follows. -/
def peekAssignment (fuel : Nat) (iter : TokenIterator) :
    Except Error (Option (List Token × TokenIterator)) :=
  if iter.token.type = .identifier || iter.token.type = .this_ then do
    let (names, peekAhead) ← peekPropertyNames fuel (← iter.advance)
    return if peekAhead.token.type = .equal then some (names, peekAhead) else none
  else return none

variable [Number N]

/-- Every name but the last is read, the last one is stored into. -/
def emitPropertyPath : List Token → CompileM N Unit
  | [] => return ()
  | [last] => emitName .setProperty last.lexeme (sourceMapToken last)
  | name :: rest => do
      emitName .getProperty name.lexeme (sourceMapToken name)
      emitPropertyPath rest

def emitAssignment (target : Token) (equalToken : Token) (names : List Token) :
    CompileM N Unit :=
  match names with
  | [] =>
      if target.lexeme = thisName then throw (invalidAssignmentError equalToken.line)
      else emitSetter (sourceMapToken target)
  | names => do
      emitGetter (sourceMapToken target)
      emitPropertyPath names

/-- What `return;` and the end of a body return: the receiver from an initializer,
else nil. -/
def emitDefaultReturnValue (token : SourceMapToken Text) : CompileM N Unit := do
  if (← get).back.isClassInitMethod then emitIndex .getLocal 0 (thisToken token.line)
  else emit .nil token

/-- Makes the function object from what was compiled and emits its closure. -/
def emitFunction (name : Text) (compiled : Nat × FunctionChunk (Chunk.Compiled N))
    (token : SourceMapToken Text) : CompileM N Unit := do
  let function ← makeFunction ⟨name, compiled.1, compiled.2.chunk⟩
  emitClosure function compiled.2.trackedUpvalues token

/-- Defines a global from the value on top of the stack; a local is already in
place. -/
def defineGlobalAtTop (name : Text) (token : SourceMapToken Text) : CompileM N Unit := do
  optionally ((← get).scopeDepth = 0) (emitName .defineGlobal name token)

/-- After `<` and the superclass name: the binding of `super` and `inherit`. -/
def beginSuperclass (classNameToken superclassNameToken : Token) : CompileM N Unit := do
  let superclassToken := sourceMapToken superclassNameToken
  if superclassNameToken.lexeme = classNameToken.lexeme then
    throw (selfInheritanceError superclassNameToken.line)
  else
    -- a placeholder accounts for the slot of a global class, which is not tracked
    optionally ((← get).scopeDepth = 0) (modify fun compiler => { compiler with
      back := { compiler.back with
        trackedLocals := { name := [] } :: compiler.back.trackedLocals } })
    beginScope
    emitGetter superclassToken
    trackLocal (superTokenAt superclassToken.line)
    emit .inherit superclassToken

/-- `maybe_pop_superclass_scope`. -/
def endSuperclass (superclassNameToken : Token) : CompileM N Unit := do
  emit .pop (sourceMapToken superclassNameToken)
  popTopScopeDepth (superTokenAt superclassNameToken.line)
  optionally ((← get).scopeDepth = 0) (modify fun compiler => { compiler with
    back := { compiler.back with trackedLocals := compiler.back.trackedLocals.tail } })

/-- `tracked_locals.back().initialized = true`. -/
def initializeBack : CompileM N Unit :=
  modify fun compiler => { compiler with
    back := { compiler.back with
      trackedLocals := match compiler.back.trackedLocals with
        | [] => []
        | tracked :: rest => { tracked with initialized := true } :: rest } }

/-- `.name` read from the object on the stack; the new callee token. -/
def compileProperty : CompileM N (SourceMapToken Text) := do
  let _ ← next
  let propertyNameToken ← expectCurrent .identifier
  emitName .getProperty propertyNameToken.lexeme (sourceMapToken propertyNameToken)
  return sourceMapToken propertyNameToken

def atEnd (type : TokenType) : Bool := type = .eof

def atBlockEnd (type : TokenType) : Bool := type = .eof || type = .rightBrace

mutual

def compilePrimaryExpression : Nat → CompileM N Unit
  | 0 => throw .outOfFuel
  | fuel + 1 => do
      match (← current).type with
      | .false_ => emit .false_ (sourceMapToken (← next))
      | .fun_ => do
          let funToken := sourceMapToken (← next)
          let compiled ← inFunction false (compileFunctionRest fuel funToken)
          emitFunction [] compiled funToken
      | .identifier => emitGetter (sourceMapToken (← next))
      | .this_ => emitGetter (sourceMapToken (← next))
      | .leftParen => do
          let _ ← next
          compileAssignmentPrecedenceExpression fuel
          let _ ← expectNext .rightParen
          return ()
      | .nil => emit .nil (sourceMapToken (← next))
      | .number => do
          let token ← next
          emitConstant (.number (Number.lexicalCast token.lexeme)) (sourceMapToken token)
      | .string => do
          let token ← next
          emitConstant (.string token.lexeme.tail.dropLast) (sourceMapToken token)
      | .super => do
          let superToken := sourceMapToken (← next)
          emitGetter (thisToken superToken.line)
          emitGetter superToken
          let _ ← expectNext .dot
          let methodNameToken ← expectCurrent .identifier
          emitName .getSuper methodNameToken.lexeme (sourceMapToken methodNameToken)
      | .true_ => emit .true_ (sourceMapToken (← next))
      | _ => throw (unexpectedTokenError (← current))

def compileCallPrecedenceExpression : Nat → CompileM N Unit
  | 0 => throw .outOfFuel
  | fuel + 1 => do
      let calleeToken := sourceMapToken (← current)
      compilePrimaryExpression fuel
      callLoop fuel calleeToken

/-- The loop over `(arguments)` and `.name`; the callee token follows the names. -/
def callLoop : Nat → SourceMapToken Text → CompileM N Unit
  | 0, _ => throw .outOfFuel
  | fuel + 1, calleeToken => do
      match (← current).type with
      | .leftParen => do
          let _ ← next
          let argCount ← compileArguments fuel
          emitCall argCount calleeToken
          -- the second `if` of the same iteration
          if (← current).type = .dot then do
            callLoop fuel (← compileProperty)
          else callLoop fuel calleeToken
      | .dot => do
          callLoop fuel (← compileProperty)
      | _ => return ()

/-- What follows `(` in a call, up to and with `)`; the number of arguments. -/
def compileArguments : Nat → CompileM N Nat
  | 0 => throw .outOfFuel
  | fuel + 1 => do
      if ← advanceIfMatch .rightParen then return 0
      else do
        let argCount ← argumentLoop fuel
        let _ ← expectNext .rightParen
        return argCount

def argumentLoop : Nat → CompileM N Nat
  | 0 => throw .outOfFuel
  | fuel + 1 => do
      compileAssignmentPrecedenceExpression fuel
      if ← advanceIfMatch .comma then return (← argumentLoop fuel) + 1
      else return 1

def compileUnaryPrecedenceExpression : Nat → CompileM N Unit
  | 0 => throw .outOfFuel
  | fuel + 1 => do
      match (← current).type with
      | .minus => do
          let operatorToken := sourceMapToken (← next)
          compileUnaryPrecedenceExpression fuel
          emit .negate operatorToken
      | .bang => do
          let operatorToken := sourceMapToken (← next)
          compileUnaryPrecedenceExpression fuel
          emit .not_ operatorToken
      | _ => compileCallPrecedenceExpression fuel

def compileMultiplicationPrecedenceExpression : Nat → CompileM N Unit
  | 0 => throw .outOfFuel
  | fuel + 1 => do
      compileUnaryPrecedenceExpression fuel
      whileOperator isMultiplicationOperator
        (binaryStep (compileUnaryPrecedenceExpression fuel)) fuel

def compileAdditionPrecedenceExpression : Nat → CompileM N Unit
  | 0 => throw .outOfFuel
  | fuel + 1 => do
      compileMultiplicationPrecedenceExpression fuel
      whileOperator isAdditionOperator
        (binaryStep (compileMultiplicationPrecedenceExpression fuel)) fuel

def compileComparisonPrecedenceExpression : Nat → CompileM N Unit
  | 0 => throw .outOfFuel
  | fuel + 1 => do
      compileAdditionPrecedenceExpression fuel
      whileOperator isComparisonOperator
        (binaryStep (compileAdditionPrecedenceExpression fuel)) fuel

def compileEqualityPrecedenceExpression : Nat → CompileM N Unit
  | 0 => throw .outOfFuel
  | fuel + 1 => do
      compileComparisonPrecedenceExpression fuel
      whileOperator isEqualityOperator
        (binaryStep (compileComparisonPrecedenceExpression fuel)) fuel

def compileAndPrecedenceExpression : Nat → CompileM N Unit
  | 0 => throw .outOfFuel
  | fuel + 1 => do
      compileEqualityPrecedenceExpression fuel
      whileOperator (· = .and_) (andStep (compileEqualityPrecedenceExpression fuel)) fuel

def compileOrPrecedenceExpression : Nat → CompileM N Unit
  | 0 => throw .outOfFuel
  | fuel + 1 => do
      compileAndPrecedenceExpression fuel
      whileOperator (· = .or_) (orStep (compileAndPrecedenceExpression fuel)) fuel

def compileAssignmentPrecedenceExpression : Nat → CompileM N Unit
  | 0 => throw .outOfFuel
  | fuel + 1 => do
      let compiler ← get
      let target := compiler.tokenIter.token
      match ← peekAssignment fuel compiler.tokenIter with
      | some (propertyNameTokens, peekAhead) => do
          set { compiler with tokenIter := peekAhead }
          let equalToken ← next
          compileAssignmentPrecedenceExpression fuel
          emitAssignment target equalToken propertyNameTokens
      | none => compileOrPrecedenceExpression fuel

def compileExpressionStatement : Nat → CompileM N Unit
  | 0 => throw .outOfFuel
  | fuel + 1 => do
      compileAssignmentPrecedenceExpression fuel
      let token ← current
      if token.type = .equal then throw (invalidAssignmentError token.line)
      else do
        let semicolonToken ← expectCurrent .semicolon
        emit .pop (sourceMapToken semicolonToken)

/-- Parameters up to and with `)`; their number. -/
def parameterLoop : Nat → CompileM N Nat
  | 0 => throw .outOfFuel
  | fuel + 1 => do
      trackLocal (sourceMapToken (← expectCurrent .identifier))
      if ← advanceIfMatch .comma then return (← parameterLoop fuel) + 1
      else do
        let _ ← expectNext .rightParen
        return 1

def compileParameters : Nat → CompileM N Nat
  | 0 => throw .outOfFuel
  | fuel + 1 => do
      if ← advanceIfMatch .rightParen then return 0
      else parameterLoop fuel

def compileFunctionRest : Nat → SourceMapToken Text → CompileM N Nat
  | 0, _ => throw .outOfFuel
  | fuel + 1, funSourceMapToken => do
      let _ ← expectNext .leftParen
      let paramCount ← compileParameters fuel
      let _ ← expectNext .leftBrace
      declarationLoop fuel atBlockEnd
      let _ ← expectNext .rightBrace
      emitDefaultReturnValue funSourceMapToken
      emit .return_ funSourceMapToken
      return paramCount

/-- Declarations until the current token is one that ends them. -/
def declarationLoop : Nat → (TokenType → Bool) → CompileM N Unit
  | 0, _ => throw .outOfFuel
  | fuel + 1, isEnd => do
      if isEnd (← current).type then return ()
      else do
        compileDeclaration fuel
        declarationLoop fuel isEnd

def compileIfStatement : Nat → CompileM N Unit
  | 0 => throw .outOfFuel
  | fuel + 1 => do
      let ifToken := sourceMapToken (← next)
      let _ ← expectNext .leftParen
      compileAssignmentPrecedenceExpression fuel
      let _ ← expectNext .rightParen
      let toElseJumpBackpatch ← emitJump .jumpIfFalse ifToken
      emit .pop ifToken
      compileStatement fuel
      let toEndJumpBackpatch ← emitJump .jump ifToken
      toNextOpcode toElseJumpBackpatch
      emit .pop ifToken
      optionally (← advanceIfMatch .else_) (compileStatement fuel)
      toNextOpcode toEndJumpBackpatch

/-- The first clause of `for`. -/
def compileForInitializer : Nat → CompileM N Unit
  | 0 => throw .outOfFuel
  | fuel + 1 => do
      if ← advanceIfMatch .semicolon then return ()
      else if (← current).type = .var then compileDeclaration fuel
      else compileExpressionStatement fuel

def compileForCondition : Nat → SourceMapToken Text → CompileM N Unit
  | 0, _ => throw .outOfFuel
  | fuel + 1, forToken => do
      if ← advanceIfMatch .semicolon then emit .true_ forToken
      else do
        compileAssignmentPrecedenceExpression fuel
        let _ ← expectNext .semicolon
        return ()

def compileForIncrement : Nat → SourceMapToken Text → CompileM N Unit
  | 0, _ => throw .outOfFuel
  | fuel + 1, forToken => do
      if (← current).type = .rightParen then return ()
      else do
        compileAssignmentPrecedenceExpression fuel
        emit .pop forToken

def compileForStatement : Nat → CompileM N Unit
  | 0 => throw .outOfFuel
  | fuel + 1 => do
      let forToken := sourceMapToken (← next)
      beginScope
      let _ ← expectNext .leftParen
      compileForInitializer fuel
      let conditionBeginBytecodeIndex ← bytecodeSize
      compileForCondition fuel forToken
      let toEndJumpBackpatch ← emitJump .jumpIfFalse forToken
      let toBodyJumpBackpatch ← emitJump .jump forToken
      let incrementBeginBytecodeIndex ← bytecodeSize
      compileForIncrement fuel forToken
      let _ ← expectNext .rightParen
      emitLoop conditionBeginBytecodeIndex forToken
      toNextOpcode toBodyJumpBackpatch
      emit .pop forToken
      compileStatement fuel
      emitLoop incrementBeginBytecodeIndex forToken
      toNextOpcode toEndJumpBackpatch
      emit .pop forToken
      popTopScopeDepth forToken

def compileBlock : Nat → CompileM N Unit
  | 0 => throw .outOfFuel
  | fuel + 1 => do
      let _ ← next
      beginScope
      declarationLoop fuel atBlockEnd
      let braceToken ← expectCurrent .rightBrace
      popTopScopeDepth (sourceMapToken braceToken)

def compilePrintStatement : Nat → CompileM N Unit
  | 0 => throw .outOfFuel
  | fuel + 1 => do
      let printToken := sourceMapToken (← next)
      compileAssignmentPrecedenceExpression fuel
      let _ ← expectNext .semicolon
      emit .print printToken

def compileReturnStatement : Nat → CompileM N Unit
  | 0 => throw .outOfFuel
  | fuel + 1 => do
      let compiler ← get
      if compiler.enclosing.isEmpty then throw (topLevelReturnError compiler.tokenIter.token.line)
      else do
        let returnToken := sourceMapToken (← next)
        if ← advanceIfMatch .semicolon then do
          emitDefaultReturnValue returnToken
          emit .return_ returnToken
        else if (← get).back.isClassInitMethod then
          throw (initializerReturnError (← current).line)
        else do
          compileAssignmentPrecedenceExpression fuel
          let _ ← expectNext .semicolon
          emit .return_ returnToken

def compileWhileStatement : Nat → CompileM N Unit
  | 0 => throw .outOfFuel
  | fuel + 1 => do
      let whileToken := sourceMapToken (← next)
      let loopBeginBytecodeIndex ← bytecodeSize
      let _ ← expectNext .leftParen
      compileAssignmentPrecedenceExpression fuel
      let _ ← expectNext .rightParen
      let toEndJumpBackpatch ← emitJump .jumpIfFalse whileToken
      emit .pop whileToken
      compileStatement fuel
      emitLoop loopBeginBytecodeIndex whileToken
      toNextOpcode toEndJumpBackpatch
      emit .pop whileToken

def compileStatement : Nat → CompileM N Unit
  | 0 => throw .outOfFuel
  | fuel + 1 => do
      match (← current).type with
      | .if_ => compileIfStatement fuel
      | .for_ => compileForStatement fuel
      | .leftBrace => compileBlock fuel
      | .print => compilePrintStatement fuel
      | .return_ => compileReturnStatement fuel
      | .while_ => compileWhileStatement fuel
      | _ => compileExpressionStatement fuel

/-- The methods of a class body. -/
def methodLoop : Nat → CompileM N Unit
  | 0 => throw .outOfFuel
  | fuel + 1 => do
      if (← current).type = .identifier then do
        let methodName ← next
        let methodNameToken := sourceMapToken methodName
        let compiled ← inFunction (methodName.lexeme = initName) (do
          trackLocal (thisToken methodNameToken.line)
          compileFunctionRest fuel methodNameToken)
        emitFunction methodName.lexeme compiled methodNameToken
        emitName .method methodName.lexeme methodNameToken
        methodLoop fuel
      else return ()

/-- The class body between its braces, with the braces. -/
def compileClassBody : Nat → CompileM N Unit
  | 0 => throw .outOfFuel
  | fuel + 1 => do
      let _ ← expectNext .leftBrace
      methodLoop fuel
      let _ ← expectNext .rightBrace
      return ()

def compileClassDeclaration : Nat → CompileM N Unit
  | 0 => throw .outOfFuel
  | fuel + 1 => do
      let classToken := sourceMapToken (← next)
      let className ← expectCurrent .identifier
      emitName .class_ className.lexeme classToken
      optionally ((← get).scopeDepth > 0) (trackLocal (sourceMapToken className))
      if ← advanceIfMatch .less then do
        let superclassName ← expectCurrent .identifier
        beginSuperclass className superclassName
        compileClassBody fuel
        endSuperclass superclassName
      else compileClassBody fuel
      defineGlobalAtTop className.lexeme classToken

def compileFunDeclaration : Nat → CompileM N Unit
  | 0 => throw .outOfFuel
  | fuel + 1 => do
      let funToken := sourceMapToken (← next)
      let funName ← expectCurrent .identifier
      let compiled ← inFunction false (do
        trackLocal (sourceMapToken funName)
        compileFunctionRest fuel funToken)
      emitFunction funName.lexeme compiled funToken
      defineGlobalAtTop funName.lexeme funToken
      optionally ((← get).scopeDepth > 0) (trackLocal (sourceMapToken funName))

def compileVarDeclaration : Nat → CompileM N Unit
  | 0 => throw .outOfFuel
  | fuel + 1 => do
      let varToken := sourceMapToken (← next)
      let variableName ← expectCurrent .identifier
      optionally ((← get).scopeDepth > 0) (trackLocal (sourceMapToken variableName) false)
      compileInitializer fuel varToken
      let _ ← expectNext .semicolon
      defineGlobalAtTop variableName.lexeme varToken
      optionally ((← get).scopeDepth > 0) initializeBack

def compileInitializer : Nat → SourceMapToken Text → CompileM N Unit
  | 0, _ => throw .outOfFuel
  | fuel + 1, varToken => do
      if ← advanceIfMatch .equal then compileAssignmentPrecedenceExpression fuel
      else emit .nil varToken

def compileDeclaration : Nat → CompileM N Unit
  | 0 => throw .outOfFuel
  | fuel + 1 => do
      match (← current).type with
      | .class_ => compileClassDeclaration fuel
      | .fun_ => compileFunDeclaration fuel
      | .var => compileVarDeclaration fuel
      | _ => compileStatement fuel

end

/-- `compile`: the functions made, the root script's function last. -/
def compile (fuel : Nat) (source : Text) :
    Except Error (List (Function (Constant N) Text)) := do
  let tokenIter ← TokenIterator.ofSource source
  let (_, compiler) ← (declarationLoop fuel atEnd).run { tokenIter, back := { chunk := {} } }
  return compiler.gcHeap ++ [⟨[], 0, compiler.back.chunk⟩]

end Cpplox
