import Cpplox.Compiler.Compile

namespace Cpplox

/-! The operands a source asks for.

The survey reads a source as the compiler does and tracks the same names, but only counts
bytes where the compiler emits them, and notes whether every operand fits its field. -/

/-- What operands depend on in a chunk. -/
structure Extent (N : Type) where
  constants : List (Constant N) := []
  length : Nat := 0

structure Survey (N : Type) where
  functions : Nat := 0
  tokenIter : TokenIterator
  scopeDepth : Nat := 0
  back : FunctionChunk (Extent N)
  enclosing : List (FunctionChunk (Extent N)) := []
  fits : Bool := true

/-- The state survives an error. -/
abbrev SurveyM (N : Type) := EStateM Error (Survey N)

namespace Survey

variable {N α : Type}

/-- Whether every operand fitted, also when an error came later. -/
def fitsAfter : EStateM.Result Error (Survey N) α → Bool
  | .ok _ last | .error _ last => last.fits

def lift : Except Error α → SurveyM N α
  | .ok value => return value
  | .error error => throw error

def current : SurveyM N Token := return (← get).tokenIter.token

def next : SurveyM N Token := do
  let survey ← get
  let iter ← lift survey.tokenIter.advance
  set { survey with tokenIter := iter }
  return survey.tokenIter.token

def advanceIfMatch (type : TokenType) : SurveyM N Bool := do
  if (← current).type = type then
    let _ ← next
    return true
  else return false

def expectNext (expected : TokenType) : SurveyM N Token := do
  let token ← next
  lift (ensureTokenIs token expected)
  return token

def expectCurrent (expected : TokenType) : SurveyM N Token := do
  lift (ensureTokenIs (← current) expected)
  next

def optionally (condition : Bool) (action : SurveyM N Unit) : SurveyM N Unit :=
  if condition then action else pure ()

/-- An operand for a field with so many values. -/
def ask (values operand : Nat) : SurveyM N Unit :=
  modify fun survey => { survey with fits := survey.fits && operand < values }

def askByte (operand : Nat) : SurveyM N Unit := ask 256 operand

def askShort (operand : Nat) : SurveyM N Unit := ask 65536 operand

def grow (bytes : Nat) : SurveyM N Unit :=
  modify fun survey => { survey with
    back := { survey.back with
      chunk := { survey.back.chunk with length := survey.back.chunk.length + bytes } } }

def length : SurveyM N Nat := return (← get).back.chunk.length

def emitIndex (index : Nat) : SurveyM N Unit := do
  askByte index
  grow 2

def emitJump : SurveyM N Nat := do
  grow 3
  length

def toNextOpcode (jumpBeginIndex : Nat) : SurveyM N Unit := do
  askShort ((← length) - jumpBeginIndex)

def emitLoop (loopBeginBytecodeIndex : Nat) : SurveyM N Unit := do
  grow 3
  askShort ((← length) - loopBeginBytecodeIndex)

def beginScope : SurveyM N Unit :=
  modify fun survey => { survey with scopeDepth := survey.scopeDepth + 1 }

def trackLocal (identifierToken : SourceMapToken Text) (initialized : Bool := true) :
    SurveyM N Unit := do
  let survey ← get
  if isRedeclared survey.back.trackedLocals survey.scopeDepth identifierToken.lexeme then
    throw (redeclaredError identifierToken)
  else
    let tracked : TrackedLocal :=
      { name := identifierToken.lexeme, depth := survey.scopeDepth, initialized }
    set { survey with
      back := { survey.back with trackedLocals := tracked :: survey.back.trackedLocals } }

def popLocals (depth : Nat) : List TrackedLocal → SurveyM N Unit
  | [] => return ()
  | tracked :: rest => do
      if tracked.depth = depth then do
        grow 1
        modify fun survey => { survey with back := { survey.back with trackedLocals := rest } }
        popLocals depth rest
      else return ()

def popTopScopeDepth : SurveyM N Unit := do
  let survey ← get
  popLocals survey.scopeDepth survey.back.trackedLocals
  modify fun survey => { survey with scopeDepth := survey.scopeDepth - 1 }

def inFunction (isClassInitMethod : Bool) (body : SurveyM N α) :
    SurveyM N (α × FunctionChunk (Extent N)) := do
  modify fun survey => { survey with
    scopeDepth := survey.scopeDepth + 1
    back := { chunk := {}, isClassInitMethod }
    enclosing := survey.back :: survey.enclosing }
  let result ← body
  let survey ← get
  match survey.enclosing with
  | [] => throw .outOfFuel
  | outer :: rest =>
      set { survey with scopeDepth := survey.scopeDepth - 1, back := outer, enclosing := rest }
      return (result, survey.back)

variable [Number N]

def askConstant (value : Constant N) : SurveyM N Unit := do
  let survey ← get
  let (index, constants) := insertConstant survey.back.chunk.constants value
  set { survey with
    back := { survey.back with chunk := { survey.back.chunk with constants } } }
  askByte index

def emitConstant (value : Constant N) : SurveyM N Unit := do
  askConstant value
  grow 2

def emitName (identifierName : Text) : SurveyM N Unit := emitConstant (.string identifierName)

def askTrackedUpvalues : List TrackedUpvalue → SurveyM N Unit
  | [] => return ()
  | .upvalueIndex index :: rest | .upUpvalueIndex index :: rest => do
      askByte index
      askTrackedUpvalues rest

/-- A new function and its closure. -/
def makeFunction (isClassInitMethod : Bool) (body : SurveyM N Nat) : SurveyM N Unit := do
  let (_, { trackedUpvalues, .. }) ← inFunction isClassInitMethod body
  let survey ← get
  set { survey with functions := survey.functions + 1 }
  askConstant (.function survey.functions)
  askByte trackedUpvalues.length
  askTrackedUpvalues trackedUpvalues
  grow (3 + 2 * trackedUpvalues.length)

def emitGetter (identifierToken : SourceMapToken Text) : SurveyM N Unit := do
  let survey ← get
  match findLocal survey.back.trackedLocals identifierToken.lexeme with
  | some (index, tracked) =>
      if tracked.initialized then emitIndex index
      else throw (ownInitializerError identifierToken)
  | none =>
      match trackUpvalue identifierToken.lexeme survey.back survey.enclosing with
      | some (index, back, enclosing) =>
          set { survey with back, enclosing }
          emitIndex index
      | none => emitName identifierToken.lexeme

def emitPropertyPath : List Token → SurveyM N Unit
  | [] => return ()
  | name :: rest => do
      emitName name.lexeme
      emitPropertyPath rest

def emitAssignment (target : Token) (equalToken : Token) (names : List Token) : SurveyM N Unit := do
  if names = [] && target.lexeme = thisName then throw (invalidAssignmentError equalToken.line)
  else do
    emitGetter (sourceMapToken target)
    emitPropertyPath names

def emitDefaultReturnValue : SurveyM N Unit := do
  if (← get).back.isClassInitMethod then emitIndex 0 else grow 1

def defineGlobalAtTop (name : Text) : SurveyM N Unit := do
  optionally ((← get).scopeDepth = 0) (emitName name)

def beginSuperclass (classNameToken superclassNameToken : Token) : SurveyM N Unit := do
  let superclassToken := sourceMapToken superclassNameToken
  if superclassNameToken.lexeme = classNameToken.lexeme then
    throw (selfInheritanceError superclassNameToken.line)
  else
    optionally ((← get).scopeDepth = 0) (modify fun survey => { survey with
      back := { survey.back with trackedLocals := { name := [] } :: survey.back.trackedLocals } })
    beginScope
    emitGetter superclassToken
    trackLocal (superTokenAt superclassToken.line)
    grow 1

def endSuperclass : SurveyM N Unit := do
  grow 1
  popTopScopeDepth
  optionally ((← get).scopeDepth = 0) (modify fun survey => { survey with
    back := { survey.back with trackedLocals := survey.back.trackedLocals.tail } })

def initializeBack : SurveyM N Unit :=
  modify fun survey => { survey with
    back := { survey.back with
      trackedLocals := match survey.back.trackedLocals with
        | [] => []
        | tracked :: rest => { tracked with initialized := true } :: rest } }

def property : SurveyM N Unit := do
  let _ ← next
  let propertyNameToken ← expectCurrent .identifier
  emitName propertyNameToken.lexeme

def whileOperator (isOperator : TokenType → Bool) (step : Token → SurveyM N Unit) :
    Nat → SurveyM N Unit
  | 0 => throw .outOfFuel
  | fuel + 1 => do
      if isOperator (← current).type then do
        step (← next)
        whileOperator isOperator step fuel
      else return ()

def binaryStep (operand : SurveyM N Unit) (operatorToken : Token) : SurveyM N Unit := do
  operand
  grow (binaryOpcodes operatorToken.type).length

def andStep (operand : SurveyM N Unit) : SurveyM N Unit := do
  let shortCircuitJumpBackpatch ← emitJump
  grow 1
  operand
  toNextOpcode shortCircuitJumpBackpatch

def orStep (operand : SurveyM N Unit) : SurveyM N Unit := do
  let toRhsJumpBackpatch ← emitJump
  let toEndJumpBackpatch ← emitJump
  toNextOpcode toRhsJumpBackpatch
  grow 1
  operand
  toNextOpcode toEndJumpBackpatch

mutual

def primary : Nat → SurveyM N Unit
  | 0 => throw .outOfFuel
  | fuel + 1 => do
      match (← current).type with
      | .false_ => do
          let _ ← next
          grow 1
      | .fun_ => do
          let _ ← next
          makeFunction false (functionRest fuel)
      | .identifier => do emitGetter (sourceMapToken (← next))
      | .this_ => do emitGetter (sourceMapToken (← next))
      | .leftParen => do
          let _ ← next
          assignment fuel
          let _ ← expectNext .rightParen
          return ()
      | .nil => do
          let _ ← next
          grow 1
      | .number => do
          let token ← next
          emitConstant (.number (Number.lexicalCast token.lexeme))
      | .string => do
          let token ← next
          emitConstant (.string token.lexeme.tail.dropLast)
      | .super => do
          let superToken := sourceMapToken (← next)
          emitGetter (thisToken superToken.line)
          emitGetter superToken
          let _ ← expectNext .dot
          let methodNameToken ← expectCurrent .identifier
          emitName methodNameToken.lexeme
      | .true_ => do
          let _ ← next
          grow 1
      | _ => throw (unexpectedTokenError (← current))

def call : Nat → SurveyM N Unit
  | 0 => throw .outOfFuel
  | fuel + 1 => do
      primary fuel
      callLoop fuel

def callLoop : Nat → SurveyM N Unit
  | 0 => throw .outOfFuel
  | fuel + 1 => do
      match (← current).type with
      | .leftParen => do
          let _ ← next
          emitIndex (← arguments fuel)
          if (← current).type = .dot then do
            property
            callLoop fuel
          else callLoop fuel
      | .dot => do
          property
          callLoop fuel
      | _ => return ()

def arguments : Nat → SurveyM N Nat
  | 0 => throw .outOfFuel
  | fuel + 1 => do
      if ← advanceIfMatch .rightParen then return 0
      else do
        let argCount ← argumentLoop fuel
        let _ ← expectNext .rightParen
        return argCount

def argumentLoop : Nat → SurveyM N Nat
  | 0 => throw .outOfFuel
  | fuel + 1 => do
      assignment fuel
      if ← advanceIfMatch .comma then return (← argumentLoop fuel) + 1
      else return 1

def unary : Nat → SurveyM N Unit
  | 0 => throw .outOfFuel
  | fuel + 1 => do
      match (← current).type with
      | .minus => do
          let _ ← next
          unary fuel
          grow 1
      | .bang => do
          let _ ← next
          unary fuel
          grow 1
      | _ => call fuel

def multiplication : Nat → SurveyM N Unit
  | 0 => throw .outOfFuel
  | fuel + 1 => do
      unary fuel
      whileOperator isMultiplicationOperator (binaryStep (unary fuel)) fuel

def addition : Nat → SurveyM N Unit
  | 0 => throw .outOfFuel
  | fuel + 1 => do
      multiplication fuel
      whileOperator isAdditionOperator (binaryStep (multiplication fuel)) fuel

def comparison : Nat → SurveyM N Unit
  | 0 => throw .outOfFuel
  | fuel + 1 => do
      addition fuel
      whileOperator isComparisonOperator (binaryStep (addition fuel)) fuel

def equality : Nat → SurveyM N Unit
  | 0 => throw .outOfFuel
  | fuel + 1 => do
      comparison fuel
      whileOperator isEqualityOperator (binaryStep (comparison fuel)) fuel

def and_ : Nat → SurveyM N Unit
  | 0 => throw .outOfFuel
  | fuel + 1 => do
      equality fuel
      whileOperator (· = .and_) (fun _ => andStep (equality fuel)) fuel

def or_ : Nat → SurveyM N Unit
  | 0 => throw .outOfFuel
  | fuel + 1 => do
      and_ fuel
      whileOperator (· = .or_) (fun _ => orStep (and_ fuel)) fuel

def assignment : Nat → SurveyM N Unit
  | 0 => throw .outOfFuel
  | fuel + 1 => do
      let survey ← get
      match ← lift (peekAssignment fuel survey.tokenIter) with
      | some (propertyNameTokens, peekAhead) => do
          set { survey with tokenIter := peekAhead }
          let equalToken ← next
          assignment fuel
          emitAssignment survey.tokenIter.token equalToken propertyNameTokens
      | none => or_ fuel

def expressionStatement : Nat → SurveyM N Unit
  | 0 => throw .outOfFuel
  | fuel + 1 => do
      assignment fuel
      let token ← current
      if token.type = .equal then throw (invalidAssignmentError token.line)
      else do
        let _ ← expectCurrent .semicolon
        grow 1

def parameterLoop : Nat → SurveyM N Nat
  | 0 => throw .outOfFuel
  | fuel + 1 => do
      trackLocal (sourceMapToken (← expectCurrent .identifier))
      if ← advanceIfMatch .comma then return (← parameterLoop fuel) + 1
      else do
        let _ ← expectNext .rightParen
        return 1

def parameters : Nat → SurveyM N Nat
  | 0 => throw .outOfFuel
  | fuel + 1 => do
      if ← advanceIfMatch .rightParen then return 0
      else parameterLoop fuel

def functionRest : Nat → SurveyM N Nat
  | 0 => throw .outOfFuel
  | fuel + 1 => do
      let _ ← expectNext .leftParen
      let paramCount ← parameters fuel
      let _ ← expectNext .leftBrace
      declarationLoop fuel atBlockEnd
      let _ ← expectNext .rightBrace
      emitDefaultReturnValue
      grow 1
      return paramCount

def declarationLoop : Nat → (TokenType → Bool) → SurveyM N Unit
  | 0, _ => throw .outOfFuel
  | fuel + 1, isEnd => do
      if isEnd (← current).type then return ()
      else do
        declaration fuel
        declarationLoop fuel isEnd

def ifStatement : Nat → SurveyM N Unit
  | 0 => throw .outOfFuel
  | fuel + 1 => do
      let _ ← next
      let _ ← expectNext .leftParen
      assignment fuel
      let _ ← expectNext .rightParen
      let toElseJumpBackpatch ← emitJump
      grow 1
      statement fuel
      let toEndJumpBackpatch ← emitJump
      toNextOpcode toElseJumpBackpatch
      grow 1
      optionally (← advanceIfMatch .else_) (statement fuel)
      toNextOpcode toEndJumpBackpatch

def forInitializer : Nat → SurveyM N Unit
  | 0 => throw .outOfFuel
  | fuel + 1 => do
      if ← advanceIfMatch .semicolon then return ()
      else if (← current).type = .var then declaration fuel
      else expressionStatement fuel

def forCondition : Nat → SurveyM N Unit
  | 0 => throw .outOfFuel
  | fuel + 1 => do
      if ← advanceIfMatch .semicolon then grow 1
      else do
        assignment fuel
        let _ ← expectNext .semicolon
        return ()

def forIncrement : Nat → SurveyM N Unit
  | 0 => throw .outOfFuel
  | fuel + 1 => do
      if (← current).type = .rightParen then return ()
      else do
        assignment fuel
        grow 1

def forStatement : Nat → SurveyM N Unit
  | 0 => throw .outOfFuel
  | fuel + 1 => do
      let _ ← next
      beginScope
      let _ ← expectNext .leftParen
      forInitializer fuel
      let conditionBeginBytecodeIndex ← length
      forCondition fuel
      let toEndJumpBackpatch ← emitJump
      let toBodyJumpBackpatch ← emitJump
      let incrementBeginBytecodeIndex ← length
      forIncrement fuel
      let _ ← expectNext .rightParen
      emitLoop conditionBeginBytecodeIndex
      toNextOpcode toBodyJumpBackpatch
      grow 1
      statement fuel
      emitLoop incrementBeginBytecodeIndex
      toNextOpcode toEndJumpBackpatch
      grow 1
      popTopScopeDepth

def block : Nat → SurveyM N Unit
  | 0 => throw .outOfFuel
  | fuel + 1 => do
      let _ ← next
      beginScope
      declarationLoop fuel atBlockEnd
      let _ ← expectCurrent .rightBrace
      popTopScopeDepth

def printStatement : Nat → SurveyM N Unit
  | 0 => throw .outOfFuel
  | fuel + 1 => do
      let _ ← next
      assignment fuel
      let _ ← expectNext .semicolon
      grow 1

def returnStatement : Nat → SurveyM N Unit
  | 0 => throw .outOfFuel
  | fuel + 1 => do
      let survey ← get
      if survey.enclosing.isEmpty then throw (topLevelReturnError survey.tokenIter.token.line)
      else do
        let _ ← next
        if ← advanceIfMatch .semicolon then do
          emitDefaultReturnValue
          grow 1
        else if (← get).back.isClassInitMethod then
          throw (initializerReturnError (← current).line)
        else do
          assignment fuel
          let _ ← expectNext .semicolon
          grow 1

def whileStatement : Nat → SurveyM N Unit
  | 0 => throw .outOfFuel
  | fuel + 1 => do
      let _ ← next
      let loopBeginBytecodeIndex ← length
      let _ ← expectNext .leftParen
      assignment fuel
      let _ ← expectNext .rightParen
      let toEndJumpBackpatch ← emitJump
      grow 1
      statement fuel
      emitLoop loopBeginBytecodeIndex
      toNextOpcode toEndJumpBackpatch
      grow 1

def statement : Nat → SurveyM N Unit
  | 0 => throw .outOfFuel
  | fuel + 1 => do
      match (← current).type with
      | .if_ => ifStatement fuel
      | .for_ => forStatement fuel
      | .leftBrace => block fuel
      | .print => printStatement fuel
      | .return_ => returnStatement fuel
      | .while_ => whileStatement fuel
      | _ => expressionStatement fuel

def methodLoop : Nat → SurveyM N Unit
  | 0 => throw .outOfFuel
  | fuel + 1 => do
      if (← current).type = .identifier then do
        let methodName ← next
        makeFunction (methodName.lexeme = initName) (do
          trackLocal (thisToken methodName.line)
          functionRest fuel)
        emitName methodName.lexeme
        methodLoop fuel
      else return ()

def classBody : Nat → SurveyM N Unit
  | 0 => throw .outOfFuel
  | fuel + 1 => do
      let _ ← expectNext .leftBrace
      methodLoop fuel
      let _ ← expectNext .rightBrace
      return ()

def classDeclaration : Nat → SurveyM N Unit
  | 0 => throw .outOfFuel
  | fuel + 1 => do
      let _ ← next
      let className ← expectCurrent .identifier
      emitName className.lexeme
      optionally ((← get).scopeDepth > 0) (trackLocal (sourceMapToken className))
      if ← advanceIfMatch .less then do
        let superclassName ← expectCurrent .identifier
        beginSuperclass className superclassName
        classBody fuel
        endSuperclass
      else classBody fuel
      defineGlobalAtTop className.lexeme

def funDeclaration : Nat → SurveyM N Unit
  | 0 => throw .outOfFuel
  | fuel + 1 => do
      let _ ← next
      let funName ← expectCurrent .identifier
      makeFunction false (do
        trackLocal (sourceMapToken funName)
        functionRest fuel)
      defineGlobalAtTop funName.lexeme
      optionally ((← get).scopeDepth > 0) (trackLocal (sourceMapToken funName))

def varDeclaration : Nat → SurveyM N Unit
  | 0 => throw .outOfFuel
  | fuel + 1 => do
      let _ ← next
      let variableName ← expectCurrent .identifier
      optionally ((← get).scopeDepth > 0) (trackLocal (sourceMapToken variableName) false)
      initializer fuel
      let _ ← expectNext .semicolon
      defineGlobalAtTop variableName.lexeme
      optionally ((← get).scopeDepth > 0) initializeBack

def initializer : Nat → SurveyM N Unit
  | 0 => throw .outOfFuel
  | fuel + 1 => do
      if ← advanceIfMatch .equal then assignment fuel
      else grow 1

def declaration : Nat → SurveyM N Unit
  | 0 => throw .outOfFuel
  | fuel + 1 => do
      match (← current).type with
      | .class_ => classDeclaration fuel
      | .fun_ => funDeclaration fuel
      | .var => varDeclaration fuel
      | _ => statement fuel

end

/-- Whether every operand fits up to the end of the source, or up to its first error. -/
def operandsFit (N : Type) [Number N] (fuel : Nat) (source : Text) : Bool :=
  match TokenIterator.ofSource source with
  | .error _ => true
  | .ok tokenIter =>
      fitsAfter (declarationLoop fuel atEnd ({ tokenIter, back := { chunk := {} } } : Survey N))

end Survey

end Cpplox
