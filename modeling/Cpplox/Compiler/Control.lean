import Cpplox.Compiler.Terminates
import Cpplox.Data.Contracts

namespace Cpplox

open Data Routine

/-! The compiler's functions as routines: its actions one by one, and the calls between
its functions.

What a function of the compiler does is what the machine does with its routine, so runs of
the machine show the states that the compiler goes through and which calls are active. -/

/-- The functions and the scopes, with what they are called with. -/
inductive Proc where
  | primary | call | callLoop (calleeToken : SourceMapToken Text) | arguments | argumentLoop | unary
  | level (level : Level) | operatorLoop (level : Level)
  | assignment | expressionStatement
  | parameterLoop | parameters | functionRest (funSourceMapToken : SourceMapToken Text)
  | declarationLoop (isEnd : TokenType → Bool)
  | ifStatement | forInitializer | forCondition (forToken : SourceMapToken Text)
  | forIncrement (forToken : SourceMapToken Text) | forStatement | block
  | printStatement | returnStatement | whileStatement | statement
  | methodLoop | classBody | classDeclaration | funDeclaration | varDeclaration
  | initializer (varToken : SourceMapToken Text) | declaration
  | blockScope | forScope (forToken : SourceMapToken Text) | superclassScope (superclassName : Token)
  | function (isClassInitMethod : Bool) (first : Option (SourceMapToken Text))
    (funSourceMapToken : SourceMapToken Text)

@[reducible] def Proc.Result (N : Type) : Proc → Type
  | arguments | argumentLoop | parameterLoop | parameters | functionRest _ => Nat
  | function _ _ _ => Nat × FunctionChunk (Chunk.Compiled N)
  | _ => Unit

abbrev Control (N α : Type) := Routine (Compiler N) Error (Proc.Result N) α

namespace Control

variable {N α : Type}

/-- A call of one of the functions. -/
abbrev call (procedure : Proc) : Control N (procedure.Result N) := invoke procedure

def optionally (condition : Bool) (routine : Control N Unit) : Control N Unit :=
  if condition then routine else pure ()

/-- `popLocals`, one local after the other. -/
def popLocals (depth : Nat) (token : SourceMapToken Text) : List TrackedLocal → Control N Unit
  | [] => return ()
  | tracked :: rest =>
      if tracked.depth = depth then do
        perform (emit (if tracked.isCaptured then .closeUpvalue else .pop) token)
        perform (modify fun compiler => { compiler with
          back := { compiler.back with trackedLocals := rest } })
        popLocals depth token rest
      else return ()

/-- `pop_top_scope_depth`. -/
def popTopScopeDepth (token : SourceMapToken Text) : Control N Unit := do
  let compiler ← perform get
  popLocals compiler.scopeDepth token compiler.back.trackedLocals
  perform (modify fun compiler => { compiler with scopeDepth := compiler.scopeDepth - 1 })

/-- A scope of a block, a `for` or a superclass. -/
def inScope (inside : Control N α) (token : α → SourceMapToken Text) : Control N Unit := do
  perform beginScope
  let value ← inside
  popTopScopeDepth (token value)

def enterFunction (isClassInitMethod : Bool) : CompileM N Unit :=
  modify fun compiler => { compiler with
    scopeDepth := compiler.scopeDepth + 1
    back := { chunk := {}, isClassInitMethod }
    enclosing := compiler.back :: compiler.enclosing }

def leaveFunction (result : α) : CompileM N (α × FunctionChunk (Chunk.Compiled N)) := do
  let compiler ← get
  match compiler.enclosing with
  | [] => throw .outOfFuel
  | outer :: rest =>
      set { compiler with
        scopeDepth := compiler.scopeDepth - 1, back := outer, enclosing := rest }
      return (result, compiler.back)

def inFunction (isClassInitMethod : Bool) (inside : Control N α) :
    Control N (α × FunctionChunk (Chunk.Compiled N)) := do
  perform (enterFunction isClassInitMethod)
  let result ← inside
  perform (leaveFunction result)

/-- The look-ahead, whose copy of the iterator reads no more than what remains. -/
def lookAhead (iter : TokenIterator) : CompileM N (Option (List Token × TokenIterator)) :=
  liftM (peekAssignment (iter.remaining + 1) iter)

def pushPlaceholder : CompileM N Unit :=
  modify fun compiler => { compiler with
    back := { compiler.back with trackedLocals := { name := [] } :: compiler.back.trackedLocals } }

def popPlaceholder : CompileM N Unit :=
  modify fun compiler => { compiler with
    back := { compiler.back with trackedLocals := compiler.back.trackedLocals.tail } }

def ensureOtherClass (classNameToken superclassNameToken : Token) : CompileM N Unit :=
  if superclassNameToken.lexeme = classNameToken.lexeme then
    throw (selfInheritanceError superclassNameToken.line)
  else pure ()

def callOperand (level : Level) : Control N Unit :=
  match level with
  | .factor => call .unary
  | .or_ => call (.level .and_)
  | .and_ => call (.level .equality)
  | .equality => call (.level .comparison)
  | .comparison => call (.level .term)
  | .term => call (.level .factor)

/-- What follows an operator of a level. -/
def operatorStep (level : Level) (operatorToken : Token) : Control N Unit :=
  match level with
  | .or_ => do
      let orToken := sourceMapToken operatorToken
      let toRhsJumpBackpatch ← perform (emitJump .jumpIfFalse orToken)
      let toEndJumpBackpatch ← perform (emitJump .jump orToken)
      perform (toNextOpcode toRhsJumpBackpatch)
      perform (emit .pop orToken)
      callOperand .or_
      perform (toNextOpcode toEndJumpBackpatch)
  | .and_ => do
      let andToken := sourceMapToken operatorToken
      let shortCircuitJumpBackpatch ← perform (emitJump .jumpIfFalse andToken)
      perform (emit .pop andToken)
      callOperand .and_
      perform (toNextOpcode shortCircuitJumpBackpatch)
  | level => do
      callOperand level
      perform (emitAll (binaryOpcodes operatorToken.type) (sourceMapToken operatorToken))

section

variable [Number N]

/-- `.name` read from the object on the stack, as in `compileProperty`. -/
def property : Control N (SourceMapToken Text) := do
  let _ ← perform next
  let propertyNameToken ← perform (expectCurrent .identifier)
  perform (emitName .getProperty propertyNameToken.lexeme (sourceMapToken propertyNameToken))
  return sourceMapToken propertyNameToken

def primary : Control N Unit := do
  match (← perform current).type with
  | .false_ => do
      let token ← perform next
      perform (emit .false_ (sourceMapToken token))
  | .fun_ => do
      let funToken := sourceMapToken (← perform next)
      let compiled ← call (.function false none funToken)
      perform (emitFunction [] compiled funToken)
  | .identifier => do
      let token ← perform next
      perform (emitGetter (sourceMapToken token))
  | .this_ => do
      let token ← perform next
      perform (emitGetter (sourceMapToken token))
  | .leftParen => do
      let _ ← perform next
      call .assignment
      let _ ← perform (expectNext .rightParen)
      return ()
  | .nil => do
      let token ← perform next
      perform (emit .nil (sourceMapToken token))
  | .number => do
      let token ← perform next
      perform (emitConstant (.number (Number.lexicalCast token.lexeme)) (sourceMapToken token))
  | .string => do
      let token ← perform next
      perform (emitConstant (.string token.lexeme.tail.dropLast) (sourceMapToken token))
  | .super => do
      let superToken := sourceMapToken (← perform next)
      perform (emitGetter (thisToken superToken.line))
      perform (emitGetter superToken)
      let _ ← perform (expectNext .dot)
      let methodNameToken ← perform (expectCurrent .identifier)
      perform (emitName .getSuper methodNameToken.lexeme (sourceMapToken methodNameToken))
  | .true_ => do
      let token ← perform next
      perform (emit .true_ (sourceMapToken token))
  | _ => do
      let token ← perform current
      perform (throw (unexpectedTokenError token))

def callLoop (calleeToken : SourceMapToken Text) : Control N Unit := do
  match (← perform current).type with
  | .leftParen => do
      let _ ← perform next
      let argCount ← call .arguments
      perform (emitCall argCount calleeToken)
      if (← perform current).type = .dot then do
        let calleeToken ← property
        call (.callLoop calleeToken)
      else call (.callLoop calleeToken)
  | .dot => do
      let calleeToken ← property
      call (.callLoop calleeToken)
  | _ => return ()

def arguments : Control N Nat := do
  if ← perform (advanceIfMatch .rightParen) then return 0
  else do
    let argCount ← call .argumentLoop
    let _ ← perform (expectNext .rightParen)
    return argCount

def argumentLoop : Control N Nat := do
  call .assignment
  if ← perform (advanceIfMatch .comma) then do
    let argCount ← call .argumentLoop
    return argCount + 1
  else return 1

def unary : Control N Unit := do
  match (← perform current).type with
  | .minus => do
      let operatorToken := sourceMapToken (← perform next)
      call .unary
      perform (emit .negate operatorToken)
  | .bang => do
      let operatorToken := sourceMapToken (← perform next)
      call .unary
      perform (emit .not_ operatorToken)
  | _ => call .call

def operatorLoop (level : Level) : Control N Unit := do
  if level.isOperator (← perform current).type then do
    operatorStep level (← perform next)
    call (.operatorLoop level)
  else return ()

def assignment : Control N Unit := do
  let compiler ← perform get
  let target := compiler.tokenIter.token
  match ← perform (lookAhead compiler.tokenIter) with
  | some (propertyNameTokens, peekAhead) => do
      perform (set { compiler with tokenIter := peekAhead })
      let equalToken ← perform next
      call .assignment
      perform (emitAssignment target equalToken propertyNameTokens)
  | none => call (.level .or_)

def expressionStatement : Control N Unit := do
  call .assignment
  let token ← perform current
  if token.type = .equal then perform (throw (invalidAssignmentError token.line))
  else do
    let semicolonToken ← perform (expectCurrent .semicolon)
    perform (emit .pop (sourceMapToken semicolonToken))

def parameterLoop : Control N Nat := do
  let parameterToken ← perform (expectCurrent .identifier)
  perform (trackLocal (sourceMapToken parameterToken))
  if ← perform (advanceIfMatch .comma) then do
    let paramCount ← call .parameterLoop
    return paramCount + 1
  else do
    let _ ← perform (expectNext .rightParen)
    return 1

def functionRest (funSourceMapToken : SourceMapToken Text) : Control N Nat := do
  let _ ← perform (expectNext .leftParen)
  let paramCount ← call .parameters
  let _ ← perform (expectNext .leftBrace)
  call (.declarationLoop atBlockEnd)
  let _ ← perform (expectNext .rightBrace)
  perform (emitDefaultReturnValue funSourceMapToken)
  perform (emit .return_ funSourceMapToken)
  return paramCount

/-- What the scope of a function holds: the local in its first slot and its parameters. -/
def functionScope (first : Option (SourceMapToken Text)) (funSourceMapToken : SourceMapToken Text) :
    Control N Nat :=
  match first with
  | none => call (.functionRest funSourceMapToken)
  | some token => do
      perform (trackLocal token)
      call (.functionRest funSourceMapToken)

def ifStatement : Control N Unit := do
  let ifToken := sourceMapToken (← perform next)
  let _ ← perform (expectNext .leftParen)
  call .assignment
  let _ ← perform (expectNext .rightParen)
  let toElseJumpBackpatch ← perform (emitJump .jumpIfFalse ifToken)
  perform (emit .pop ifToken)
  call .statement
  let toEndJumpBackpatch ← perform (emitJump .jump ifToken)
  perform (toNextOpcode toElseJumpBackpatch)
  perform (emit .pop ifToken)
  optionally (← perform (advanceIfMatch .else_)) (call .statement)
  perform (toNextOpcode toEndJumpBackpatch)

/-- What the scope of a `for` holds. -/
def forScope (forToken : SourceMapToken Text) : Control N Unit := do
  let _ ← perform (expectNext .leftParen)
  call .forInitializer
  let conditionBeginBytecodeIndex ← perform bytecodeSize
  call (.forCondition forToken)
  let toEndJumpBackpatch ← perform (emitJump .jumpIfFalse forToken)
  let toBodyJumpBackpatch ← perform (emitJump .jump forToken)
  let incrementBeginBytecodeIndex ← perform bytecodeSize
  call (.forIncrement forToken)
  let _ ← perform (expectNext .rightParen)
  perform (emitLoop conditionBeginBytecodeIndex forToken)
  perform (toNextOpcode toBodyJumpBackpatch)
  perform (emit .pop forToken)
  call .statement
  perform (emitLoop incrementBeginBytecodeIndex forToken)
  perform (toNextOpcode toEndJumpBackpatch)
  perform (emit .pop forToken)

/-- What the scope of a block holds; the token that it is closed with. -/
def blockScope : Control N Token := do
  call (.declarationLoop atBlockEnd)
  perform (expectCurrent .rightBrace)

def returnStatement : Control N Unit := do
  let compiler ← perform get
  if compiler.enclosing.isEmpty then
    perform (throw (topLevelReturnError compiler.tokenIter.token.line))
  else do
    let returnToken := sourceMapToken (← perform next)
    if ← perform (advanceIfMatch .semicolon) then do
      perform (emitDefaultReturnValue returnToken)
      perform (emit .return_ returnToken)
    else do
      let compiler ← perform get
      if compiler.back.isClassInitMethod then do
        let token ← perform current
        perform (throw (initializerReturnError token.line))
      else do
        call .assignment
        let _ ← perform (expectNext .semicolon)
        perform (emit .return_ returnToken)

def whileStatement : Control N Unit := do
  let whileToken := sourceMapToken (← perform next)
  let loopBeginBytecodeIndex ← perform bytecodeSize
  let _ ← perform (expectNext .leftParen)
  call .assignment
  let _ ← perform (expectNext .rightParen)
  let toEndJumpBackpatch ← perform (emitJump .jumpIfFalse whileToken)
  perform (emit .pop whileToken)
  call .statement
  perform (emitLoop loopBeginBytecodeIndex whileToken)
  perform (toNextOpcode toEndJumpBackpatch)
  perform (emit .pop whileToken)

def statement : Control N Unit := do
  match (← perform current).type with
  | .if_ => call .ifStatement
  | .for_ => call .forStatement
  | .leftBrace => call .block
  | .print => call .printStatement
  | .return_ => call .returnStatement
  | .while_ => call .whileStatement
  | _ => call .expressionStatement

def methodLoop : Control N Unit := do
  if (← perform current).type = .identifier then do
    let methodName ← perform next
    let methodNameToken := sourceMapToken methodName
    let compiled ← call (.function (methodName.lexeme = initName)
      (some (thisToken methodNameToken.line)) methodNameToken)
    perform (emitFunction methodName.lexeme compiled methodNameToken)
    perform (emitName .method methodName.lexeme methodNameToken)
    call .methodLoop
  else return ()

/-- What the scope of a superclass holds. -/
def superclassScope (superclassToken : SourceMapToken Text) : Control N Unit := do
  perform (emitGetter superclassToken)
  perform (trackLocal (superTokenAt superclassToken.line))
  perform (emit .inherit superclassToken)
  call .classBody
  perform (emit .pop superclassToken)

/-- The class body of a class that names a superclass. -/
def subclass (className superclassName : Token) : Control N Unit := do
  perform (ensureOtherClass className superclassName)
  let compiler ← perform get
  perform (Cpplox.optionally (compiler.scopeDepth = 0) pushPlaceholder)
  call (.superclassScope superclassName)
  let compiler ← perform get
  perform (Cpplox.optionally (compiler.scopeDepth = 0) popPlaceholder)

def classDeclaration : Control N Unit := do
  let classToken := sourceMapToken (← perform next)
  let className ← perform (expectCurrent .identifier)
  perform (emitName .class_ className.lexeme classToken)
  let compiler ← perform get
  perform (Cpplox.optionally (compiler.scopeDepth > 0) (trackLocal (sourceMapToken className)))
  if ← perform (advanceIfMatch .less) then do
    let superclassName ← perform (expectCurrent .identifier)
    subclass className superclassName
  else call .classBody
  perform (defineGlobalAtTop className.lexeme classToken)

def funDeclaration : Control N Unit := do
  let funToken := sourceMapToken (← perform next)
  let funName ← perform (expectCurrent .identifier)
  let compiled ← call (.function false (some (sourceMapToken funName)) funToken)
  perform (emitFunction funName.lexeme compiled funToken)
  perform (defineGlobalAtTop funName.lexeme funToken)
  let compiler ← perform get
  perform (Cpplox.optionally (compiler.scopeDepth > 0) (trackLocal (sourceMapToken funName)))

/-- The value of a variable, up to and with the semicolon. -/
def variableValue (varToken : SourceMapToken Text) (variableName : Token) : Control N Unit := do
  call (.initializer varToken)
  let _ ← perform (expectNext .semicolon)
  perform (defineGlobalAtTop variableName.lexeme varToken)

def varDeclaration : Control N Unit := do
  let varToken := sourceMapToken (← perform next)
  let variableName ← perform (expectCurrent .identifier)
  let compiler ← perform get
  perform (Cpplox.optionally (compiler.scopeDepth > 0) (trackLocal (sourceMapToken variableName) false))
  variableValue varToken variableName
  let compiler ← perform get
  perform (Cpplox.optionally (compiler.scopeDepth > 0) initializeBack)

/-- What the functions do. -/
def body : (procedure : Proc) → Control N (procedure.Result N)
  | .primary => primary
  | .call => do
      let calleeToken := sourceMapToken (← perform current)
      call .primary
      call (.callLoop calleeToken)
  | .callLoop calleeToken => callLoop calleeToken
  | .arguments => arguments
  | .argumentLoop => argumentLoop
  | .unary => unary
  | .level level => do
      callOperand level
      call (.operatorLoop level)
  | .operatorLoop level => operatorLoop level
  | .assignment => assignment
  | .expressionStatement => expressionStatement
  | .parameterLoop => parameterLoop
  | .parameters => do
      if ← perform (advanceIfMatch .rightParen) then return (0 : Nat)
      else call .parameterLoop
  | .functionRest funSourceMapToken => functionRest funSourceMapToken
  | .declarationLoop isEnd => do
      if isEnd (← perform current).type then return ()
      else do
        call .declaration
        call (.declarationLoop isEnd)
  | .ifStatement => ifStatement
  | .forInitializer => do
      if ← perform (advanceIfMatch .semicolon) then return ()
      else if (← perform current).type = .var then call .declaration
      else call .expressionStatement
  | .forCondition forToken => do
      if ← perform (advanceIfMatch .semicolon) then perform (emit .true_ forToken)
      else do
        call .assignment
        let _ ← perform (expectNext .semicolon)
        return ()
  | .forIncrement forToken => do
      if (← perform current).type = .rightParen then return ()
      else do
        call .assignment
        perform (emit .pop forToken)
  | .forStatement => do
      let forToken := sourceMapToken (← perform next)
      call (.forScope forToken)
  | .block => do
      let _ ← perform next
      call .blockScope
  | .printStatement => do
      let printToken := sourceMapToken (← perform next)
      call .assignment
      let _ ← perform (expectNext .semicolon)
      perform (emit .print printToken)
  | .returnStatement => returnStatement
  | .whileStatement => whileStatement
  | .statement => statement
  | .methodLoop => methodLoop
  | .classBody => do
      let _ ← perform (expectNext .leftBrace)
      call .methodLoop
      let _ ← perform (expectNext .rightBrace)
      return ()
  | .classDeclaration => classDeclaration
  | .funDeclaration => funDeclaration
  | .varDeclaration => varDeclaration
  | .initializer varToken => do
      if ← perform (advanceIfMatch .equal) then call .assignment
      else perform (emit .nil varToken)
  | .declaration => do
      match (← perform current).type with
      | .class_ => call .classDeclaration
      | .fun_ => call .funDeclaration
      | .var => call .varDeclaration
      | _ => call .statement
  | .blockScope => inScope blockScope sourceMapToken
  | .forScope forToken => inScope (forScope forToken) fun _ => forToken
  | .superclassScope superclassName =>
      inScope (superclassScope (sourceMapToken superclassName))
        fun _ => superTokenAt superclassName.line
  | .function isClassInitMethod first funSourceMapToken =>
      inFunction isClassInitMethod (functionScope first funSourceMapToken)

end

end Control

end Cpplox
