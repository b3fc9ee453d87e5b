import Cpplox.Compiler.Scope

namespace Cpplox

/-! The state of `struct Compiler` and its helpers. -/

/-- `gc_heap` is what `compile` uses of the heap: the functions made so far.
`function_chunks` is `back` and, innermost first, `enclosing`. -/
structure Compiler (N : Type) where
  gcHeap : List (Function (Constant N) Text) := []
  tokenIter : TokenIterator
  scopeDepth : Nat := 0
  back : FunctionChunk (Chunk.Compiled N)
  enclosing : List (FunctionChunk (Chunk.Compiled N)) := []

abbrev CompileM (N : Type) := StateT (Compiler N) (Except Error)

def ensureTokenIs (token : Token) (expected : TokenType) : Except Error Unit :=
  if token.type = expected then .ok ()
  else .error (.runtimeError (atLine token.line.toNat ++ " at \"".toList ++ token.lexeme ++
    "\": Expected ".toList ++ expected.text ++ ".".toList))

def sourceMapToken (token : Token) : SourceMapToken Text := ⟨token.lexeme, token.line⟩

variable {N : Type}

/-- `*token_iter`. -/
def current : CompileM N Token := return (← get).tokenIter.token

/-- `*token_iter++`. -/
def next : CompileM N Token := do
  let compiler ← get
  let iter ← compiler.tokenIter.advance
  set { compiler with tokenIter := iter }
  return compiler.tokenIter.token

def advanceIfMatch (type : TokenType) : CompileM N Bool := do
  if (← current).type = type then
    let _ ← next
    return true
  else return false

/-- `ensure_token_is(*token_iter++, expected)`. -/
def expectNext (expected : TokenType) : CompileM N Token := do
  let token ← next
  ensureTokenIs token expected
  return token

/-- `ensure_token_is(*token_iter, expected)` and then `*token_iter++`. -/
def expectCurrent (expected : TokenType) : CompileM N Token := do
  ensureTokenIs (← current) expected
  next

/-- An `if` without `else`. -/
def optionally (condition : Bool) (action : CompileM N Unit) : CompileM N Unit :=
  if condition then action else pure ()

/-- Emits into `function_chunks.back()->chunk`. -/
def emitWith (emission : Chunk.Compiled N → Except Error (Chunk.Compiled N)) :
    CompileM N Unit := do
  let compiler ← get
  let chunk ← emission compiler.back.chunk
  set { compiler with back := { compiler.back with chunk } }

def emit (opcode : Opcode) (token : SourceMapToken Text) : CompileM N Unit :=
  emitWith fun chunk => .ok (chunk.emit opcode token)

def emitIndex (opcode : Opcode) (index : Nat) (token : SourceMapToken Text) : CompileM N Unit :=
  emitWith fun chunk => chunk.emitIndex opcode index token

def emitCall (argCount : Nat) (token : SourceMapToken Text) : CompileM N Unit :=
  emitWith fun chunk => chunk.emitCall argCount token

/-- Returns the backpatch of the new jump. -/
def emitJump (opcode : Opcode) (token : SourceMapToken Text) : CompileM N Nat := do
  let compiler ← get
  let (chunk, jumpBeginIndex) := compiler.back.chunk.emitJump opcode token
  set { compiler with back := { compiler.back with chunk } }
  return jumpBeginIndex

def toNextOpcode (jumpBeginIndex : Nat) : CompileM N Unit :=
  emitWith fun chunk => chunk.toNextOpcode jumpBeginIndex

def emitLoop (loopBeginBytecodeIndex : Nat) (token : SourceMapToken Text) : CompileM N Unit :=
  emitWith fun chunk => chunk.emitLoop loopBeginBytecodeIndex token

/-- `function_chunks.back()->chunk.bytecode().size()`. -/
def bytecodeSize : CompileM N Nat := return (← get).back.chunk.bytecode.length

def beginScope : CompileM N Unit :=
  modify fun compiler => { compiler with scopeDepth := compiler.scopeDepth + 1 }

def ownInitializerError (token : SourceMapToken Text) : Error :=
  .runtimeError (atLine token.line.toNat ++ " at \"".toList ++ token.lexeme ++
    "\": Cannot read local variable in its own initializer.".toList)

def redeclaredError (token : SourceMapToken Text) : Error :=
  .runtimeError (atLine token.line.toNat ++ " at \"".toList ++ token.lexeme ++
    "\": Identifier with this name already declared in this scope.".toList)

def trackLocal (identifierToken : SourceMapToken Text) (initialized : Bool := true) :
    CompileM N Unit := do
  let compiler ← get
  if isRedeclared compiler.back.trackedLocals compiler.scopeDepth identifierToken.lexeme then
    throw (redeclaredError identifierToken)
  else
    let tracked : TrackedLocal :=
      { name := identifierToken.lexeme, depth := compiler.scopeDepth, initialized }
    set { compiler with
      back := { compiler.back with trackedLocals := tracked :: compiler.back.trackedLocals } }

/-- The loop of `pop_top_scope_depth` over the locals of `depth` at the back. -/
def popLocals (depth : Nat) (token : SourceMapToken Text) :
    List TrackedLocal → CompileM N Unit
  | [] => return ()
  | tracked :: rest => do
      if tracked.depth = depth then do
        emit (if tracked.isCaptured then .closeUpvalue else .pop) token
        modify fun compiler => { compiler with back := { compiler.back with trackedLocals := rest } }
        popLocals depth token rest
      else return ()

def popTopScopeDepth (token : SourceMapToken Text) : CompileM N Unit := do
  let compiler ← get
  popLocals compiler.scopeDepth token compiler.back.trackedLocals
  modify fun compiler => { compiler with scopeDepth := compiler.scopeDepth - 1 }

/-- `gc_heap.make<Function>`. -/
def makeFunction (function : Function (Constant N) Text) : CompileM N Nat := do
  let compiler ← get
  set { compiler with gcHeap := compiler.gcHeap ++ [function] }
  return compiler.gcHeap.length

/-- Pushes a new function chunk and one scope, runs `body`, and pops both; what was
compiled is returned with the result.  The function that encloses it is `back`
again when the closure instruction is emitted. -/
def inFunction (isClassInitMethod : Bool) (body : CompileM N α) :
    CompileM N (α × FunctionChunk (Chunk.Compiled N)) := do
  modify fun compiler => { compiler with
    scopeDepth := compiler.scopeDepth + 1
    back := { chunk := {}, isClassInitMethod }
    enclosing := compiler.back :: compiler.enclosing }
  let result ← body
  let compiler ← get
  match compiler.enclosing with
  | [] => throw .outOfFuel
  | outer :: rest =>
      set { compiler with
        scopeDepth := compiler.scopeDepth - 1, back := outer, enclosing := rest }
      return (result, compiler.back)

variable [Number N]

def emitName (opcode : Opcode) (identifierName : Text) (token : SourceMapToken Text) :
    CompileM N Unit :=
  emitWith fun chunk => chunk.emitName opcode identifierName token

def emitConstant (value : Constant N) (token : SourceMapToken Text) : CompileM N Unit :=
  emitWith fun chunk => chunk.emitConstant value token

def emitClosure (function : Nat) (trackedUpvalues : List TrackedUpvalue)
    (token : SourceMapToken Text) : CompileM N Unit :=
  emitWith fun chunk => chunk.emitClosure function trackedUpvalues token

/-- The work to get or to set a variable is the same but for the opcodes. -/
def emitGetterSetter (localOpcode upvalueOpcode globalOpcode : Opcode)
    (identifierToken : SourceMapToken Text) : CompileM N Unit := do
  let compiler ← get
  match findLocal compiler.back.trackedLocals identifierToken.lexeme with
  | some (index, tracked) =>
      if tracked.initialized then emitIndex localOpcode index identifierToken
      else throw (ownInitializerError identifierToken)
  | none =>
      match trackUpvalue identifierToken.lexeme compiler.back compiler.enclosing with
      | some (index, back, enclosing) =>
          set { compiler with back, enclosing }
          emitIndex upvalueOpcode index identifierToken
      | none => emitName globalOpcode identifierToken.lexeme identifierToken

def emitGetter (identifierToken : SourceMapToken Text) : CompileM N Unit :=
  emitGetterSetter .getLocal .getUpvalue .getGlobal identifierToken

def emitSetter (identifierToken : SourceMapToken Text) : CompileM N Unit :=
  emitGetterSetter .setLocal .setUpvalue .setGlobal identifierToken

end Cpplox
