import Cpplox.Ast
import Cpplox.Compiler.Compile
import Cpplox.Instruction
import Cpplox.Structured.Code

namespace Cpplox

open Structured

/-! Lowering: the code the compiler emits for a tree, before it is laid out as bytes.

The bookkeeping of `Compiler` is kept, with the constants of a chunk in place of the
chunk.  What an instruction was emitted for is written next to it; `none` is an error. -/

/-- What was tracked about one function at an instruction. -/
structure FunctionScope where
  locals : List TrackedLocal
  upvalues : List TrackedUpvalue
deriving DecidableEq, Repr

/-- An emitted instruction.  `scopes` are the functions around it, innermost first;
`occurrence` is the identifier it reads or assigns; `leading` says that its expression
began with nothing else on the stack since the statement did. -/
structure Emission where
  instr : Instr
  token : SourceMapToken Text
  scopes : List FunctionScope
  occurrence : Option Text := none
  leading : Bool := false

structure JumpTag where
  token : SourceMapToken Text
  scopes : List FunctionScope

/-- What becomes of the value on top of the stack. -/
inductive Mark where
  | tracked (tracked : TrackedLocal)
  | untracked

abbrev LoweredCode := Code Emission JumpTag Mark

inductive FunctionKind where
  | script
  | declaration
  | method
  | expression
deriving DecidableEq, Repr

structure LoweredFunction (N : Type) where
  kind : FunctionKind
  name : Text
  arity : Nat
  /-- The locals at its end, with all that were captured marked so. -/
  locals : List TrackedLocal
  captures : List TrackedUpvalue
  constants : List (Constant N)
  code : LoweredCode

structure Lower (N : Type) where
  functions : List (LoweredFunction N) := []
  scopeDepth : Nat := 0
  back : FunctionChunk (List (Constant N)) := { chunk := [] }
  enclosing : List (FunctionChunk (List (Constant N))) := []

abbrev LowerM (N : Type) := StateT (Lower N) Option

namespace Lower

variable {N : Type}

def scopeOf (function : FunctionChunk C) : FunctionScope :=
  ⟨function.trackedLocals, function.trackedUpvalues⟩

def scopes (lower : Lower N) : List FunctionScope :=
  scopeOf lower.back :: lower.enclosing.map scopeOf

/-- The tag of a jump emitted here. -/
def tagAt (lower : Lower N) (token : SourceMapToken Text) : JumpTag := ⟨token, lower.scopes⟩

/-- The code of an instruction whose operands fit their bytes. -/
def emitInstr (instr : Instr) (token : SourceMapToken Text) (occurrence : Option Text := none)
    (leading : Bool := false) : LowerM N LoweredCode := do
  return .plain { instr, token, scopes := (← get).scopes, occurrence, leading }

def emit (opcode : Opcode) (token : SourceMapToken Text) : LowerM N LoweredCode :=
  emitInstr (.simple opcode) token

def emitAll : List Opcode → SourceMapToken Text → LowerM N LoweredCode
  | [], _ => return .nil
  | opcode :: rest, token => do
      let first ← emit opcode token
      return .seq first (← emitAll rest token)

def emitIndex (opcode : Opcode) (index : Nat) (token : SourceMapToken Text)
    (occurrence : Option Text := none) : LowerM N LoweredCode :=
  if index < 256 then emitInstr (.operand opcode index) token occurrence else failure

def beginScope : LowerM N Unit :=
  modify fun lower => { lower with scopeDepth := lower.scopeDepth + 1 }

/-- The local is in place once its initial value is. -/
def trackLocal (identifierToken : SourceMapToken Text) (initialized : Bool := true) :
    LowerM N LoweredCode := do
  let lower ← get
  if isRedeclared lower.back.trackedLocals lower.scopeDepth identifierToken.lexeme then failure
  else
    let tracked : TrackedLocal :=
      { name := identifierToken.lexeme, depth := lower.scopeDepth, initialized }
    set { lower with
      back := { lower.back with trackedLocals := tracked :: lower.back.trackedLocals } }
    return if initialized then .mark (.tracked tracked) else .nil

def trackAll : List (SourceMapToken Text) → LowerM N Unit
  | [] => return ()
  | token :: rest => do
      let _ ← trackLocal token
      trackAll rest

def popLocals (depth : Nat) (token : SourceMapToken Text) :
    List TrackedLocal → LowerM N LoweredCode
  | [] => return .nil
  | tracked :: rest => do
      if tracked.depth = depth then do
        let first ← emit (if tracked.isCaptured then .closeUpvalue else .pop) token
        modify fun lower => { lower with back := { lower.back with trackedLocals := rest } }
        return .seq first (← popLocals depth token rest)
      else return .nil

def popTopScopeDepth (token : SourceMapToken Text) : LowerM N LoweredCode := do
  let lower ← get
  let code ← popLocals lower.scopeDepth token lower.back.trackedLocals
  modify fun lower => { lower with scopeDepth := lower.scopeDepth - 1 }
  return code

/-- A new function chunk and one scope. -/
def enterFunction (isClassInitMethod : Bool) (lower : Lower N) : Lower N :=
  { lower with
    scopeDepth := lower.scopeDepth + 1
    back := { chunk := [], isClassInitMethod }
    enclosing := lower.back :: lower.enclosing }

/-- Pops the function chunk and its scope. -/
def leaveFunction (lower : Lower N) : Option (FunctionChunk (List (Constant N)) × Lower N) :=
  match lower.enclosing with
  | [] => none
  | outer :: rest => some (lower.back,
      { lower with scopeDepth := lower.scopeDepth - 1, back := outer, enclosing := rest })

def leave : LowerM N (FunctionChunk (List (Constant N))) := leaveFunction

/-- `tracked_locals.back().initialized = true`. -/
def initializeBack : LowerM N LoweredCode := do
  let lower ← get
  match lower.back.trackedLocals with
  | [] => return .nil
  | tracked :: rest =>
      let tracked := { tracked with initialized := true }
      set { lower with back := { lower.back with trackedLocals := tracked :: rest } }
      return .mark (.tracked tracked)

/-- The end of a variable declaration. -/
def initializeDeclared : LowerM N LoweredCode := do
  if (← get).scopeDepth > 0 then initializeBack else return .nil

/-- The placeholder for the slot of a global class. -/
def pushPlaceholder : LowerM N LoweredCode := do
  let lower ← get
  if lower.scopeDepth = 0 then do
    set { lower with
      back := { lower.back with trackedLocals := { name := [] } :: lower.back.trackedLocals } }
    return .mark (.tracked { name := [] })
  else return .nil

def popPlaceholder : LowerM N LoweredCode := do
  let lower ← get
  if lower.scopeDepth = 0 then do
    set { lower with
      back := { lower.back with trackedLocals := lower.back.trackedLocals.tail } }
    return .mark .untracked
  else return .nil

def emitDefaultReturnValue (token : SourceMapToken Text) : LowerM N LoweredCode := do
  if (← get).back.isClassInitMethod then emitIndex .getLocal 0 (thisToken token.line)
  else emit .nil token

def isInFunction : LowerM N Bool := return !(← get).enclosing.isEmpty

def isInInitializer : LowerM N Bool := return (← get).back.isClassInitMethod

variable [Number N]

/-- The index of a constant. -/
def constant (value : Constant N) : LowerM N Nat := do
  let lower ← get
  let (index, constants) := insertConstant lower.back.chunk value
  set { lower with back := { lower.back with chunk := constants } }
  return index

def emitWithConstant (opcode : Opcode) (value : Constant N) (token : SourceMapToken Text)
    (occurrence : Option Text := none) : LowerM N LoweredCode := do
  emitIndex opcode (← constant value) token occurrence

def emitName (opcode : Opcode) (identifierName : Text) (token : SourceMapToken Text)
    (occurrence : Option Text := none) : LowerM N LoweredCode :=
  emitWithConstant opcode (.string identifierName) token occurrence

def emitConstant (value : Constant N) (token : SourceMapToken Text) : LowerM N LoweredCode :=
  emitWithConstant .constant value token

/-- An occurrence of an identifier.  An identifier is not the empty name, which is the
placeholder's. -/
def emitGetterSetter (localOpcode upvalueOpcode globalOpcode : Opcode)
    (identifierToken : SourceMapToken Text) : LowerM N LoweredCode := do
  let lower ← get
  let name := identifierToken.lexeme
  if name = [] then failure
  else match findLocal lower.back.trackedLocals name with
  | some (index, tracked) =>
      if tracked.initialized then emitIndex localOpcode index identifierToken (some name)
      else failure
  | none =>
      match trackUpvalue name lower.back lower.enclosing with
      | some (index, back, enclosing) => do
          set { lower with back, enclosing }
          emitIndex upvalueOpcode index identifierToken (some name)
      | none => emitName globalOpcode name identifierToken (some name)

def emitGetter (identifierToken : SourceMapToken Text) : LowerM N LoweredCode :=
  emitGetterSetter .getLocal .getUpvalue .getGlobal identifierToken

def emitSetter (identifierToken : SourceMapToken Text) : LowerM N LoweredCode :=
  emitGetterSetter .setLocal .setUpvalue .setGlobal identifierToken

def emitPropertyPath : List Token → LowerM N LoweredCode
  | [] => return .nil
  | [last] => emitName .setProperty last.lexeme (sourceMapToken last)
  | name :: rest => do
      let first ← emitName .getProperty name.lexeme (sourceMapToken name)
      return .seq first (← emitPropertyPath rest)

def emitAssignment (target : Token) (names : List Token) : LowerM N LoweredCode :=
  match names with
  | [] => if target.lexeme = thisName then failure else emitSetter (sourceMapToken target)
  | names => do
      let object ← emitGetter (sourceMapToken target)
      return .seq object (← emitPropertyPath names)

/-- Makes the function object and emits its closure. -/
def emitFunction (function : LoweredFunction N) (token : SourceMapToken Text) (leading : Bool) :
    LowerM N LoweredCode := do
  let lower ← get
  set { lower with functions := lower.functions ++ [function] }
  let index ← constant (.function lower.functions.length)
  if (Instr.closure index function.captures).Fits then
    emitInstr (.closure index function.captures) token none leading
  else failure

def defineGlobalAtTop (name : Text) (token : SourceMapToken Text) : LowerM N LoweredCode := do
  if (← get).scopeDepth = 0 then emitName .defineGlobal name token else return .nil

/-- Tracks the name of a declaration inside a scope; at the top it is a global. -/
def trackDeclared (token : SourceMapToken Text) (initialized : Bool := true) :
    LowerM N LoweredCode := do
  if (← get).scopeDepth > 0 then trackLocal token initialized else return .nil

def beginSuperclass (classNameToken superclassNameToken : Token) : LowerM N LoweredCode := do
  let superclassToken := sourceMapToken superclassNameToken
  if superclassNameToken.lexeme = classNameToken.lexeme then failure
  else do
    let placeholder ← pushPlaceholder
    beginScope
    let superclass ← emitGetter superclassToken
    let declared ← trackLocal (superTokenAt superclassToken.line)
    let inherit ← emit .inherit superclassToken
    return .seq placeholder (.seq superclass (.seq declared inherit))

def endSuperclass (superclassNameToken : Token) : LowerM N LoweredCode := do
  let pop ← emit .pop (sourceMapToken superclassNameToken)
  let scope ← popTopScopeDepth (superTokenAt superclassNameToken.line)
  let placeholder ← popPlaceholder
  return .seq pop (.seq scope placeholder)

def unaryOpcode : TokenType → Opcode
  | .minus => .negate
  | _ => .not_

/-- `self` is what slot 0 is tracked as. -/
def lowerFunction (kind : FunctionKind) (name : Text) (self : List (SourceMapToken Text))
    (params : List Token) (body : LowerM N LoweredCode) (token : SourceMapToken Text) (leading : Bool) :
    LowerM N LoweredCode := do
  modify (enterFunction (kind = .method && name = initName))
  trackAll (self ++ params.map sourceMapToken)
  let code ← body
  let value ← emitDefaultReturnValue token
  let ret ← emit .return_ token
  let compiled ← leave
  emitFunction
    { kind, name, arity := params.length, locals := compiled.trackedLocals
      captures := compiled.trackedUpvalues, constants := compiled.chunk
      code := .seq code (.seq value ret) } token leading

def lowerClassBody (name : Token) (superclass : Option Token)
    (methods : LowerM N LoweredCode) : LowerM N LoweredCode :=
  match superclass with
  | some superclassName => do
      let before ← beginSuperclass name superclassName
      let body ← methods
      let after ← endSuperclass superclassName
      return .seq before (.seq body after)
  | none => methods

mutual

/-- `leading` holds as long as nothing was pushed since the statement began. -/
def lowerExpr (leading : Bool) : Expr → LowerM N LoweredCode
  | .false_ token => emit .false_ (sourceMapToken token)
  | .true_ token => emit .true_ (sourceMapToken token)
  | .nil token => emit .nil (sourceMapToken token)
  | .number token =>
      emitConstant (.number (Number.lexicalCast token.lexeme)) (sourceMapToken token)
  | .string token => emitConstant (.string token.lexeme.tail.dropLast) (sourceMapToken token)
  | .variable token => emitGetter (sourceMapToken token)
  | .super superToken methodName => do
      let receiver ← emitGetter (thisToken superToken.line)
      let superclass ← emitGetter (sourceMapToken superToken)
      let method ← emitName .getSuper methodName.lexeme (sourceMapToken methodName)
      return .seq receiver (.seq superclass method)
  | .function funToken params body =>
      lowerFunction .expression [] [] params (lowerDecls body)
        (sourceMapToken funToken) leading
  | .call callee args calleeToken => do
      let function ← lowerExpr leading callee
      let values ← lowerArgs args
      let call ← emitIndex .call args.length (sourceMapToken calleeToken)
      return .seq function (.seq values call)
  | .getProperty object name => do
      let receiver ← lowerExpr leading object
      let property ← emitName .getProperty name.lexeme (sourceMapToken name)
      return .seq receiver property
  | .unary operator operand => do
      let value ← lowerExpr leading operand
      let operation ← emit (unaryOpcode operator.type) (sourceMapToken operator)
      return .seq value operation
  | .binary operator left right => do
      let first ← lowerExpr leading left
      let second ← lowerExpr false right
      let operation ← emitAll (binaryOpcodes operator.type) (sourceMapToken operator)
      return .seq first (.seq second operation)
  | .and_ operator left right => do
      let first ← lowerExpr leading left
      let tag := (← get).tagAt (sourceMapToken operator)
      let pop ← emit .pop (sourceMapToken operator)
      let second ← lowerExpr leading right
      return .seq first (.skipIfFalse tag (.seq pop second))
  | .or_ operator left right => do
      let first ← lowerExpr leading left
      let tag := (← get).tagAt (sourceMapToken operator)
      let pop ← emit .pop (sourceMapToken operator)
      let second ← lowerExpr leading right
      return .seq first (.skipIfTrue tag (.seq pop second))
  | .assign target _ names value => do
      let code ← lowerExpr leading value
      let assignment ← emitAssignment target names
      return .seq code assignment

def lowerArgs : Exprs → LowerM N LoweredCode
  | .nil => return .nil
  | .cons head tail => do
      let first ← lowerExpr false head
      return .seq first (← lowerArgs tail)

def lowerStmt : Stmt → LowerM N LoweredCode
  | .empty => return .nil
  | .expression value popToken => do
      let code ← lowerExpr true value
      let pop ← emit .pop (sourceMapToken popToken)
      return .seq code pop
  | .if_ token condition thenBranch elseBranch => do
      let test ← lowerExpr true condition
      let tag := (← get).tagAt (sourceMapToken token)
      let popTrue ← emit .pop (sourceMapToken token)
      let whenTrue ← lowerStmt thenBranch
      let popFalse ← emit .pop (sourceMapToken token)
      let whenFalse ← lowerStmt elseBranch
      return .seq test (.branch tag (.seq popTrue whenTrue) (.seq popFalse whenFalse))
  | .for_ token initializer condition increment body => do
      beginScope
      let init ← lowerDecl initializer
      let test ← lowerExpr true condition
      let tag := (← get).tagAt (sourceMapToken token)
      let step ← lowerStmt increment
      let pop ← emit .pop (sourceMapToken token)
      let inner ← lowerStmt body
      let popLast ← emit .pop (sourceMapToken token)
      let scope ← popTopScopeDepth (sourceMapToken token)
      return .seq init (.seq (.forLoop tag test step (.seq pop inner)) (.seq popLast scope))
  | .block body braceToken => do
      beginScope
      let code ← lowerDecls body
      let scope ← popTopScopeDepth (sourceMapToken braceToken)
      return .seq code scope
  | .print token value => do
      let code ← lowerExpr true value
      let print ← emit .print (sourceMapToken token)
      return .seq code print
  | .returnDefault token => do
      if ← isInFunction then do
        let value ← emitDefaultReturnValue (sourceMapToken token)
        let ret ← emit .return_ (sourceMapToken token)
        return .seq value ret
      else failure
  | .return_ token value => do
      if (← isInFunction) && !(← isInInitializer) then do
        let code ← lowerExpr true value
        let ret ← emit .return_ (sourceMapToken token)
        return .seq code ret
      else failure
  | .while_ token condition body => do
      let test ← lowerExpr true condition
      let tag := (← get).tagAt (sourceMapToken token)
      let pop ← emit .pop (sourceMapToken token)
      let inner ← lowerStmt body
      let popLast ← emit .pop (sourceMapToken token)
      return .seq (.whileLoop tag test (.seq pop inner)) popLast

def lowerDecl : Decl → LowerM N LoweredCode
  | .statement body => lowerStmt body
  | .class_ classToken name superclass methods => do
      let klass ← emitName .class_ name.lexeme (sourceMapToken classToken)
      let declared ← trackDeclared (sourceMapToken name)
      let body ← lowerClassBody name superclass (lowerMethods methods)
      let define ← defineGlobalAtTop name.lexeme (sourceMapToken classToken)
      return .seq klass (.seq declared (.seq body define))
  | .fun_ funToken name params body => do
      let closure ← lowerFunction .declaration name.lexeme [sourceMapToken name] params
        (lowerDecls body) (sourceMapToken funToken) false
      let define ← defineGlobalAtTop name.lexeme (sourceMapToken funToken)
      let declared ← trackDeclared (sourceMapToken name)
      return .seq closure (.seq define declared)
  | .var varToken name initializer => do
      let _ ← trackDeclared (sourceMapToken name) false
      let value ← lowerExpr true initializer
      let define ← defineGlobalAtTop name.lexeme (sourceMapToken varToken)
      let declared ← initializeDeclared
      return .seq value (.seq define declared)

def lowerDecls : Decls → LowerM N LoweredCode
  | .nil => return .nil
  | .cons head tail => do
      let first ← lowerDecl head
      return .seq first (← lowerDecls tail)

def lowerMethods : Methods → LowerM N LoweredCode
  | .nil => return .nil
  | .cons name params body tail => do
      let closure ← lowerFunction .method name.lexeme [thisToken name.line] params
        (lowerDecls body) (sourceMapToken name) false
      let method ← emitName .method name.lexeme (sourceMapToken name)
      return .seq closure (.seq method (← lowerMethods tail))

end

/-- The root script. -/
def script (lower : Lower N) (code : LoweredCode) : LoweredFunction N where
  kind := .script
  name := []
  arity := 0
  locals := lower.back.trackedLocals
  captures := []
  constants := lower.back.chunk
  code := code

/-- All functions of a program, the root script last. -/
def program (decls : Decls) : Option (List (LoweredFunction N)) :=
  ((lowerDecls decls).run {}).map fun (code, lower) => lower.functions ++ [lower.script code]

end Lower

end Cpplox
