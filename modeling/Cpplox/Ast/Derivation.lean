import Cpplox.Ast.Lower

namespace Cpplox

open Structured

namespace Lower

variable {N : Type}

/-! Lowering as a relation: its derivations follow the tree, with every state between. -/

inductive Node where
  | expr (leading : Bool) (expr : Expr)
  | args (args : Exprs)
  | function (kind : FunctionKind) (name : Text) (self : List (SourceMapToken Text))
      (params : List Token) (body : Decls) (token : SourceMapToken Text) (leading : Bool)
  | stmt (stmt : Stmt)
  | decl (decl : Decl)
  | decls (decls : Decls)
  | methods (methods : Methods)

def simple (lower : Lower N) (opcode : Opcode) (token : SourceMapToken Text) : LoweredCode :=
  .plain { instr := .simple opcode, token, scopes := lower.scopes }

theorem run_emit (lower : Lower N) (opcode : Opcode) (token : SourceMapToken Text) :
    (emit opcode token).run lower = some (lower.simple opcode token, lower) := rfl

def enterScope (lower : Lower N) : Lower N := { lower with scopeDepth := lower.scopeDepth + 1 }

theorem run_beginScope (lower : Lower N) :
    beginScope.run lower = some ((), lower.enterScope) := rfl

def withLocals (lower : Lower N) (trackedLocals : List TrackedLocal) : Lower N :=
  { lower with back := { lower.back with trackedLocals } }

/-- The code at a newly tracked local. -/
def declared (tracked : TrackedLocal) : LoweredCode :=
  if tracked.initialized then .mark (.tracked tracked) else .nil

def newLocal (lower : Lower N) (token : SourceMapToken Text) (initialized : Bool) : TrackedLocal :=
  { name := token.lexeme, depth := lower.scopeDepth, initialized }

theorem run_trackLocal {lower : Lower N} {token : SourceMapToken Text}
    (fresh : isRedeclared lower.back.trackedLocals lower.scopeDepth token.lexeme = false)
    (initialized : Bool) :
    (trackLocal token initialized).run lower =
      some (declared (lower.newLocal token initialized),
        lower.withLocals (lower.newLocal token initialized :: lower.back.trackedLocals)) := by
  simp only [trackLocal, StateT.run_bind, StateT.run_get, Option.pure_def, Option.bind_eq_bind,
    Option.bind_some, fresh, Bool.false_eq_true, if_false]
  rfl

theorem trackLocal_some {lower after : Lower N} {token : SourceMapToken Text} {initialized : Bool}
    {code : LoweredCode} (runs : (trackLocal token initialized).run lower = some (code, after)) :
    isRedeclared lower.back.trackedLocals lower.scopeDepth token.lexeme = false ∧
      code = declared (lower.newLocal token initialized) ∧
      after = lower.withLocals (lower.newLocal token initialized :: lower.back.trackedLocals) := by
  cases redeclared : isRedeclared lower.back.trackedLocals lower.scopeDepth token.lexeme with
  | true =>
      simp only [trackLocal, StateT.run_bind, StateT.run_get, Option.pure_def, Option.bind_eq_bind,
        Option.bind_some, redeclared, if_true] at runs
      cases runs
  | false =>
      rw [run_trackLocal redeclared] at runs
      cases runs
      exact ⟨rfl, rfl, rfl⟩

theorem flatten_declared (layout : Layout Emission) (tracked : TrackedLocal) :
    (declared tracked).flatten layout = [] := by
  unfold declared
  split <;> rfl

/-- The code of several opcodes. -/
def simples (lower : Lower N) (token : SourceMapToken Text) : List Opcode → LoweredCode
  | [] => .nil
  | opcode :: rest => .seq (lower.simple opcode token) (lower.simples token rest)

theorem run_emitAll (lower : Lower N) (token : SourceMapToken Text) (opcodes : List Opcode) :
    (emitAll opcodes token).run lower = some (lower.simples token opcodes, lower) := by
  induction opcodes with
  | nil => rfl
  | cons opcode rest ih => simp [emitAll, run_emit, ih, simples]

variable [Number N]

def Node.lower : Node → LowerM N LoweredCode
  | .expr leading tree => lowerExpr leading tree
  | .args trees => lowerArgs trees
  | .function kind name self params body token leading =>
      lowerFunction kind name self params (lowerDecls body) token leading
  | .stmt tree => lowerStmt tree
  | .decl tree => lowerDecl tree
  | .decls trees => lowerDecls trees
  | .methods trees => lowerMethods trees

inductive Lowers : Lower N → Node → LoweredCode → Lower N → Prop
  -- expressions
  | false_ {l : Lower N} {leading : Bool} {token : Token} :
      Lowers l (.expr leading (.false_ token)) (l.simple .false_ (sourceMapToken token)) l
  | true_ {l : Lower N} {leading : Bool} {token : Token} :
      Lowers l (.expr leading (.true_ token)) (l.simple .true_ (sourceMapToken token)) l
  | nil {l : Lower N} {leading : Bool} {token : Token} :
      Lowers l (.expr leading (.nil token)) (l.simple .nil (sourceMapToken token)) l
  | number {l final : Lower N} {leading : Bool} {token : Token} {code : LoweredCode} :
      (emitConstant (.number (Number.lexicalCast token.lexeme)) (sourceMapToken token)).run l =
        some (code, final) →
      Lowers l (.expr leading (.number token)) code final
  | string {l final : Lower N} {leading : Bool} {token : Token} {code : LoweredCode} :
      (emitConstant (.string token.lexeme.tail.dropLast) (sourceMapToken token)).run l =
        some (code, final) →
      Lowers l (.expr leading (.string token)) code final
  | occurrence {l final : Lower N} {leading : Bool} {token : Token} {code : LoweredCode} :
      (emitGetter (sourceMapToken token)).run l = some (code, final) →
      Lowers l (.expr leading (.variable token)) code final
  | super {l l₁ l₂ l₃ : Lower N} {leading : Bool} {superToken methodName : Token}
      {receiver superclass method : LoweredCode} :
      (emitGetter (thisToken superToken.line)).run l = some (receiver, l₁) →
      (emitGetter (sourceMapToken superToken)).run l₁ = some (superclass, l₂) →
      (emitName .getSuper methodName.lexeme (sourceMapToken methodName)).run l₂ =
        some (method, l₃) →
      Lowers l (.expr leading (.super superToken methodName))
        (.seq receiver (.seq superclass method)) l₃
  | functionExpr {l final : Lower N} {leading : Bool} {funToken : Token} {params : List Token}
      {body : Decls} {code : LoweredCode} :
      Lowers l (.function .expression [] [] params body (sourceMapToken funToken) leading) code final →
      Lowers l (.expr leading (.function funToken params body)) code final
  | call {l l₁ l₂ l₃ : Lower N} {leading : Bool} {callee : Expr} {args : Exprs}
      {calleeToken : Token} {function values call : LoweredCode} :
      Lowers l (.expr leading callee) function l₁ →
      Lowers l₁ (.args args) values l₂ →
      (emitIndex .call args.length (sourceMapToken calleeToken)).run l₂ = some (call, l₃) →
      Lowers l (.expr leading (.call callee args calleeToken)) (.seq function (.seq values call)) l₃
  | getProperty {l l₁ l₂ : Lower N} {leading : Bool} {object : Expr} {name : Token}
      {receiver property : LoweredCode} :
      Lowers l (.expr leading object) receiver l₁ →
      (emitName .getProperty name.lexeme (sourceMapToken name)).run l₁ = some (property, l₂) →
      Lowers l (.expr leading (.getProperty object name)) (.seq receiver property) l₂
  | unary {l l₁ : Lower N} {leading : Bool} {operator : Token} {operand : Expr}
      {value : LoweredCode} :
      Lowers l (.expr leading operand) value l₁ →
      Lowers l (.expr leading (.unary operator operand))
        (.seq value (l₁.simple (unaryOpcode operator.type) (sourceMapToken operator))) l₁
  | binary {l l₁ l₂ : Lower N} {leading : Bool} {operator : Token} {left right : Expr}
      {first second : LoweredCode} :
      binaryOpcodes operator.type ≠ [] →
      Lowers l (.expr leading left) first l₁ →
      Lowers l₁ (.expr false right) second l₂ →
      Lowers l (.expr leading (.binary operator left right))
        (.seq first (.seq second
          (l₂.simples (sourceMapToken operator) (binaryOpcodes operator.type)))) l₂
  | and_ {l l₁ l₂ : Lower N} {leading : Bool} {operator : Token} {left right : Expr}
      {first second : LoweredCode} :
      Lowers l (.expr leading left) first l₁ →
      Lowers l₁ (.expr leading right) second l₂ →
      Lowers l (.expr leading (.and_ operator left right))
        (.seq first (.skipIfFalse (l₁.tagAt (sourceMapToken operator))
          (.seq (l₁.simple .pop (sourceMapToken operator)) second))) l₂
  | or_ {l l₁ l₂ : Lower N} {leading : Bool} {operator : Token} {left right : Expr}
      {first second : LoweredCode} :
      Lowers l (.expr leading left) first l₁ →
      Lowers l₁ (.expr leading right) second l₂ →
      Lowers l (.expr leading (.or_ operator left right))
        (.seq first (.skipIfTrue (l₁.tagAt (sourceMapToken operator))
          (.seq (l₁.simple .pop (sourceMapToken operator)) second))) l₂
  | assign {l l₁ l₂ : Lower N} {leading : Bool} {target equalToken : Token} {names : List Token}
      {value : Expr} {code assignment : LoweredCode} :
      Lowers l (.expr leading value) code l₁ →
      (emitAssignment target names).run l₁ = some (assignment, l₂) →
      Lowers l (.expr leading (.assign target equalToken names value)) (.seq code assignment) l₂
  | argsNil {l : Lower N} : Lowers l (.args .nil) .nil l
  | argsCons {l l₁ l₂ : Lower N} {head : Expr} {tail : Exprs} {first rest : LoweredCode} :
      Lowers l (.expr false head) first l₁ → Lowers l₁ (.args tail) rest l₂ →
      Lowers l (.args (.cons head tail)) (.seq first rest) l₂
  | function {l l₁ l₂ l₃ l₄ l₅ : Lower N} {kind : FunctionKind} {name : Text}
      {self : List (SourceMapToken Text)} {params : List Token} {body : Decls}
      {token : SourceMapToken Text} {leading : Bool} {code value closure : LoweredCode}
      {compiled : FunctionChunk (List (Constant N))} :
      (trackAll (self ++ params.map sourceMapToken)).run
        (l.enterFunction (kind = .method && name = initName)) = some ((), l₁) →
      Lowers l₁ (.decls body) code l₂ →
      (emitDefaultReturnValue token).run l₂ = some (value, l₃) →
      l₃.leaveFunction = some (compiled, l₄) →
      (emitFunction
        { kind, name, arity := params.length, locals := compiled.trackedLocals
          captures := compiled.trackedUpvalues, constants := compiled.chunk
          code := .seq code (.seq value (l₃.simple .return_ token)) } token leading).run l₄ =
        some (closure, l₅) →
      Lowers l (.function kind name self params body token leading) closure l₅
  -- statements
  | empty {l : Lower N} : Lowers l (.stmt .empty) .nil l
  | expression {l l₁ : Lower N} {value : Expr} {popToken : Token} {code : LoweredCode} :
      Lowers l (.expr true value) code l₁ →
      Lowers l (.stmt (.expression value popToken))
        (.seq code (l₁.simple .pop (sourceMapToken popToken))) l₁
  | if_ {l l₁ l₂ l₃ : Lower N} {token : Token} {condition : Expr} {thenBranch elseBranch : Stmt}
      {test whenTrue whenFalse : LoweredCode} :
      Lowers l (.expr true condition) test l₁ →
      Lowers l₁ (.stmt thenBranch) whenTrue l₂ →
      Lowers l₂ (.stmt elseBranch) whenFalse l₃ →
      Lowers l (.stmt (.if_ token condition thenBranch elseBranch))
        (.seq test (.branch (l₁.tagAt (sourceMapToken token))
          (.seq (l₁.simple .pop (sourceMapToken token)) whenTrue)
          (.seq (l₂.simple .pop (sourceMapToken token)) whenFalse))) l₃
  | for_ {l l₁ l₂ l₃ l₄ l₅ : Lower N} {token : Token} {initializer : Decl} {condition : Expr}
      {increment body : Stmt} {init test step inner scope : LoweredCode} :
      Lowers l.enterScope (.decl initializer) init l₁ →
      Lowers l₁ (.expr true condition) test l₂ →
      Lowers l₂ (.stmt increment) step l₃ →
      Lowers l₃ (.stmt body) inner l₄ →
      (popTopScopeDepth (sourceMapToken token)).run l₄ = some (scope, l₅) →
      Lowers l (.stmt (.for_ token initializer condition increment body))
        (.seq init (.seq (.forLoop (l₂.tagAt (sourceMapToken token)) test step
            (.seq (l₃.simple .pop (sourceMapToken token)) inner))
          (.seq (l₄.simple .pop (sourceMapToken token)) scope))) l₅
  | block {l l₁ l₂ : Lower N} {body : Decls} {braceToken : Token} {code scope : LoweredCode} :
      Lowers l.enterScope (.decls body) code l₁ →
      (popTopScopeDepth (sourceMapToken braceToken)).run l₁ = some (scope, l₂) →
      Lowers l (.stmt (.block body braceToken)) (.seq code scope) l₂
  | print {l l₁ : Lower N} {token : Token} {value : Expr} {code : LoweredCode} :
      Lowers l (.expr true value) code l₁ →
      Lowers l (.stmt (.print token value))
        (.seq code (l₁.simple .print (sourceMapToken token))) l₁
  | returnDefault {l l₁ : Lower N} {token : Token} {value : LoweredCode} :
      l.enclosing ≠ [] →
      (emitDefaultReturnValue (sourceMapToken token)).run l = some (value, l₁) →
      Lowers l (.stmt (.returnDefault token))
        (.seq value (l₁.simple .return_ (sourceMapToken token))) l₁
  | return_ {l l₁ : Lower N} {token : Token} {value : Expr} {code : LoweredCode} :
      l.enclosing ≠ [] → l.back.isClassInitMethod = false →
      Lowers l (.expr true value) code l₁ →
      Lowers l (.stmt (.return_ token value))
        (.seq code (l₁.simple .return_ (sourceMapToken token))) l₁
  | while_ {l l₁ l₂ : Lower N} {token : Token} {condition : Expr} {body : Stmt}
      {test inner : LoweredCode} :
      Lowers l (.expr true condition) test l₁ →
      Lowers l₁ (.stmt body) inner l₂ →
      Lowers l (.stmt (.while_ token condition body))
        (.seq (.whileLoop (l₁.tagAt (sourceMapToken token)) test
            (.seq (l₁.simple .pop (sourceMapToken token)) inner))
          (l₂.simple .pop (sourceMapToken token))) l₂
  -- declarations
  | statement {l final : Lower N} {body : Stmt} {code : LoweredCode} :
      Lowers l (.stmt body) code final → Lowers l (.decl (.statement body)) code final
  | baseClass {l l₁ l₂ l₃ l₄ : Lower N} {classToken name : Token} {methods : Methods}
      {klass declared body define : LoweredCode} :
      (emitName .class_ name.lexeme (sourceMapToken classToken)).run l = some (klass, l₁) →
      (trackDeclared (sourceMapToken name)).run l₁ = some (declared, l₂) →
      Lowers l₂ (.methods methods) body l₃ →
      (defineGlobalAtTop name.lexeme (sourceMapToken classToken)).run l₃ = some (define, l₄) →
      Lowers l (.decl (.class_ classToken name none methods))
        (.seq klass (.seq declared (.seq body define))) l₄
  | subclass {l l₁ l₂ l₃ l₄ l₅ l₆ : Lower N} {classToken name superclass : Token}
      {methods : Methods} {klass declared before body after define : LoweredCode} :
      (emitName .class_ name.lexeme (sourceMapToken classToken)).run l = some (klass, l₁) →
      (trackDeclared (sourceMapToken name)).run l₁ = some (declared, l₂) →
      (beginSuperclass name superclass).run l₂ = some (before, l₃) →
      Lowers l₃ (.methods methods) body l₄ →
      (endSuperclass superclass).run l₄ = some (after, l₅) →
      (defineGlobalAtTop name.lexeme (sourceMapToken classToken)).run l₅ = some (define, l₆) →
      Lowers l (.decl (.class_ classToken name (some superclass) methods))
        (.seq klass (.seq declared (.seq (.seq before (.seq body after)) define))) l₆
  | fun_ {l l₁ l₂ l₃ : Lower N} {funToken name : Token} {params : List Token} {body : Decls}
      {closure define declared : LoweredCode} :
      Lowers l (.function .declaration name.lexeme [sourceMapToken name] params body
        (sourceMapToken funToken) false) closure l₁ →
      (defineGlobalAtTop name.lexeme (sourceMapToken funToken)).run l₁ = some (define, l₂) →
      (trackDeclared (sourceMapToken name)).run l₂ = some (declared, l₃) →
      Lowers l (.decl (.fun_ funToken name params body)) (.seq closure (.seq define declared)) l₃
  | var {l l₁ l₂ l₃ l₄ : Lower N} {varToken name : Token} {initializer : Expr}
      {tracked value define declared : LoweredCode} :
      (trackDeclared (sourceMapToken name) false).run l = some (tracked, l₁) →
      Lowers l₁ (.expr true initializer) value l₂ →
      (defineGlobalAtTop name.lexeme (sourceMapToken varToken)).run l₂ = some (define, l₃) →
      initializeDeclared.run l₃ = some (declared, l₄) →
      Lowers l (.decl (.var varToken name initializer)) (.seq value (.seq define declared)) l₄
  | declsNil {l : Lower N} : Lowers l (.decls .nil) .nil l
  | declsCons {l l₁ l₂ : Lower N} {head : Decl} {tail : Decls} {first rest : LoweredCode} :
      Lowers l (.decl head) first l₁ → Lowers l₁ (.decls tail) rest l₂ →
      Lowers l (.decls (.cons head tail)) (.seq first rest) l₂
  | methodsNil {l : Lower N} : Lowers l (.methods .nil) .nil l
  | methodsCons {l l₁ l₂ l₃ : Lower N} {name : Token} {params : List Token} {body : Decls}
      {tail : Methods} {closure method rest : LoweredCode} :
      Lowers l (.function .method name.lexeme [thisToken name.line] params body
        (sourceMapToken name) false) closure l₁ →
      (emitName .method name.lexeme (sourceMapToken name)).run l₁ = some (method, l₂) →
      Lowers l₂ (.methods tail) rest l₃ →
      Lowers l (.methods (.cons name params body tail)) (.seq closure (.seq method rest)) l₃

theorem Lowers.run {l final : Lower N} {node : Node} {code : LoweredCode}
    (lowers : Lowers l node code final) : node.lower.run l = some (code, final) := by
  induction lowers with
  | false_ | true_ | nil | argsNil | empty | declsNil | methodsNil => rfl
  | number found | string found | occurrence found => exact found
  | super receiver superclass method =>
      simp [Node.lower, lowerExpr, receiver, superclass, method]
  | functionExpr _ ih => exact ih
  | call _ _ call callee args =>
      simp only [Node.lower] at callee args
      simp [Node.lower, lowerExpr, callee, args, call]
  | getProperty _ property object =>
      simp only [Node.lower] at object
      simp [Node.lower, lowerExpr, object, property]
  | unary _ operand =>
      simp only [Node.lower] at operand
      simp [Node.lower, lowerExpr, operand, run_emit]
  | binary _ _ _ left right =>
      simp only [Node.lower] at left right
      simp [Node.lower, lowerExpr, left, right, run_emitAll]
  | and_ _ _ left right =>
      simp only [Node.lower] at left right
      simp [Node.lower, lowerExpr, left, right, run_emit]
  | or_ _ _ left right =>
      simp only [Node.lower] at left right
      simp [Node.lower, lowerExpr, left, right, run_emit]
  | assign _ assignment value =>
      simp only [Node.lower] at value
      simp [Node.lower, lowerExpr, value, assignment]
  | argsCons _ _ head tail =>
      simp only [Node.lower] at head tail
      simp [Node.lower, lowerArgs, head, tail]
  | function tracks _ returns leaves closure body =>
      have left : leave.run _ = _ := leaves
      simp only [Node.lower] at body
      simp [Node.lower, lowerFunction, tracks, body, returns, run_emit, left, closure]
  | expression _ value =>
      simp only [Node.lower] at value
      simp [Node.lower, lowerStmt, value, run_emit]
  | if_ _ _ _ condition thenBranch elseBranch =>
      simp only [Node.lower] at condition thenBranch elseBranch
      simp [Node.lower, lowerStmt, condition, thenBranch, elseBranch, run_emit]
  | for_ _ _ _ _ pops initializer condition increment body =>
      simp only [Node.lower] at initializer condition increment body
      simp [Node.lower, lowerStmt, initializer, condition, increment, body, pops, run_emit,
        run_beginScope]
  | block _ pops body =>
      simp only [Node.lower] at body
      simp [Node.lower, lowerStmt, body, pops, run_beginScope]
  | print _ value =>
      simp only [Node.lower] at value
      simp [Node.lower, lowerStmt, value, run_emit]
  | returnDefault inside value =>
      simp [Node.lower, lowerStmt, isInFunction, inside, value, run_emit]
  | return_ inside ordinary _ value =>
      simp only [Node.lower] at value
      simp [Node.lower, lowerStmt, isInFunction, isInInitializer, inside, ordinary, value, run_emit]
  | while_ _ _ condition body =>
      simp only [Node.lower] at condition body
      simp [Node.lower, lowerStmt, condition, body, run_emit]
  | statement _ ih => exact ih
  | baseClass klass declared _ define methods =>
      simp only [Node.lower] at methods
      simp [Node.lower, lowerDecl, lowerClassBody, klass, declared, define, methods]
  | subclass klass declared before _ after define methods =>
      simp only [Node.lower] at methods
      simp [Node.lower, lowerDecl, lowerClassBody, klass, declared, before, after, define, methods]
  | fun_ _ define declared closure =>
      simp only [Node.lower] at closure
      simp [Node.lower, lowerDecl, closure, define, declared]
  | var tracked _ define declared value =>
      simp only [Node.lower] at value
      simp [Node.lower, lowerDecl, tracked, value, define, declared]
  | declsCons _ _ head tail =>
      simp only [Node.lower] at head tail
      simp [Node.lower, lowerDecls, head, tail]
  | methodsCons _ method _ closure tail =>
      simp only [Node.lower] at closure tail
      simp [Node.lower, lowerMethods, closure, method, tail]

end Lower

end Cpplox
