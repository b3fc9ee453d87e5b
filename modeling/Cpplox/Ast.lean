import Cpplox.Scanner

namespace Cpplox

/-! Abstract syntax.

Every node keeps the tokens that the compiler puts into the source map or reports in
an error.  Clauses that may be left out are filled in with what the compiler emits in
their place: `nil` at `var`, `true` at `for`. -/

mutual

inductive Expr where
  | false_ (token : Token)
  | true_ (token : Token)
  | nil (token : Token)
  | number (token : Token)
  | string (token : Token)
  /-- An identifier, or `this`. -/
  | variable (token : Token)
  | super (superToken methodName : Token)
  | function (funToken : Token) (params : List Token) (body : Decls)
  | call (callee : Expr) (args : Exprs) (calleeToken : Token)
  | getProperty (object : Expr) (name : Token)
  | unary (operator : Token) (operand : Expr)
  | binary (operator : Token) (left right : Expr)
  | and_ (operator : Token) (left right : Expr)
  | or_ (operator : Token) (left right : Expr)
  /-- `target = value`, or `target.names = value` when there are names. -/
  | assign (target equalToken : Token) (names : List Token) (value : Expr)

inductive Exprs where
  | nil
  | cons (head : Expr) (tail : Exprs)

inductive Stmt where
  /-- What stands for a clause that emits nothing. -/
  | empty
  | expression (value : Expr) (popToken : Token)
  | if_ (token : Token) (condition : Expr) (thenBranch elseBranch : Stmt)
  | for_ (token : Token) (initializer : Decl) (condition : Expr) (increment body : Stmt)
  | block (body : Decls) (braceToken : Token)
  | print (token : Token) (value : Expr)
  | returnDefault (token : Token)
  | return_ (token : Token) (value : Expr)
  | while_ (token : Token) (condition : Expr) (body : Stmt)

inductive Decl where
  | statement (body : Stmt)
  | class_ (classToken name : Token) (superclass : Option Token) (methods : Methods)
  | fun_ (funToken name : Token) (params : List Token) (body : Decls)
  | var (varToken name : Token) (initializer : Expr)

inductive Decls where
  | nil
  | cons (head : Decl) (tail : Decls)

inductive Methods where
  | nil
  | cons (name : Token) (params : List Token) (body : Decls) (tail : Methods)

end

/-- The number of elements. -/
def Exprs.length : Exprs → Nat
  | .nil => 0
  | .cons _ tail => tail.length + 1

def Decls.append : Decls → Decls → Decls
  | .nil, later => later
  | .cons head tail, later => .cons head (tail.append later)

end Cpplox
