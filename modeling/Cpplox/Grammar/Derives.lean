import Cpplox.Scanner

namespace Cpplox

/-! The grammar of Lox, over token types. -/

/-- The left-associative levels, the loosest first. -/
inductive Level where
  | or_ | and_ | equality | comparison | term | factor
deriving DecidableEq, Repr

def Level.operators : Level → List TokenType
  | or_ => [.or_]
  | and_ => [.and_]
  | equality => [.bangEqual, .equalEqual]
  | comparison => [.greater, .greaterEqual, .less, .lessEqual]
  | term => [.minus, .plus]
  | factor => [.slash, .star]

/-- Whether an `else` after a statement would belong to an `if` inside it. -/
inductive Shape where
  | closed | open_
deriving DecidableEq, Repr

inductive Category where
  | program | declarations | declaration | varDecl | initializer
  | methods | function | parameters | parameterList
  | statement (shape : Shape)
  | exprStmt | forInitializer | clause
  | expression
  | binary (level : Level)
  /-- The operators of a level and their right operands. -/
  | rest (level : Level)
  | unary | call | suffixes | arguments | argumentList | primary

def Level.operand : Level → Category
  | or_ => .binary .and_
  | and_ => .binary .equality
  | equality => .binary .comparison
  | comparison => .binary .term
  | term => .binary .factor
  | factor => .unary

/-- Where dialects differ: the objects whose properties are assigned to, the statements
among declarations, and the branches that an `else` follows. -/
structure Dialect where
  object : List TokenType → Prop
  statement : List TokenType → Prop
  thenBranch : Shape → Prop

def literals : List TokenType := [.true_, .false_, .nil, .this_, .number, .string, .identifier]

def unaryOperators : List TokenType := [.bang, .minus]

inductive Derives (dialect : Dialect) : Category → List TokenType → Prop where
  -- program → declaration* EOF
  | program {types : List TokenType} : Derives dialect .declarations types →
      Derives dialect .program (types ++ [.eof])
  | noDeclaration : Derives dialect .declarations []
  | declarations {head tail : List TokenType} : Derives dialect .declaration head →
      Derives dialect .declarations tail → Derives dialect .declarations (head ++ tail)
  -- declaration → classDecl | funDecl | varDecl | statement
  | class_ {methods : List TokenType} : Derives dialect .methods methods →
      Derives dialect .declaration
        (.class_ :: .identifier :: .leftBrace :: methods ++ [.rightBrace])
  | subclass {methods : List TokenType} : Derives dialect .methods methods →
      Derives dialect .declaration
        (.class_ :: .identifier :: .less :: .identifier :: .leftBrace :: methods ++ [.rightBrace])
  | fun_ {function : List TokenType} : Derives dialect .function function →
      Derives dialect .declaration (.fun_ :: .identifier :: function)
  | var {types : List TokenType} : Derives dialect .varDecl types →
      Derives dialect .declaration types
  | statement {types : List TokenType} {shape : Shape} : dialect.statement types →
      Derives dialect (.statement shape) types → Derives dialect .declaration types
  -- varDecl → "var" IDENTIFIER ( "=" expression )? ";"
  | varDecl {value : List TokenType} : Derives dialect .initializer value →
      Derives dialect .varDecl (.var :: .identifier :: value ++ [.semicolon])
  | noInitializer : Derives dialect .initializer []
  | initializer {value : List TokenType} : Derives dialect .expression value →
      Derives dialect .initializer (.equal :: value)
  -- function → IDENTIFIER "(" parameters? ")" block, less the name
  | noMethod : Derives dialect .methods []
  | methods {head tail : List TokenType} : Derives dialect .function head →
      Derives dialect .methods tail → Derives dialect .methods (.identifier :: head ++ tail)
  | function {parameters body : List TokenType} : Derives dialect .parameters parameters →
      Derives dialect .declarations body → Derives dialect .function
        (.leftParen :: parameters ++ .rightParen :: .leftBrace :: body ++ [.rightBrace])
  -- parameters → IDENTIFIER ( "," IDENTIFIER )*
  | noParameter : Derives dialect .parameters []
  | parameters {types : List TokenType} : Derives dialect .parameterList types →
      Derives dialect .parameters types
  | lastParameter : Derives dialect .parameterList [.identifier]
  | parameter {types : List TokenType} : Derives dialect .parameterList types →
      Derives dialect .parameterList (.identifier :: .comma :: types)
  -- statement → exprStmt | forStmt | ifStmt | printStmt | returnStmt | whileStmt | block
  | exprStmt {types : List TokenType} : Derives dialect .exprStmt types →
      Derives dialect (.statement .closed) types
  | expressionStatement {value : List TokenType} : Derives dialect .expression value →
      Derives dialect .exprStmt (value ++ [.semicolon])
  | for_ {initializer condition increment body : List TokenType} {shape : Shape} :
      Derives dialect .forInitializer initializer → Derives dialect .clause condition →
      Derives dialect .clause increment → Derives dialect (.statement shape) body →
      Derives dialect (.statement shape) (.for_ :: .leftParen :: initializer ++ condition ++
        .semicolon :: increment ++ .rightParen :: body)
  | if_ {condition body : List TokenType} {shape : Shape} : Derives dialect .expression condition →
      Derives dialect (.statement shape) body → Derives dialect (.statement .open_)
        (.if_ :: .leftParen :: condition ++ .rightParen :: body)
  | ifElse {condition body other : List TokenType} {before after : Shape} :
      Derives dialect .expression condition → dialect.thenBranch before →
      Derives dialect (.statement before) body → Derives dialect (.statement after) other →
      Derives dialect (.statement after)
        (.if_ :: .leftParen :: condition ++ .rightParen :: body ++ .else_ :: other)
  | print {value : List TokenType} : Derives dialect .expression value →
      Derives dialect (.statement .closed) (.print :: value ++ [.semicolon])
  | return_ {value : List TokenType} : Derives dialect .clause value →
      Derives dialect (.statement .closed) (.return_ :: value ++ [.semicolon])
  | while_ {condition body : List TokenType} {shape : Shape} :
      Derives dialect .expression condition → Derives dialect (.statement shape) body →
      Derives dialect (.statement shape) (.while_ :: .leftParen :: condition ++ .rightParen :: body)
  | block {body : List TokenType} : Derives dialect .declarations body →
      Derives dialect (.statement .closed) (.leftBrace :: body ++ [.rightBrace])
  -- ( varDecl | exprStmt | ";" )
  | forNothing : Derives dialect .forInitializer [.semicolon]
  | forVar {types : List TokenType} : Derives dialect .varDecl types →
      Derives dialect .forInitializer types
  | forExpression {types : List TokenType} : Derives dialect .exprStmt types →
      Derives dialect .forInitializer types
  -- expression?
  | noClause : Derives dialect .clause []
  | clause {value : List TokenType} : Derives dialect .expression value →
      Derives dialect .clause value
  -- expression → ( call "." )? IDENTIFIER "=" expression | logic_or
  | assignment {value : List TokenType} : Derives dialect .expression value →
      Derives dialect .expression (.identifier :: .equal :: value)
  | propertyAssignment {object value : List TokenType} : dialect.object object →
      Derives dialect .call object → Derives dialect .expression value →
      Derives dialect .expression (object ++ .dot :: .identifier :: .equal :: value)
  | logicOr {types : List TokenType} : Derives dialect (.binary .or_) types →
      Derives dialect .expression types
  -- logic_or → logic_and ( "or" logic_and )*, and so on
  | binary {level : Level} {left rest : List TokenType} : Derives dialect level.operand left →
      Derives dialect (.rest level) rest → Derives dialect (.binary level) (left ++ rest)
  | noOperator {level : Level} : Derives dialect (.rest level) []
  | operator {level : Level} {operator : TokenType} {right rest : List TokenType} :
      operator ∈ level.operators → Derives dialect level.operand right →
      Derives dialect (.rest level) rest →
      Derives dialect (.rest level) (operator :: right ++ rest)
  -- unary → ( "!" | "-" ) unary | call
  | unary {operator : TokenType} {operand : List TokenType} : operator ∈ unaryOperators →
      Derives dialect .unary operand → Derives dialect .unary (operator :: operand)
  | unaryCall {types : List TokenType} : Derives dialect .call types →
      Derives dialect .unary types
  -- call → primary ( "(" arguments? ")" | "." IDENTIFIER )*
  | call {primary suffixes : List TokenType} : Derives dialect .primary primary →
      Derives dialect .suffixes suffixes → Derives dialect .call (primary ++ suffixes)
  | noSuffix : Derives dialect .suffixes []
  | callSuffix {arguments suffixes : List TokenType} : Derives dialect .arguments arguments →
      Derives dialect .suffixes suffixes → Derives dialect .suffixes
        (.leftParen :: arguments ++ .rightParen :: suffixes)
  | propertySuffix {suffixes : List TokenType} : Derives dialect .suffixes suffixes →
      Derives dialect .suffixes (.dot :: .identifier :: suffixes)
  -- arguments → expression ( "," expression )*
  | noArgument : Derives dialect .arguments []
  | arguments {types : List TokenType} : Derives dialect .argumentList types →
      Derives dialect .arguments types
  | lastArgument {value : List TokenType} : Derives dialect .expression value →
      Derives dialect .argumentList value
  | argument {value rest : List TokenType} : Derives dialect .expression value →
      Derives dialect .argumentList rest → Derives dialect .argumentList (value ++ .comma :: rest)
  -- primary, with the anonymous function
  | literal {type : TokenType} : type ∈ literals → Derives dialect .primary [type]
  | parenthesized {value : List TokenType} : Derives dialect .expression value →
      Derives dialect .primary (.leftParen :: value ++ [.rightParen])
  | super : Derives dialect .primary [.super, .dot, .identifier]
  | functionExpression {function : List TokenType} : Derives dialect .function function →
      Derives dialect .primary (.fun_ :: function)

namespace Dialect

/-- The grammar of the book, with the anonymous function. -/
def lox : Dialect where
  object := fun _ => True
  statement := fun _ => True
  thenBranch := fun _ => True

/-- `.name` some times. -/
def path (count : Nat) : List TokenType := (List.replicate count [.dot, .identifier]).flatten

/-- A variable or `this`, and a path. -/
def IsPath (types : List TokenType) : Prop :=
  ∃ first count, (first = .identifier ∨ first = .this_) ∧ types = first :: path count

/-- Only properties of paths are assigned to, and no statement among declarations begins
with `fun`. -/
def compiled : Dialect where
  object := IsPath
  statement := fun types => types.head? ≠ some .fun_
  thenBranch := fun _ => True

/-- A dialect with all that the compiler takes. -/
structure Covers (dialect : Dialect) : Prop where
  object : ∀ types, IsPath types → dialect.object types
  statement : ∀ types : List TokenType, types.head? ≠ some .fun_ → dialect.statement types
  thenBranch : ∀ shape, dialect.thenBranch shape

theorem covers_lox : lox.Covers := ⟨fun _ _ => trivial, fun _ _ => trivial, fun _ => trivial⟩

theorem covers_compiled : compiled.Covers := ⟨fun _ => id, fun _ => id, fun _ => trivial⟩

/-- In addition, an `else` belongs to the nearest `if`. -/
def greedy : Dialect := { compiled with thenBranch := fun shape => shape = .closed }

end Dialect

end Cpplox
