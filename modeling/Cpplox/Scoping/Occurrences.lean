import Cpplox.Ast.Lower
import Cpplox.Data.NestedScopes

namespace Cpplox

open Data

/-! Lexical scoping of the syntax tree: which declarations are around an occurrence. -/

/-- The names declared around a point of the source: in the function it is in, latest
first, and in the functions around that one.  Nothing is declared at depth 0, where
declarations are globals. -/
structure Visible where
  inner : List Text := []
  outer : List (List Text) := []
  depth : Nat := 0
deriving DecidableEq, Repr

namespace Visible

def functions (visible : Visible) : List (List Text) := visible.inner :: visible.outer

def declare (visible : Visible) (name : Text) : Visible :=
  if visible.depth = 0 then visible else { visible with inner := name :: visible.inner }

def enterScope (visible : Visible) : Visible := { visible with depth := visible.depth + 1 }

/-- The body of a function begins with its own name or `this`, and its parameters. -/
def enterFunction (visible : Visible) (names : List Text) : Visible :=
  { inner := names.reverse, outer := visible.functions, depth := visible.depth + 1 }

/-- The scope around the methods of a class with a superclass.  A global class has a
place without a name below it. -/
def enterSuperclass (visible : Visible) : Visible :=
  { visible with
    inner := if visible.depth = 0 then [] :: visible.inner else visible.inner
    depth := visible.depth + 1 }

end Visible

/-- An identifier that is read or assigned, and the names declared around it. -/
structure Occurrence where
  token : SourceMapToken Text
  functions : List (List Text)
deriving DecidableEq, Repr

inductive Referent where
  /-- A variable of a function around, counted from the innermost one. -/
  | variable_ (place : Nat × Nat)
  | global (name : Text)
deriving DecidableEq, Repr

namespace Occurrence

/-- The innermost declaration of the name, or the global of that name. -/
def declaration (occurrence : Occurrence) : Referent :=
  match nearest latest occurrence.functions occurrence.token.lexeme with
  | some place => .variable_ place
  | none => .global occurrence.token.lexeme

/-- The name is not declared in the function it occurs in, and more than once in the
nearest function around that declares it. -/
def Ambiguous (occurrence : Occurrence) : Prop :=
  match occurrence.functions with
  | [] => False
  | inner :: outer => times inner occurrence.token.lexeme = 0 ∧
      Doubled outer occurrence.token.lexeme

instance (occurrence : Occurrence) : Decidable occurrence.Ambiguous := by
  unfold Ambiguous
  cases occurrence.functions <;> infer_instance

end Occurrence

def Visible.occurrence (visible : Visible) (token : SourceMapToken Text) : Occurrence :=
  ⟨token, visible.functions⟩

/-- What a declaration leaves in its scope. -/
def Decl.declares (visible : Visible) : Decl → Visible
  | .statement _ => visible
  | .class_ _ name _ _ | .fun_ _ name _ _ | .var _ name _ => visible.declare name.lexeme

def Decls.declares (visible : Visible) : Decls → Visible
  | .nil => visible
  | .cons head tail => tail.declares (head.declares visible)

def paramNames (params : List Token) : List Text := params.map (·.lexeme)

mutual

def Expr.occurrences (visible : Visible) : Expr → List Occurrence
  | .false_ _ | .true_ _ | .nil _ | .number _ | .string _ => []
  | .variable token => [visible.occurrence (sourceMapToken token)]
  | .super superToken _ => [visible.occurrence (thisToken superToken.line),
      visible.occurrence (sourceMapToken superToken)]
  | .function _ params body => body.occurrences (visible.enterFunction (paramNames params))
  | .call callee args _ => callee.occurrences visible ++ args.occurrences visible
  | .getProperty object _ => object.occurrences visible
  | .unary _ operand => operand.occurrences visible
  | .binary _ left right | .and_ _ left right | .or_ _ left right =>
      left.occurrences visible ++ right.occurrences visible
  | .assign target _ _ value =>
      value.occurrences visible ++ [visible.occurrence (sourceMapToken target)]

def Exprs.occurrences (visible : Visible) : Exprs → List Occurrence
  | .nil => []
  | .cons head tail => head.occurrences visible ++ tail.occurrences visible

def Stmt.occurrences (visible : Visible) : Stmt → List Occurrence
  | .empty | .returnDefault _ => []
  | .expression value _ | .print _ value | .return_ _ value => value.occurrences visible
  | .if_ _ condition thenBranch elseBranch => condition.occurrences visible ++
      (thenBranch.occurrences visible ++ elseBranch.occurrences visible)
  | .for_ _ initializer condition increment body =>
      initializer.occurrences visible.enterScope ++
        (condition.occurrences (initializer.declares visible.enterScope) ++
          (increment.occurrences (initializer.declares visible.enterScope) ++
            body.occurrences (initializer.declares visible.enterScope)))
  | .block body _ => body.occurrences visible.enterScope
  | .while_ _ condition body => condition.occurrences visible ++ body.occurrences visible

def Decl.occurrences (visible : Visible) : Decl → List Occurrence
  | .statement body => body.occurrences visible
  | .class_ _ name none methods => methods.occurrences (visible.declare name.lexeme)
  | .class_ _ name (some superclass) methods =>
      (visible.declare name.lexeme).enterSuperclass.occurrence (sourceMapToken superclass) ::
        methods.occurrences ((visible.declare name.lexeme).enterSuperclass.declare superName)
  | .fun_ _ name params body =>
      body.occurrences (visible.enterFunction (name.lexeme :: paramNames params))
  | .var _ name initializer => initializer.occurrences (visible.declare name.lexeme)

def Decls.occurrences (visible : Visible) : Decls → List Occurrence
  | .nil => []
  | .cons head tail => head.occurrences visible ++ tail.occurrences (head.declares visible)

def Methods.occurrences (visible : Visible) : Methods → List Occurrence
  | .nil => []
  | .cons _ params body tail =>
      body.occurrences (visible.enterFunction (thisName :: paramNames params)) ++
        tail.occurrences visible

end

/-- The variable an upvalue goes back to, through the functions around. -/
def followUpvalue : List FunctionScope → Nat → Option (Nat × Nat)
  | [], _ => none
  | scope :: outer, index =>
      match scope.upvalues[index]? with
      | some (.upvalueIndex local_) => some (1, local_)
      | some (.upUpvalueIndex upvalue) => (followUpvalue outer upvalue).map deeper
      | none => none

def Emission.referent {N : Type} (constants : List (Constant N)) (emission : Emission) :
    Option Referent :=
  match emission.instr with
  | .operand opcode index =>
      match opcode with
      | .getLocal | .setLocal => some (.variable_ (0, index))
      | .getUpvalue | .setUpvalue => (followUpvalue emission.scopes index).map .variable_
      | .getGlobal | .setGlobal =>
          match constants[index]? with
          | some (.string name) => some (.global name)
          | _ => none
      | _ => none
  | _ => none

/-- The instruction emitted at an occurrence. -/
def Emission.IsAt (emission : Emission) (occurrence : Occurrence) : Prop :=
  emission.occurrence = some occurrence.token.lexeme ∧ emission.token = occurrence.token ∧
    emission.scopes.map (fun scope => scope.locals.map (·.name)) = occurrence.functions

end Cpplox
