import Cpplox.Grammar.Derives

namespace Cpplox

open Dialect

/-! What a phrase begins with, and the `else` that goes to the nearest `if`. -/

def primaryStarts : List TokenType := .leftParen :: .super :: .fun_ :: literals

def expressionStarts : List TokenType := unaryOperators ++ primaryStarts

def statementStarts : List TokenType :=
  [.for_, .if_, .print, .return_, .while_, .leftBrace] ++ expressionStarts

/-- What the phrases of a category begin with; nothing where they may be empty. -/
def Category.starts : Category → List TokenType
  | .declaration => [.class_, .fun_, .var] ++ statementStarts
  | .varDecl => [.var]
  | .function => [.leftParen]
  | .parameterList => [.identifier]
  | .statement _ => statementStarts
  | .exprStmt | .expression | .binary _ | .unary | .argumentList => expressionStarts
  | .forInitializer => [.semicolon, .var] ++ expressionStarts
  | .call | .primary => primaryStarts
  | _ => []

theorem Level.operand_starts (level : Level) : level.operand.starts = expressionStarts := by
  cases level <;> rfl

variable {dialect : Dialect} {category : Category} {types : List TokenType}

/-- The phrase has a first type, which is listed. -/
def OpensWith (starts types : List TokenType) : Prop :=
  ∃ first rest, types = first :: rest ∧ first ∈ starts

theorem OpensWith.mono {starts more : List TokenType} (opens : OpensWith starts types)
    (subset : starts ⊆ more) : OpensWith more types := by
  obtain ⟨first, rest, same, member⟩ := opens
  exact ⟨first, rest, same, subset member⟩

theorem OpensWith.append {starts : List TokenType} (opens : OpensWith starts types)
    (more : List TokenType) : OpensWith starts (types ++ more) := by
  obtain ⟨first, rest, rfl, member⟩ := opens
  exact ⟨first, rest ++ more, rfl, member⟩

theorem primaryStarts_subset : primaryStarts ⊆ expressionStarts := List.subset_append_right _ _

theorem expressionStarts_subset : expressionStarts ⊆ statementStarts :=
  List.subset_append_right _ _

@[simp] theorem Category.starts_statement (shape : Shape) :
    (Category.statement shape).starts = statementStarts := rfl

theorem Derives.opens (derives : Derives dialect category types) (solid : category.starts ≠ []) :
    OpensWith category.starts types := by
  induction derives with
  -- phrases that may be empty
  | program | noDeclaration | declarations | noInitializer | initializer | noMethod | methods
  | noParameter | parameters | noClause | clause | noOperator | operator | noSuffix | callSuffix
  | propertySuffix | noArgument | arguments => exact absurd rfl solid
  -- phrases with a first type of their own
  | class_ | subclass | fun_ | varDecl | function | lastParameter | parameter | print | return_
  | block | forNothing | assignment | parenthesized | super | functionExpression =>
      exact ⟨_, _, rfl, by decide⟩
  | for_ | if_ | ifElse | while_ => exact ⟨_, _, rfl, by simp [statementStarts]⟩
  | literal member => exact ⟨_, _, rfl, by simp [Category.starts, primaryStarts, member]⟩
  | unary member => exact ⟨_, _, rfl, by simp [Category.starts, expressionStarts, member]⟩
  -- phrases that begin with a smaller one
  | var _ ih => exact (ih (by decide)).mono (by decide)
  | statement _ _ ih => exact (ih (List.cons_ne_nil _ _)).mono (List.subset_append_right _ _)
  | exprStmt _ ih => exact (ih (by decide)).mono expressionStarts_subset
  | expressionStatement _ ih => exact (ih (by decide)).append _
  | forVar _ ih => exact (ih (by decide)).mono (by decide)
  | forExpression _ ih => exact (ih (by decide)).mono (List.subset_append_right _ _)
  | propertyAssignment _ _ _ ih => exact ((ih (by decide)).mono primaryStarts_subset).append _
  | logicOr _ ih => exact ih (by decide)
  | @binary level _ _ _ _ ih =>
      rw [level.operand_starts] at ih
      exact (ih (by decide)).append _
  | unaryCall _ ih => exact (ih (by decide)).mono primaryStarts_subset
  | call _ _ ih => exact (ih (by decide)).append _
  | lastArgument _ ih => exact ih (by decide)
  | argument _ _ ih => exact (ih (by decide)).append _

/-- With an `else` behind it, an open statement is a statement again. -/
theorem Derives.reattach {body other : List TokenType} {after : Shape}
    (derives : Derives greedy (.statement .open_) body)
    (derivesOther : Derives greedy (.statement after) other) :
    ∃ shape, Derives greedy (.statement shape) (body ++ .else_ :: other) := by
  generalize isOpen : Category.statement .open_ = category at derives
  induction derives with
  | @if_ condition body shape laterCondition laterBody _ ih =>
      cases shape with
      | closed =>
          refine ⟨after, ?_⟩
          simpa using Derives.ifElse laterCondition rfl laterBody derivesOther
      | open_ =>
          obtain ⟨shape, whole⟩ := ih rfl
          refine ⟨.open_, ?_⟩
          simpa using Derives.if_ laterCondition whole
  | ifElse condition closed laterBody _ _ _ ih =>
      cases isOpen
      obtain ⟨shape, whole⟩ := ih rfl
      refine ⟨shape, ?_⟩
      simpa using Derives.ifElse condition closed laterBody whole
  | while_ condition _ _ ih =>
      cases isOpen
      obtain ⟨shape, whole⟩ := ih rfl
      refine ⟨shape, ?_⟩
      simpa using Derives.while_ condition whole
  | for_ initializer condition increment _ _ _ _ ih =>
      cases isOpen
      obtain ⟨shape, whole⟩ := ih rfl
      refine ⟨shape, ?_⟩
      simpa using Derives.for_ initializer condition increment whole
  | _ => cases isOpen

/-- The same phrase, a statement perhaps of another shape. -/
def Greedy : Category → List TokenType → Prop
  | .statement _, types => ∃ shape, Derives greedy (.statement shape) types
  | category, types => Derives greedy category types

theorem Level.greedy_operand (level : Level) : Greedy level.operand types ↔
    Derives greedy level.operand types := by
  cases level <;> rfl

/-- Every `else` can be given to the nearest `if`. -/
theorem Derives.greedy (derives : Derives compiled category types) : Greedy category types := by
  induction derives with
  | program _ ih => exact .program ih
  | noDeclaration => exact .noDeclaration
  | declarations _ _ ih ihTail => exact .declarations ih ihTail
  | class_ _ ih => exact .class_ ih
  | subclass _ ih => exact .subclass ih
  | fun_ _ ih => exact .fun_ ih
  | var _ ih => exact .var ih
  | statement allowed _ ih => exact ih.elim fun _ derives => .statement allowed derives
  | varDecl _ ih => exact .varDecl ih
  | noInitializer => exact .noInitializer
  | initializer _ ih => exact .initializer ih
  | noMethod => exact .noMethod
  | methods _ _ ih ihTail => exact .methods ih ihTail
  | function _ _ ih ihBody => exact .function ih ihBody
  | noParameter => exact .noParameter
  | parameters _ ih => exact .parameters ih
  | lastParameter => exact .lastParameter
  | parameter _ ih => exact .parameter ih
  | exprStmt _ ih => exact ⟨_, .exprStmt ih⟩
  | expressionStatement _ ih => exact .expressionStatement ih
  | for_ _ _ _ _ ihInitializer ihCondition ihIncrement ih =>
      exact ih.imp fun _ derives => .for_ ihInitializer ihCondition ihIncrement derives
  | if_ _ _ ihCondition ih =>
      obtain ⟨shape, derives⟩ := ih
      exact ⟨_, .if_ ihCondition derives⟩
  | ifElse _ _ _ _ ihCondition ih ihOther =>
      obtain ⟨shape, derives⟩ := ih
      obtain ⟨after, other⟩ := ihOther
      cases shape with
      | closed => exact ⟨_, .ifElse ihCondition rfl derives other⟩
      | open_ =>
          obtain ⟨shape, whole⟩ := derives.reattach other
          refine ⟨.open_, ?_⟩
          simpa using Derives.if_ ihCondition whole
  | print _ ih => exact ⟨_, .print ih⟩
  | return_ _ ih => exact ⟨_, .return_ ih⟩
  | while_ _ _ ihCondition ih => exact ih.imp fun _ derives => .while_ ihCondition derives
  | block _ ih => exact ⟨_, .block ih⟩
  | forNothing => exact .forNothing
  | forVar _ ih => exact .forVar ih
  | forExpression _ ih => exact .forExpression ih
  | noClause => exact .noClause
  | clause _ ih => exact .clause ih
  | assignment _ ih => exact .assignment ih
  | propertyAssignment allowed _ _ ih ihValue => exact .propertyAssignment allowed ih ihValue
  | logicOr _ ih => exact .logicOr ih
  | @binary level _ _ _ _ ih ihRest => exact .binary (level.greedy_operand.mp ih) ihRest
  | noOperator => exact .noOperator
  | @operator level _ _ _ member _ _ ih ihRest =>
      exact .operator member (level.greedy_operand.mp ih) ihRest
  | unary member _ ih => exact .unary member ih
  | unaryCall _ ih => exact .unaryCall ih
  | call _ _ ih ihSuffixes => exact .call ih ihSuffixes
  | noSuffix => exact .noSuffix
  | callSuffix _ _ ih ihSuffixes => exact .callSuffix ih ihSuffixes
  | propertySuffix _ ih => exact .propertySuffix ih
  | noArgument => exact .noArgument
  | arguments _ ih => exact .arguments ih
  | lastArgument _ ih => exact .lastArgument ih
  | argument _ _ ih ihRest => exact .argument ih ihRest
  | literal member => exact .literal member
  | parenthesized _ ih => exact .parenthesized ih
  | super => exact .super
  | functionExpression _ ih => exact .functionExpression ih

end Cpplox
