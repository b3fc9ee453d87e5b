import Cpplox.Grammar.Lookahead
import Cpplox.Grammar.Sound
import Mathlib.Order.Filter.AtTopBot.Finite

namespace Cpplox

open Dialect TokenIterator Filter

/-! What each function of the compiler is to accept, with enough fuel. -/

variable {N α β : Type} {dialect : Dialect} {types more : List TokenType}

/-- The action reads the phrase wherever one of these types follows. -/
def PassesOver (N : Type) {α : Type} (action : CompileM N α) (types : List TokenType)
    (follow : TokenType → Prop) : Prop :=
  ∀ (before : Compiler N) last, Awaits before types last → follow last.token.type →
    Passes before action last

def Any (_ : TokenType) : Prop := True

def EndsExpression (type : TokenType) : Prop := type ∈ [TokenType.rightParen, .semicolon, .comma]

instance : DecidablePred EndsExpression := fun type =>
  inferInstanceAs (Decidable (type ∈ [TokenType.rightParen, .semicolon, .comma]))

/-- How tightly a token binds to the operand before it. -/
def TokenType.strength : TokenType → Nat
  | .or_ => 1
  | .and_ => 2
  | .bangEqual | .equalEqual => 3
  | .greater | .greaterEqual | .less | .lessEqual => 4
  | .minus | .plus => 5
  | .slash | .star => 6
  | .leftParen | .dot => 7
  | _ => 0

def Level.strength : Level → Nat
  | or_ => 1
  | and_ => 2
  | equality => 3
  | comparison => 4
  | term => 5
  | factor => 6

theorem Level.isOperator_strength (level : Level) (type : TokenType) :
    level.isOperator type = true ↔ type.strength = level.strength := by
  cases level <;> cases type <;> decide

theorem Level.strength_of_mem {level : Level} {operator : TokenType}
    (member : operator ∈ level.operators) : operator.strength = level.strength :=
  (level.isOperator_strength operator).mp ((level.isOperator_iff operator).mpr member)

def Level.step (level : Level) (operand : CompileM N Unit) : Token → CompileM N Unit :=
  match level with
  | or_ => orStep operand
  | and_ => andStep operand
  | _ => binaryStep operand

section

variable [Number N]

def compileLevel : Level → Nat → CompileM N Unit
  | .or_ => compileOrPrecedenceExpression
  | .and_ => compileAndPrecedenceExpression
  | .equality => compileEqualityPrecedenceExpression
  | .comparison => compileComparisonPrecedenceExpression
  | .term => compileAdditionPrecedenceExpression
  | .factor => compileMultiplicationPrecedenceExpression

def compileOperand : Level → Nat → CompileM N Unit
  | .or_ => compileAndPrecedenceExpression
  | .and_ => compileEqualityPrecedenceExpression
  | .equality => compileComparisonPrecedenceExpression
  | .comparison => compileAdditionPrecedenceExpression
  | .term => compileMultiplicationPrecedenceExpression
  | .factor => compileUnaryPrecedenceExpression

theorem compileLevel_succ (level : Level) (fuel : Nat) :
    (compileLevel level (fuel + 1) : CompileM N Unit) = (do
      compileOperand level fuel
      whileOperator level.isOperator (level.step (compileOperand level fuel)) fuel) := by
  cases level
  · exact compileOrPrecedenceExpression.eq_2 fuel
  · exact compileAndPrecedenceExpression.eq_2 fuel
  · exact compileEqualityPrecedenceExpression.eq_2 fuel
  · exact compileComparisonPrecedenceExpression.eq_2 fuel
  · exact compileAdditionPrecedenceExpression.eq_2 fuel
  · exact compileMultiplicationPrecedenceExpression.eq_2 fuel

end

theorem eventually_succ {holds later : Nat → Prop} (eventually : ∀ᶠ fuel in atTop, holds fuel)
    (step : ∀ fuel, holds fuel → later (fuel + 1)) : ∀ᶠ fuel in atTop, later fuel := by
  obtain ⟨enough, holds⟩ := eventually_atTop.mp eventually
  refine eventually_atTop.mpr ⟨enough + 1, fun fuel le => ?_⟩
  obtain ⟨fuel, rfl⟩ := Nat.exists_eq_add_of_le' (Nat.le_trans (Nat.le_add_left 1 enough) le)
  exact step fuel (holds fuel (Nat.le_of_succ_le_succ le))

namespace PassesOver

variable {first : CompileM N α} {rest : α → CompileM N β} {follow : TokenType → Prop}
  {before : Compiler N} {last : TokenIterator} {type : TokenType}

/-- The phrase, when a type that may follow it does. -/
theorem andThen (passes : PassesOver N first types follow)
    (awaits : Awaits before (types ++ type :: more) last) (follows : follow type)
    (two : ∀ value after, Awaits after (type :: more) last → Passes after (rest value) last) :
    Passes before (first >>= rest) last :=
  .phrase awaits (fun _ consumes here => passes _ _ here (consumes.1.symm ▸ follows)) two

theorem any (passes : PassesOver N first types Any) (awaits : Awaits before (types ++ more) last)
    (two : ∀ value after, Awaits after more last → Passes after (rest value) last) :
    Passes before (first >>= rest) last :=
  .phrase awaits (fun _ _ here => passes _ _ here trivial) two

/-- The last phrase. -/
theorem atLast (passes : PassesOver N first types follow) (awaits : Awaits before types last)
    (follows : follow last.token.type)
    (two : ∀ value after, after.tokenIter = last → Awaits after [] last →
      Passes after (rest value) last) : Passes before (first >>= rest) last :=
  (passes before last awaits follows).bind fun value after same =>
    two value after same ⟨same ▸ awaits.consumes.faithful awaits.faithful, same.symm⟩

/-- A phrase that is read with the type that closes it. -/
theorem closed (passes : PassesOver N first (types ++ [type]) Any)
    (awaits : Awaits before (types ++ type :: more) last)
    (two : ∀ value after, Awaits after more last → Passes after (rest value) last) :
    Passes before (first >>= rest) last := by
  have whole : Awaits before ((types ++ [type]) ++ more) last := by simpa using awaits
  exact passes.any whole two

theorem quietly (passes : PassesOver N first types follow) (two : ∀ value, Quiet (rest value)) :
    PassesOver N (first >>= rest) types follow :=
  fun before last awaits follows => .finish awaits (fun here => passes before last here follows) two

theorem after_quiet (quiet : Quiet first) (passes : ∀ value, PassesOver N (rest value) types follow) :
    PassesOver N (first >>= rest) types follow :=
  fun _ _ awaits follows => .quiet quiet awaits fun value _ here => passes value _ _ here follows

theorem mono {laterFollow : TokenType → Prop} (passes : PassesOver N first types follow)
    (implies : ∀ type, laterFollow type → follow type) : PassesOver N first types laterFollow :=
  fun before last awaits follows => passes before last awaits (implies _ follows)

end PassesOver

theorem Level.step_passes {level : Level} {operand : CompileM N Unit} {follow : TokenType → Prop}
    (passes : PassesOver N operand types follow) (operator : Token) :
    PassesOver N (level.step operand operator) types follow := by
  cases level with
  | or_ =>
      exact .after_quiet (quiet_emitJump _ _) fun _ => .after_quiet (quiet_emitJump _ _) fun _ =>
        .after_quiet (quiet_toNextOpcode _) fun _ => .after_quiet (quiet_emit _ _) fun _ =>
          passes.quietly fun _ => quiet_toNextOpcode _
  | and_ =>
      exact .after_quiet (quiet_emitJump _ _) fun _ => .after_quiet (quiet_emit _ _) fun _ =>
        passes.quietly fun _ => quiet_toNextOpcode _
  | _ => exact passes.quietly fun _ => quiet_emitAll _ _

variable [Number N]

/-- `expression?` -/
def Clause (N : Type) [Number N] (types : List TokenType) : Prop :=
  types = [] ∨ OpensWith expressionStarts types ∧ ∀ᶠ fuel in atTop, PassesOver N
    (compileAssignmentPrecedenceExpression fuel) types EndsExpression

def Accepted (N : Type) [Number N] : Category → List TokenType → Prop
  | .program, _ => True
  | .declarations, types => ∀ isEnd : TokenType → Bool,
      (∀ type, isEnd type → type = .eof ∨ type = .rightBrace) →
      ∀ᶠ fuel in atTop, PassesOver N (declarationLoop fuel isEnd) types (isEnd · = true)
  | .declaration, types => ∀ᶠ fuel in atTop, PassesOver N (compileDeclaration fuel) types (· ≠ .else_)
  | .varDecl, types => ∀ᶠ fuel in atTop, PassesOver N (compileVarDeclaration fuel) types Any
  | .initializer, types => ∀ᶠ fuel in atTop, ∀ token,
      PassesOver N (compileInitializer fuel token) types (· = .semicolon)
  | .methods, types => ∀ᶠ fuel in atTop, PassesOver N (methodLoop fuel) types (· = .rightBrace)
  | .function, types => ∀ᶠ fuel in atTop, ∀ token,
      PassesOver N (compileFunctionRest fuel token) types Any
  | .parameters, types => ∀ᶠ fuel in atTop,
      PassesOver N (compileParameters fuel) (types ++ [.rightParen]) Any
  | .parameterList, types => ∀ᶠ fuel in atTop,
      PassesOver N (parameterLoop fuel) (types ++ [.rightParen]) Any
  | .statement shape, types => ∀ᶠ fuel in atTop,
      PassesOver N (compileStatement fuel) types fun type => shape = .open_ → type ≠ .else_
  | .exprStmt, types => ∀ᶠ fuel in atTop, PassesOver N (compileExpressionStatement fuel) types Any
  | .forInitializer, types => ∀ᶠ fuel in atTop, PassesOver N (compileForInitializer fuel) types Any
  | .clause, types => Clause N types
  | .expression, types => ∀ᶠ fuel in atTop,
      PassesOver N (compileAssignmentPrecedenceExpression fuel) types EndsExpression
  | .binary level, types => ∀ᶠ fuel in atTop,
      PassesOver N (compileLevel level fuel) types (·.strength < level.strength)
  | .rest level, types => ∀ᶠ fuel in atTop, ∀ operandFuel, fuel ≤ operandFuel →
      PassesOver N (whileOperator level.isOperator (level.step (compileOperand level operandFuel)) fuel)
        types (·.strength < level.strength)
  | .unary, types => ∀ᶠ fuel in atTop,
      PassesOver N (compileUnaryPrecedenceExpression fuel) types (·.strength < 7)
  | .call, types => ∀ᶠ fuel in atTop,
      PassesOver N (compileCallPrecedenceExpression fuel) types (·.strength < 7)
  | .suffixes, types => ∀ᶠ fuel in atTop, ∀ token,
      PassesOver N (callLoop fuel token) types (·.strength < 7)
  | .arguments, types => ∀ᶠ fuel in atTop,
      PassesOver N (compileArguments fuel) (types ++ [.rightParen]) Any
  | .argumentList, types => ∀ᶠ fuel in atTop,
      PassesOver N (argumentLoop fuel) types (· = .rightParen)
  | .primary, types => ∀ᶠ fuel in atTop, PassesOver N (compilePrimaryExpression fuel) types Any

end Cpplox
