import Cpplox.Chunk

namespace Cpplox

/-! Integers for numbers, to run programs on. -/

/-- The digits up to a decimal point. -/
def integerOf (lexeme : Text) : Int :=
  (lexeme.takeWhile Char.isDigit).foldl (fun value digit => 10 * value + (digit.toNat - 48)) 0

instance : Number Int where
  add := (· + ·)
  subtract := (· - ·)
  multiply := (· * ·)
  divide := (· / ·)
  negate := (- ·)
  less left right := left < right
  greater left right := left > right
  equal left right := left = right
  lexicalCast := integerOf
  print value := if value < 0 then '-' :: decimal value.natAbs else decimal value.natAbs
  lexicalCast_equal _ _ same := of_decide_eq_true same

theorem exists_ok {ε α : Type} {result : Except ε α} (succeeds : result.isOk = true) :
    ∃ value, result = .ok value := by
  cases result with
  | ok value => exact ⟨value, rfl⟩
  | error _ => cases succeeds

end Cpplox
