import Cpplox.Grammar.Normal
import Cpplox.Grammar.Passes

namespace Cpplox

open Dialect TokenIterator

/-! The look-ahead for an assignment. -/

variable {dialect : Dialect} {category : Category} {types : List TokenType}

/-- What could be the left side of an assignment. -/
def IsName (type : TokenType) : Prop := type = .identifier ∨ type = .this_

/-- Here a path ends, and not at an `=`. -/
def EndsPath (types : List TokenType) : Prop := ∀ type ∈ types.head?, type ≠ .dot ∧ type ≠ .equal

def HasPath (types : List TokenType) : Prop :=
  ∃ count more, types = path count ++ more ∧ EndsPath more

/-- The longest path at the beginning of a phrase ends in it, but for assignments. -/
def Clear : Category → List TokenType → Prop
  | .primary, types => ∀ first rest, types = first :: rest → IsName first → rest = []
  | .suffixes, types => HasPath types
  | .rest _, types => EndsPath types
  | .call, types | .unary, types | .binary _, types =>
      ∀ first rest, types = first :: rest → IsName first → HasPath rest
  | _, _ => True

theorem HasPath.append {more : List TokenType} (hasPath : HasPath types) (ends : EndsPath more) :
    HasPath (types ++ more) := by
  obtain ⟨count, rest, rfl, endsRest⟩ := hasPath
  refine ⟨count, rest ++ more, by rw [List.append_assoc], ?_⟩
  cases rest with
  | nil => exact ends
  | cons => exact endsRest

theorem not_isName {type : TokenType} (other : type ∉ [TokenType.identifier, .this_]) :
    ¬ IsName type := by
  simpa [IsName] using other

theorem Level.clear_operand {level : Level} (clear : Clear level.operand types) :
    ∀ first rest, types = first :: rest → IsName first → HasPath rest := by
  cases level <;> exact clear

theorem Level.operators_end (level : Level) :
    ∀ operator ∈ level.operators, operator ≠ .dot ∧ operator ≠ .equal := by
  cases level <;> decide

theorem Derives.clear (derives : Derives dialect category types) : Clear category types := by
  induction derives with
  | literal => rintro first rest ⟨⟩ -; rfl
  | parenthesized | super | functionExpression =>
      rintro first rest ⟨⟩ name
      exact absurd name (not_isName (by decide))
  | noSuffix => exact ⟨0, [], rfl, nofun⟩
  | callSuffix => exact ⟨0, _, rfl, by rintro _ ⟨⟩; decide⟩
  | propertySuffix _ ih =>
      obtain ⟨count, more, rfl, ends⟩ := ih
      exact ⟨count + 1, more, rfl, ends⟩
  | @call primary _ derives _ ih ihSuffixes =>
      intro first rest same name
      obtain ⟨type, tail, rfl, -⟩ := derives.opens (by decide)
      cases same
      rw [ih _ _ rfl name]
      exact ihSuffixes
  | unary member =>
      rintro first rest ⟨⟩ name
      have others : ∀ operator ∈ unaryOperators, operator ∉ [TokenType.identifier, .this_] := by decide
      exact absurd name (not_isName (others _ member))
  | unaryCall _ ih => exact ih
  | noOperator => exact nofun
  | @operator level _ _ _ member =>
      rintro type ⟨⟩
      exact level.operators_end _ member
  | @binary level left more derives _ ih ihRest =>
      intro first rest same name
      obtain ⟨type, tail, rfl, -⟩ := derives.opens (by rw [level.operand_starts]; decide)
      cases same
      exact (level.clear_operand ih _ _ rfl name).append ihRest
  | _ => trivial

variable {iter last stop : TokenIterator}

theorem ensureTokenIs_run {token : Token} {type : TokenType} (same : token.type = type) :
    ensureTokenIs token type = .ok () := if_pos same

theorem except_bind {α β : Type} {first : Except Error α} {value : α} (runs : first = .ok value)
    (rest : α → Except Error β) : first >>= rest = rest value := by
  rw [runs]
  rfl

/-- The look-ahead reads the path, and as little as that. -/
theorem peekPropertyNames_path {count fuel : Nat} (consumes : iter.Consumes (path count) stop)
    (ends : stop.token.type ≠ .dot) (enough : count < fuel) :
    ∃ names, peekPropertyNames fuel iter = .ok (names, stop) ∧ names.length = count := by
  induction count generalizing iter fuel with
  | zero =>
      obtain ⟨fuel, rfl⟩ := Nat.exists_eq_add_of_lt enough
      have same : stop = iter := consumes
      subst same
      refine ⟨[], ?_, rfl⟩
      rw [Nat.zero_add, peekPropertyNames, if_neg ends]
      rfl
  | succ count ih =>
      cases fuel with
      | zero => exact absurd enough (Nat.not_lt_zero _)
      | succ fuel =>
          obtain ⟨dot, name, first, identifier, after, second, rest⟩ := consumes
          obtain ⟨names, peeks, length⟩ := ih rest (Nat.lt_of_succ_lt_succ enough)
          refine ⟨name.token :: names, ?_, by simp [length]⟩
          rw [peekPropertyNames, if_pos dot, except_bind first,
            except_bind (ensureTokenIs_run identifier), except_bind second, except_bind peeks]
          rfl

theorem length_path (count : Nat) : (path count).length = 2 * count := by
  simp [path, Nat.mul_comm]

theorem isName_iff {type : TokenType} :
    (decide (type = .identifier) || decide (type = .this_)) = true ↔ IsName type := by
  simp [IsName]

theorem peekAssignment_some {first : TokenType} {count fuel : Nat} (name : IsName first)
    (consumes : iter.Consumes (first :: path count) stop) (equal : stop.token.type = .equal)
    (enough : count < fuel) :
    ∃ names, peekAssignment fuel iter = .ok (some (names, stop)) ∧ names.length = count := by
  obtain ⟨same, after, advances, rest⟩ := consumes
  obtain ⟨names, peeks, length⟩ :=
    peekPropertyNames_path rest (by rw [equal]; decide) enough
  refine ⟨names, ?_, length⟩
  rw [peekAssignment, if_pos (isName_iff.mpr (same ▸ name)), except_bind advances, except_bind peeks]
  change Except.ok (if stop.token.type = .equal then _ else _) = _
  rw [if_pos equal]

/-- Where no assignment stands, the look-ahead finds none and does not throw. -/
theorem peekAssignment_none {fuel : Nat} (consumes : iter.Consumes types last)
    (clear : ∀ first rest, types = first :: rest → IsName first → HasPath rest)
    (nonempty : types ≠ []) (ends : last.token.type ≠ .dot ∧ last.token.type ≠ .equal)
    (enough : types.length < fuel) : peekAssignment fuel iter = .ok none := by
  obtain ⟨first, rest, rfl⟩ := List.exists_cons_of_ne_nil nonempty
  obtain ⟨same, after, advances, consumesRest⟩ := consumes
  rw [peekAssignment]
  split
  next name =>
      obtain ⟨count, more, rfl, endsMore⟩ := clear first rest rfl (same ▸ isName_iff.mp name)
      obtain ⟨stop, path, beyond⟩ := consumesRest.split
      have stops : stop.token.type ≠ .dot ∧ stop.token.type ≠ .equal := by
        cases more with
        | nil =>
            have finished : last = stop := beyond
            exact finished ▸ ends
        | cons type more =>
            rw [beyond.1]
            exact endsMore type rfl
      have shorter : count < fuel := by
        simp only [List.length_cons, List.length_append, length_path] at enough
        omega
      obtain ⟨names, peeks, -⟩ := peekPropertyNames_path path stops.1 shorter
      rw [except_bind advances, except_bind peeks]
      change Except.ok (if stop.token.type = .equal then _ else _) = _
      rw [if_neg stops.2]
  next => rfl

end Cpplox
