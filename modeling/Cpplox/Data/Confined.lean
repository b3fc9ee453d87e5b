import Mathlib.Tactic.Common

namespace Cpplox.Data

/-! Which exceptions an operation may throw. -/

variable {E S A B : Type} {allowed other : E → Prop} {first : EStateM E S A} {rest : A → EStateM E S B}
  {value : A} {state middle later : S} {error : E}

/-- From this state the operation throws only what is allowed. -/
def Confined (allowed : E → Prop) (operation : EStateM E S A) (state : S) : Prop :=
  ∀ error later, operation state = .error error later → allowed error

namespace Confined

theorem of_ok (runs : first state = .ok value later) : Confined allowed first state := by
  intro error after throws
  rw [runs] at throws
  cases throws

theorem done {last : EStateM E S Unit} (runs : last state = .ok () later) : Confined allowed last state :=
  of_ok runs

theorem pure (value : A) (state : S) : Confined allowed (Pure.pure value : EStateM E S A) state := by
  intro error later throws
  cases throws

theorem throw (permitted : allowed error) (state : S) :
    Confined allowed (MonadExcept.throw error : EStateM E S A) state := by
  intro other later throws
  cases throws
  exact permitted

theorem bind (one : Confined allowed first state)
    (two : ∀ value middle, first state = .ok value middle → Confined allowed (rest value) middle) :
    Confined allowed (first >>= rest) state := by
  intro error later throws
  change EStateM.bind first rest state = _ at throws
  unfold EStateM.bind at throws
  cases runs : first state with
  | ok value middle =>
      rw [runs] at throws
      exact two value middle runs error later throws
  | error failure middle =>
      rw [runs] at throws
      cases throws
      exact one error later runs

/-- A step that is known to succeed. -/
theorem step (runs : first state = .ok value middle) (two : Confined allowed (rest value) middle) :
    Confined allowed (first >>= rest) state := by
  refine bind (of_ok runs) fun other after same => ?_
  rw [runs] at same
  cases same
  exact two

theorem next {first : EStateM E S Unit} {rest : Unit → EStateM E S B} (runs : first state = .ok () middle)
    (two : Confined allowed (rest ()) middle) : Confined allowed (first >>= rest) state := step runs two

theorem mono (confined : Confined allowed first state) (implies : ∀ error, allowed error → other error) :
    Confined other first state :=
  fun error later throws => implies error (confined error later throws)

/-- What throws nothing succeeds. -/
theorem succeeds {operation : EStateM E S A} (confined : Confined (fun _ => False) operation state) :
    ∃ value later, operation state = .ok value later := by
  cases runs : operation state with
  | ok value later => exact ⟨value, later, rfl⟩
  | error error later => exact (confined error later runs).elim

end Confined

end Cpplox.Data
