import Mathlib.Tactic.Common

namespace Cpplox.Data

/-! Programs that may run out of fuel, and programs that do the same as others. -/

/-- How a program ends without a result.  Nothing is said of one that is stuck. -/
inductive Stop (E : Type) where
  | failed (error : E)
  | outOfFuel
  | stuck
deriving DecidableEq, Repr

variable {E P S A B C D : Type}

/-- Runs `body` while `test` has the result true. -/
def whileTrue (test : EStateM (Stop E) P Bool) (body : EStateM (Stop E) P Unit) :
    Nat → EStateM (Stop E) P Unit
  | 0 => throw .outOfFuel
  | fuel + 1 => do
      if ← test then do
        body
        whileTrue test body fuel
      else return ()

/-- The other program has a related result, or ends in the same way and in a state that
agrees. -/
def Simulates (agrees : P → S → Prop) (result : EStateM.Result (Stop E) P A)
    (other : EStateM.Result (Stop E) S B) (related : A → P → B → S → Prop) : Prop :=
  match result with
  | .ok value inner => ∃ otherValue state, other = .ok otherValue state ∧ related value inner otherValue state
  | .error .stuck _ => True
  | .error stop inner => ∃ state, other = .error stop state ∧ agrees inner state

namespace Simulates

variable {agrees : P → S → Prop} {related : A → P → B → S → Prop} {otherRelated : C → P → D → S → Prop}
  {inner : P} {state : S}

theorem pure {value : A} {otherValue : B} (holds : related value inner otherValue state) :
    Simulates agrees ((Pure.pure value : EStateM (Stop E) P A) inner)
      ((Pure.pure otherValue : EStateM (Stop E) S B) state) related :=
  ⟨otherValue, state, rfl, holds⟩

theorem throw {stop : Stop E} (holds : agrees inner state) :
    Simulates agrees ((MonadExcept.throw stop : EStateM (Stop E) P A) inner)
      ((MonadExcept.throw stop : EStateM (Stop E) S B) state) related := by
  cases stop with
  | stuck => trivial
  | failed | outOfFuel => exact ⟨state, rfl, holds⟩

theorem mono {result : EStateM.Result (Stop E) P A} {other : EStateM.Result (Stop E) S B}
    {wider : A → P → B → S → Prop} (simulates : Simulates agrees result other related)
    (implies : ∀ value inner otherValue state, related value inner otherValue state →
      wider value inner otherValue state) : Simulates agrees result other wider := by
  cases result with
  | ok value inner =>
      obtain ⟨otherValue, state, same, holds⟩ := simulates
      exact ⟨otherValue, state, same, implies _ _ _ _ holds⟩
  | error stop inner => cases stop <;> exact simulates

theorem bind {first : EStateM (Stop E) P A} {otherFirst : EStateM (Stop E) S B}
    {rest : A → EStateM (Stop E) P C} {otherRest : B → EStateM (Stop E) S D}
    (one : Simulates agrees (first inner) (otherFirst state) related)
    (two : ∀ value inner otherValue state, related value inner otherValue state →
      Simulates agrees (rest value inner) (otherRest otherValue state) otherRelated) :
    Simulates agrees ((first >>= rest) inner) ((otherFirst >>= otherRest) state) otherRelated := by
  change Simulates agrees (EStateM.bind first rest inner) (EStateM.bind otherFirst otherRest state) otherRelated
  unfold EStateM.bind
  cases runs : first inner with
  | ok value middle =>
      rw [runs] at one
      obtain ⟨otherValue, otherState, otherRuns, holds⟩ := one
      rw [otherRuns]
      exact two _ _ _ _ holds
  | error stop middle =>
      rw [runs] at one
      cases stop with
      | stuck => trivial
      | failed | outOfFuel =>
          obtain ⟨otherState, otherRuns, holds⟩ := one
          rw [otherRuns]
          exact ⟨otherState, rfl, holds⟩

/-- What only the other program still does. -/
theorem then_ {first : EStateM (Stop E) P A} {otherFirst : EStateM (Stop E) S B}
    {rest : B → EStateM (Stop E) S D} {otherRelated : A → P → D → S → Prop}
    (one : Simulates agrees (first inner) (otherFirst state) related)
    (two : ∀ value inner otherValue state, related value inner otherValue state →
      ∃ last after, rest otherValue state = .ok last after ∧ otherRelated value inner last after) :
    Simulates agrees (first inner) ((otherFirst >>= rest) state) otherRelated := by
  rw [← bind_pure first]
  refine one.bind fun value inner otherValue state holds => ?_
  obtain ⟨last, after, runs, holds⟩ := two value inner otherValue state holds
  exact ⟨last, after, runs, holds⟩

/-- Loops that go on together. -/
theorem whileTrue {test : EStateM (Stop E) P Bool} {otherTest : EStateM (Stop E) S Bool}
    {body : EStateM (Stop E) P Unit} {otherBody : EStateM (Stop E) S Unit} {invariant : P → S → Prop}
    {tested : Bool → P → S → Prop} (agree : ∀ inner state, invariant inner state → agrees inner state)
    (tests : ∀ inner state, invariant inner state → Simulates agrees (test inner) (otherTest state)
      fun result inner otherResult state => otherResult = result ∧ tested result inner state)
    (repeats : ∀ inner state, tested true inner state →
      Simulates agrees (body inner) (otherBody state) fun _ inner _ state => invariant inner state)
    (fuel : Nat) (holds : invariant inner state) :
    Simulates agrees (whileTrue test body fuel inner) (whileTrue otherTest otherBody fuel state)
      fun _ inner _ state => tested false inner state := by
  induction fuel generalizing inner state with
  | zero => exact .throw (agree inner state holds)
  | succ fuel ih =>
      refine .bind (tests inner state holds) fun result inner otherResult state tested => ?_
      obtain ⟨rfl, tested⟩ := tested
      cases otherResult with
      | false => exact .pure tested
      | true =>
          exact .bind (repeats inner state tested) fun _ inner _ state holds => ih holds

end Simulates

def Unstuck (program : EStateM (Stop E) P A) : Prop :=
  ∀ before last, program before ≠ .error .stuck last

namespace Unstuck

theorem pure (value : A) : Unstuck (Pure.pure value : EStateM (Stop E) P A) := by
  intro before last stuck
  cases stuck

theorem throw {stop : Stop E} (other : stop ≠ .stuck) :
    Unstuck (MonadExcept.throw stop : EStateM (Stop E) P A) := by
  intro before last stuck
  cases stuck
  exact other rfl

theorem modify (change : P → P) : Unstuck (modify change : EStateM (Stop E) P Unit) := by
  intro before last stuck
  cases stuck

theorem get : Unstuck (MonadState.get : EStateM (Stop E) P P) := by
  intro before last stuck
  cases stuck

theorem bind {first : EStateM (Stop E) P A} {rest : A → EStateM (Stop E) P B} (one : Unstuck first)
    (two : ∀ value, Unstuck (rest value)) : Unstuck (first >>= rest) := by
  intro before last stuck
  change EStateM.bind first rest before = _ at stuck
  unfold EStateM.bind at stuck
  split at stuck
  next value middle runs => exact two value middle last stuck
  next stop middle runs =>
      cases stuck
      exact one before last runs

theorem whileTrue {test : EStateM (Stop E) P Bool} {body : EStateM (Stop E) P Unit} (tests : Unstuck test)
    (repeats : Unstuck body) (fuel : Nat) : Unstuck (Data.whileTrue test body fuel) := by
  induction fuel with
  | zero => exact .throw (by simp)
  | succ fuel ih =>
      refine .bind tests fun result => ?_
      cases result with
      | true => exact .bind repeats fun _ => ih
      | false => exact .pure ()

end Unstuck

end Cpplox.Data
