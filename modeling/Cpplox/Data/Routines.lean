import Mathlib.Logic.Relation
import Mathlib.Order.WellFounded
import Mathlib.Tactic.Common

namespace Cpplox.Data

/-! Recursive procedures over a state, where actions may fail.

A routine is a tree of actions and calls.  The machine does its actions one by one, and
puts the body of a procedure in the place of a call. -/

/-- What a routine does next may depend on what actions and calls return. -/
inductive Routine (S E : Type) {P : Type} (R : P → Type) (α : Type) : Type 1 where
  | done (value : α)
  | act {β : Type} (action : StateT S (Except E) β) (rest : β → Routine S E R α)
  | call (procedure : P) (rest : R procedure → Routine S E R α)

namespace Routine

variable {S E P : Type} {R : P → Type} {α β γ : Type}

protected def bind : Routine S E R α → (α → Routine S E R β) → Routine S E R β
  | .done value, next => next value
  | .act action rest, next => .act action fun value => (rest value).bind next
  | .call procedure rest, next => .call procedure fun value => (rest value).bind next

instance : Monad (Routine S E R) where
  pure := .done
  bind := .bind

@[simp] theorem done_bind (value : α) (next : α → Routine S E R β) :
    (.done value >>= next) = next value := rfl

@[simp] theorem act_bind (action : StateT S (Except E) γ) (rest : γ → Routine S E R α)
    (next : α → Routine S E R β) :
    (.act action rest >>= next) = .act action fun value => rest value >>= next := rfl

@[simp] theorem call_bind (procedure : P) (rest : R procedure → Routine S E R α)
    (next : α → Routine S E R β) :
    (.call procedure rest >>= next) = .call procedure fun value => rest value >>= next := rfl

theorem bind_done (routine : Routine S E R α) : (routine >>= .done) = routine := by
  induction routine with
  | done value => rfl
  | act action rest ih => exact congrArg (Routine.act action) (funext ih)
  | call procedure rest ih => exact congrArg (Routine.call procedure) (funext ih)

theorem assoc (routine : Routine S E R α) (next : α → Routine S E R β)
    (last : β → Routine S E R γ) :
    (routine >>= next >>= last) = routine >>= fun value => next value >>= last := by
  induction routine with
  | done value => rfl
  | act action rest ih => exact congrArg (Routine.act action) (funext ih)
  | call procedure rest ih => exact congrArg (Routine.call procedure) (funext ih)

/-- A single action. -/
def perform (action : StateT S (Except E) α) : Routine S E R α := .act action .done

instance : MonadLift (StateT S (Except E)) (Routine S E R) := ⟨perform⟩

/-- A single call. -/
def invoke (procedure : P) : Routine S E R (R procedure) := .call procedure .done

variable (S E R α) in
structure Config where
  routine : Routine S E R α
  state : S

variable {bodies : (procedure : P) → Routine S E R (R procedure)}

variable (bodies) in
inductive Step : Config S E R α → Config S E R α → Prop where
  | act {B : Type} {action : StateT S (Except E) B} {rest : B → Routine S E R α}
      {before after : S} {value : B} : action.run before = .ok (value, after) →
      Step ⟨.act action rest, before⟩ ⟨rest value, after⟩
  | call (procedure : P) (rest : R procedure → Routine S E R α) (state : S) :
      Step ⟨.call procedure rest, state⟩ ⟨bodies procedure >>= rest, state⟩

variable (bodies) in
abbrev Steps : Config S E R α → Config S E R α → Prop := Relation.ReflTransGen (Step bodies)

variable (bodies) in
/-- The machine stops with a result, or with the error of an action. -/
inductive Halts : Config S E R α → Except E (α × S) → Prop where
  | done (value : α) (state : S) : Halts ⟨.done value, state⟩ (.ok (value, state))
  | fails {B : Type} {action : StateT S (Except E) B} {rest : B → Routine S E R α} {before : S}
      {error : E} : action.run before = .error error → Halts ⟨.act action rest, before⟩ (.error error)
  | step {before after : Config S E R α} {result : Except E (α × S)} : Step bodies before after →
      Halts after result → Halts before result

variable {before after middle : Config S E R α} {result : Except E (α × S)}

theorem Step.unique (one : Step bodies before after) (two : Step bodies before middle) :
    after = middle := by
  cases one with
  | act runs =>
      cases two with
      | act again =>
          cases runs.symm.trans again
          rfl
  | call procedure rest state =>
      cases two with
      | call => rfl

theorem Step.andThen {routine laterRoutine : Routine S E R α} {state laterState : S}
    (step : Step bodies ⟨routine, state⟩ ⟨laterRoutine, laterState⟩) (next : α → Routine S E R β) :
    Step bodies ⟨routine >>= next, state⟩ ⟨laterRoutine >>= next, laterState⟩ := by
  cases step with
  | act runs => exact .act runs
  | call procedure rest state =>
      rw [call_bind, assoc]
      exact .call procedure _ state

theorem Steps.andThen (steps : Steps bodies before after) (next : α → Routine S E R β) :
    Steps bodies ⟨before.routine >>= next, before.state⟩ ⟨after.routine >>= next, after.state⟩ := by
  induction steps with
  | refl => exact .refl
  | tail _ step ih => exact ih.tail (step.andThen next)

theorem Halts.unique {other : Except E (α × S)} (one : Halts bodies before result)
    (two : Halts bodies before other) : result = other := by
  induction one with
  | done value state =>
      cases two with
      | done => rfl
      | step step => cases step
  | fails error =>
      cases two with
      | fails again => exact congrArg Except.error (Except.error.inj (error.symm.trans again))
      | step step =>
          cases step with
          | act runs => cases error.symm.trans runs
  | step step _ ih =>
      cases two with
      | done => cases step
      | fails error =>
          cases step with
          | act runs => cases error.symm.trans runs
      | step again rest => exact ih (step.unique again ▸ rest)

theorem Halts.of_steps (steps : Steps bodies before after) (halts : Halts bodies after result) :
    Halts bodies before result := by
  induction steps using Relation.ReflTransGen.head_induction_on with
  | refl => exact halts
  | head step _ ih => exact .step step ih

/-- Where a machine stops with a value. -/
theorem Halts.steps {value : α} {state : S} (halts : Halts bodies before (.ok (value, state))) :
    Steps bodies before ⟨.done value, state⟩ := by
  generalize same : Except.ok (value, state) = result at halts
  induction halts with
  | done => cases same; exact .refl
  | fails => cases same
  | step step _ ih => exact .head step (ih same)

/-- The rest of a run that stops. -/
theorem Halts.rest (halts : Halts bodies before result) (steps : Steps bodies before after) :
    Halts bodies after result := by
  induction steps with
  | refl => exact halts
  | tail _ step ih =>
      cases ih with
      | done => cases step
      | fails error =>
          cases step with
          | act runs => cases error.symm.trans runs
      | step again rest => exact again.unique step ▸ rest

/-- A machine that stops takes finitely many steps, whatever they are. -/
theorem Halts.acc (halts : Halts bodies before result) :
    Acc (fun later earlier => Step bodies earlier later) before := by
  induction halts with
  | done => exact ⟨_, fun _ step => nomatch step⟩
  | fails error =>
      refine ⟨_, fun _ step => ?_⟩
      cases step with
      | act runs => cases error.symm.trans runs
  | step step _ ih => exact ⟨_, fun _ again => step.unique again ▸ ih⟩

theorem Halts.bind {routine : Routine S E R α} {next : α → Routine S E R β} {state laterState : S}
    {value : α} {last : Except E (β × S)} (one : Halts bodies ⟨routine, state⟩ (.ok (value, laterState)))
    (two : Halts bodies ⟨next value, laterState⟩ last) : Halts bodies ⟨routine >>= next, state⟩ last :=
  .of_steps (one.steps.andThen next) two

theorem Halts.bind_error {routine : Routine S E R α} {state : S} {error : E}
    (fails : Halts bodies ⟨routine, state⟩ (.error error)) (next : α → Routine S E R β) :
    Halts bodies ⟨routine >>= next, state⟩ (.error error) := by
  generalize start : Config.mk routine state = config at fails
  generalize same : Except.error error = result at fails
  induction fails generalizing routine state with
  | done => cases same
  | fails runs =>
      cases start
      cases same
      exact .fails runs
  | @step _ after _ step _ ih =>
      cases start
      exact .step (step.andThen next) (@ih after.routine after.state rfl same)

variable (bodies) in
/-- The routine does what the action does, unless that gives up with `limit`. -/
def Follows (limit : E) (action : StateT S (Except E) α) (routine : Routine S E R α) : Prop :=
  ∀ state, action.run state = .error limit ∨ Halts bodies ⟨routine, state⟩ (action.run state)

namespace Follows

variable {limit : E}

theorem perform (action : StateT S (Except E) α) :
    Follows bodies limit action (Routine.perform action) := by
  intro state
  cases runs : action.run state with
  | error error => exact .inr (.fails runs)
  | ok result => exact .inr (.step (.act runs) (.done _ _))

theorem pure (value : α) : Follows bodies limit (pure value) (.done value) :=
  fun state => .inr (.done value state)

theorem gives_up (routine : Routine S E R α) : Follows bodies limit (throw limit) routine :=
  fun _ => .inl rfl

theorem bind {action : StateT S (Except E) α} {routine : Routine S E R α}
    {rest : α → StateT S (Except E) β} {next : α → Routine S E R β}
    (one : Follows bodies limit action routine)
    (two : ∀ value, Follows bodies limit (rest value) (next value)) :
    Follows bodies limit (action >>= rest) (routine >>= next) := by
  intro state
  rw [StateT.run_bind]
  rcases one state with runsOut | halts
  · rw [runsOut]
    exact .inl rfl
  · cases runs : action.run state with
    | error error => exact .inr (.bind_error (runs ▸ halts) next)
    | ok result =>
        refine (two result.1 result.2).imp id fun rest => ?_
        exact .bind (runs ▸ halts) rest

/-- After an action that the routine performs. -/
theorem act {action : StateT S (Except E) α} {rest : α → StateT S (Except E) β}
    {next : α → Routine S E R β} (two : ∀ value, Follows bodies limit (rest value) (next value)) :
    Follows bodies limit (action >>= rest) (Routine.perform action >>= next) :=
  (perform action).bind two

theorem invoke {procedure : P} {action : StateT S (Except E) (R procedure)}
    (body : Follows bodies limit action (bodies procedure)) :
    Follows bodies limit action (Routine.invoke procedure) := by
  refine fun state => (body state).imp id fun halts => .step (.call procedure _ state) ?_
  rwa [bind_done]

theorem call {procedure : P} {action : StateT S (Except E) (R procedure)}
    {rest : R procedure → StateT S (Except E) β} {next : R procedure → Routine S E R β}
    (body : Follows bodies limit action (bodies procedure))
    (two : ∀ value, Follows bodies limit (rest value) (next value)) :
    Follows bodies limit (action >>= rest) (Routine.invoke procedure >>= next) :=
  (invoke body).bind two

end Follows

end Routine

end Cpplox.Data
