import Cpplox.Data.Routines

namespace Cpplox.Data.Routine

/-! Contracts of recursive procedures. -/

variable {S E P : Type} {R : P → Type} {α β γ : Type}

variable (S) in
/-- What holds in every state, what every action may do to it, and what a procedure
requires, ensures, and calls while it is active. -/
structure Contract (R : P → Type) where
  holds : S → Prop
  moves : S → S → Prop
  requires : P → S → Prop
  ensures : (procedure : P) → S → R procedure → S → Prop
  nests : P × S → P × S → Prop

/-- The condition under which a routine keeps a contract and ends in `post`, when it may
call what is `allowed`. -/
def Meets (contract : Contract S R) (allowed : P × S → Prop) (post : α → S → Prop) :
    Routine S E R α → S → Prop
  | .done value, state => contract.holds state ∧ post value state
  | .act action rest, state => contract.holds state ∧ ∀ value after,
      action.run state = .ok (value, after) →
        contract.moves state after ∧ (rest value).Meets contract allowed post after
  | .call procedure rest, state => contract.holds state ∧ contract.requires procedure state ∧
      allowed (procedure, state) ∧ ∀ value after, contract.holds after →
        contract.ensures procedure state value after →
          (rest value).Meets contract allowed post after

structure Contract.Kept (contract : Contract S R) (bodies : (procedure : P) → Routine S E R (R procedure)) :
    Prop where
  trans : ∀ {outer middle inner}, contract.nests outer middle → contract.nests middle inner →
    contract.nests outer inner
  body : ∀ procedure state, contract.holds state → contract.requires procedure state →
    (bodies procedure).Meets contract (contract.nests (procedure, state))
      (contract.ensures procedure state) state

variable {contract : Contract S R} {allowed laterAllowed : P × S → Prop} {post laterPost : α → S → Prop}

namespace Meets

variable {routine : Routine S E R α} {state : S}

theorem holds (meets : routine.Meets contract allowed post state) : contract.holds state := by
  cases routine with
  | done => exact meets.1
  | act => exact meets.1
  | call => exact meets.1

theorem mono (meets : routine.Meets contract allowed post state)
    (allows : ∀ call, allowed call → laterAllowed call)
    (ends : ∀ value after, post value after → laterPost value after) :
    routine.Meets contract laterAllowed laterPost state := by
  induction routine generalizing state with
  | done value => exact ⟨meets.1, ends _ _ meets.2⟩
  | act action rest ih =>
      refine ⟨meets.1, fun value after runs => ?_⟩
      obtain ⟨moves, later⟩ := meets.2 value after runs
      exact ⟨moves, ih value later⟩
  | call procedure rest ih =>
      obtain ⟨here, requires, called, later⟩ := meets
      exact ⟨here, requires, allows _ called, fun value after holds ensures =>
        ih value (later value after holds ensures)⟩

theorem bind {next : α → Routine S E R β} {last : β → S → Prop}
    (first : routine.Meets contract allowed post state)
    (second : ∀ value after, contract.holds after → post value after →
      (next value).Meets contract allowed last after) :
    (routine >>= next).Meets contract allowed last state := by
  induction routine generalizing state with
  | done value => exact second value state first.1 first.2
  | act action rest ih =>
      refine ⟨first.1, fun value after runs => ?_⟩
      obtain ⟨moves, later⟩ := first.2 value after runs
      exact ⟨moves, ih value later⟩
  | call procedure rest ih =>
      obtain ⟨here, requires, called, later⟩ := first
      exact ⟨here, requires, called, fun value after holds ensures =>
        ih value (later value after holds ensures)⟩

end Meets

namespace Contract.Kept

variable {bodies : (procedure : P) → Routine S E R (R procedure)} {before after : Config S E R α}

theorem step (kept : contract.Kept bodies)
    (closed : ∀ outer inner, allowed outer → contract.nests outer inner → allowed inner)
    (meets : before.routine.Meets contract allowed post before.state)
    (step : Step bodies before after) :
    (after.state = before.state ∨ contract.moves before.state after.state) ∧
      after.routine.Meets contract allowed post after.state := by
  cases step with
  | act runs =>
      obtain ⟨moves, later⟩ := meets.2 _ _ runs
      exact ⟨.inr moves, later⟩
  | call procedure rest state =>
      obtain ⟨holds, requires, called, later⟩ := meets
      refine ⟨.inl rfl, ?_⟩
      have body := kept.body procedure state holds requires
      exact (body.mono (fun inner => closed _ inner called) fun _ _ => id).bind later

theorem steps (kept : contract.Kept bodies)
    (closed : ∀ outer inner, allowed outer → contract.nests outer inner → allowed inner)
    (meets : before.routine.Meets contract allowed post before.state)
    (steps : Steps bodies before after) :
    Relation.ReflTransGen contract.moves before.state after.state ∧
      after.routine.Meets contract allowed post after.state := by
  induction steps with
  | refl => exact ⟨.refl, meets⟩
  | tail _ step ih =>
      obtain ⟨moves, meets⟩ := ih
      obtain ⟨same | moved, later⟩ := kept.step closed meets step
      · exact ⟨same ▸ moves, later⟩
      · exact ⟨moves.tail moved, later⟩

section

variable {procedure : P} {state : S} {config : Config S E R (R procedure)}

/-- Every state of an active procedure. -/
theorem meets (kept : contract.Kept bodies) (holds : contract.holds state)
    (requires : contract.requires procedure state)
    (steps : Steps bodies ⟨bodies procedure, state⟩ config) :
    config.routine.Meets contract (contract.nests (procedure, state))
      (contract.ensures procedure state) config.state :=
  (kept.steps (fun _ _ => kept.trans) (kept.body procedure state holds requires) steps).2

/-- What it returns. -/
theorem ensures (kept : contract.Kept bodies) (holds : contract.holds state)
    (requires : contract.requires procedure state) {value : R procedure} {last : S}
    (steps : Steps bodies ⟨bodies procedure, state⟩ ⟨.done value, last⟩) :
    contract.holds last ∧ contract.ensures procedure state value last :=
  kept.meets holds requires steps

/-- What it calls, itself or through others. -/
theorem nests (kept : contract.Kept bodies) (holds : contract.holds state)
    (requires : contract.requires procedure state) {called : P}
    {rest : R called → Routine S E R (R procedure)} {there : S}
    (steps : Steps bodies ⟨bodies procedure, state⟩ ⟨.call called rest, there⟩) :
    contract.holds there ∧ contract.requires called there ∧
      contract.nests (procedure, state) (called, there) := by
  obtain ⟨here, required, nested, -⟩ := kept.meets holds requires steps
  exact ⟨here, required, nested⟩

end

/-- A routine comes to an end when what it calls does. -/
theorem halts_of (kept : contract.Kept bodies) {routine : Routine S E R α} {state : S}
    (inner : ∀ call, allowed call → contract.holds call.2 → contract.requires call.1 call.2 →
      ∃ result, Halts bodies ⟨bodies call.1, call.2⟩ result)
    (meets : routine.Meets contract allowed post state) :
    ∃ result, Halts bodies ⟨routine, state⟩ result := by
  induction routine generalizing state with
  | done value => exact ⟨_, .done value state⟩
  | act action rest ih =>
      cases runs : action.run state with
      | error error => exact ⟨_, .fails runs⟩
      | ok result =>
          obtain ⟨last, halts⟩ := ih result.1 (meets.2 _ _ runs).2
          exact ⟨last, .step (.act runs) halts⟩
  | call called rest ih =>
      obtain ⟨here, required, nested, returns⟩ := meets
      obtain ⟨result, halts⟩ := inner (called, state) nested here required
      cases result with
      | error error => exact ⟨_, .step (.call called rest state) (halts.bind_error rest)⟩
      | ok result =>
          obtain ⟨after, ensured⟩ := kept.ensures here required halts.steps
          obtain ⟨last, ends⟩ := ih result.1 (returns _ _ after ensured)
          exact ⟨last, .step (.call called rest state) (halts.bind ends)⟩

/-- Procedures that call each other on something smaller come to an end. -/
theorem halts (kept : contract.Kept bodies)
    (smaller : WellFounded fun inner outer => contract.nests outer inner) (call : P × S)
    (holds : contract.holds call.2) (requires : contract.requires call.1 call.2) :
    ∃ result, Halts bodies ⟨bodies call.1, call.2⟩ result := by
  induction call using smaller.induction with
  | _ call ih => exact kept.halts_of ih (kept.body call.1 call.2 holds requires)

end Contract.Kept

end Cpplox.Data.Routine
