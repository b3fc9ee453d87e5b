import Mathlib.Order.Basic
import Mathlib.Tactic.Common

namespace Cpplox.Data

/-! Two runs side by side of actions that keep their state when they throw.  What is
related depends on a world, which can only grow. -/

variable {W S T E A B C D : Type} {before : S} {otherBefore : T}

theorem bind_returned {after : S} {one : EStateM E S A} {next : A → EStateM E S C} {value : A}
    (returned : one before = .ok value after) : (one >>= next) before = next value after := by
  change EStateM.bind one next before = _
  rw [EStateM.bind, returned]

theorem bind_thrown {after : S} {one : EStateM E S A} {next : A → EStateM E S C} {error : E}
    (thrown : one before = .error error after) : (one >>= next) before = .error error after := by
  change EStateM.bind one next before = _
  rw [EStateM.bind, thrown]

/-- Neither action changes its state, and what they find is related, or both throw the same. -/
inductive Finds (values : A → B → Prop) (one : EStateM E S A) (two : EStateM E T B) (before : S)
    (otherBefore : T) : Prop where
  | returns {value : A} {otherValue : B} : one before = .ok value before →
      two otherBefore = .ok otherValue otherBefore → values value otherValue →
        Finds values one two before otherBefore
  | throws {error : E} : one before = .error error before → two otherBefore = .error error otherBefore →
      Finds values one two before otherBefore

namespace Finds

variable {values more : A → B → Prop} {results : C → D → Prop} {one : EStateM E S A}
  {two : EStateM E T B}
  {next : A → EStateM E S C} {otherNext : B → EStateM E T D}

theorem pure {value : A} {otherValue : B} (related : values value otherValue) :
    Finds values (pure value : EStateM E S A) (pure otherValue) before otherBefore :=
  .returns rfl rfl related

theorem throw (error : E) : Finds values (throw error : EStateM E S A)
    (throw error : EStateM E T B) before otherBefore :=
  .throws rfl rfl

theorem bind (first : Finds values one two before otherBefore)
    (rest : ∀ value otherValue, values value otherValue →
      Finds results (next value) (otherNext otherValue) before otherBefore) :
    Finds results (one >>= next) (two >>= otherNext) before otherBefore := by
  cases first with
  | returns returned otherReturned related =>
      cases rest _ _ related with
      | returns found otherFound holds =>
          exact .returns ((bind_returned returned).trans found)
            ((bind_returned otherReturned).trans otherFound) holds
      | throws thrown otherThrown =>
          exact .throws ((bind_returned returned).trans thrown)
            ((bind_returned otherReturned).trans otherThrown)
  | throws thrown otherThrown => exact .throws (bind_thrown thrown) (bind_thrown otherThrown)

theorem get {next : S → EStateM E S C} {otherNext : T → EStateM E T D}
    (rest : Finds results (next before) (otherNext otherBefore) before otherBefore) :
    Finds results (get >>= next) (get >>= otherNext) before otherBefore := by
  cases rest with
  | returns found otherFound holds => exact .returns found otherFound holds
  | throws thrown otherThrown => exact .throws thrown otherThrown

end Finds

variable [Preorder W] {world later : W} {states : W → S → T → Prop}

/-- Both return or both throw the same, in states that are related later. -/
inductive Together (states : W → S → T → Prop) (values : W → A → B → Prop) (world : W)
    (one : EStateM E S A) (two : EStateM E T B) (before : S) (otherBefore : T) : Prop where
  | returns {later : W} {value : A} {otherValue : B} {after : S} {otherAfter : T} : world ≤ later →
      one before = .ok value after → two otherBefore = .ok otherValue otherAfter →
        states later after otherAfter →
      values later value otherValue → Together states values world one two before otherBefore
  | throws {later : W} {error : E} {after : S} {otherAfter : T} : world ≤ later →
      one before = .error error after → two otherBefore = .error error otherAfter →
      states later after otherAfter → Together states values world one two before otherBefore

theorem Finds.together {found : A → B → Prop} {one : EStateM E S A} {two : EStateM E T B}
    (finds : Finds found one two before otherBefore) (related : states world before otherBefore) :
    Together states (fun _ => found) world one two before otherBefore := by
  cases finds with
  | returns returned otherReturned same => exact .returns le_rfl returned otherReturned related same
  | throws thrown otherThrown => exact .throws le_rfl thrown otherThrown related

namespace Together

variable {values : W → A → B → Prop} {results : W → C → D → Prop} {one : EStateM E S A}
  {two : EStateM E T B} {next : A → EStateM E S C} {otherNext : B → EStateM E T D}

theorem pure {value : A} {otherValue : B} (related : states world before otherBefore)
    (same : values world value otherValue) :
    Together states values world (pure value : EStateM E S A) (pure otherValue) before otherBefore :=
  .returns le_rfl rfl rfl related same

theorem throw (error : E) (related : states world before otherBefore) :
    Together states values world (throw error : EStateM E S A) (throw error : EStateM E T B)
      before otherBefore :=
  .throws le_rfl rfl rfl related

theorem set {after : S} {otherAfter : T} (le : world ≤ later)
    (related : states later after otherAfter) :
    Together states (fun _ _ _ => True) world (set after : EStateM E S PUnit)
      (set otherAfter : EStateM E T PUnit) before otherBefore :=
  .returns le rfl rfl related trivial

theorem modify {change : S → S} {otherChange : T → T} (le : world ≤ later)
    (related : states later (change before) (otherChange otherBefore)) :
    Together states (fun _ _ _ => True) world (modify change : EStateM E S PUnit)
      (modify otherChange : EStateM E T PUnit) before otherBefore :=
  .returns le rfl rfl related trivial

/-- What goes together from a later world on. -/
theorem since (le : world ≤ later) (rest : Together states values later one two before otherBefore) :
    Together states values world one two before otherBefore := by
  cases rest with
  | returns otherLe returned otherReturned related same =>
      exact .returns (le.trans otherLe) returned otherReturned related same
  | throws otherLe thrown otherThrown related =>
      exact .throws (le.trans otherLe) thrown otherThrown related

/-- The states in between may be related more closely than those at the end. -/
theorem bindFrom {stronger : W → S → T → Prop}
    (first : Together stronger values world one two before otherBefore)
    (weaker : ∀ later after otherAfter, stronger later after otherAfter → states later after otherAfter)
    (rest : ∀ later value otherValue after otherAfter, world ≤ later → stronger later after otherAfter →
      values later value otherValue → Together states results later (next value)
        (otherNext otherValue) after otherAfter) :
    Together states results world (one >>= next) (two >>= otherNext) before otherBefore := by
  cases first with
  | returns le returned otherReturned related same =>
      refine .since le ?_
      cases rest _ _ _ _ _ le related same with
      | returns otherLe ends otherEnds reached holds =>
          exact .returns otherLe ((bind_returned returned).trans ends)
            ((bind_returned otherReturned).trans otherEnds)
            reached holds
      | throws otherLe thrown otherThrown reached =>
          exact .throws otherLe ((bind_returned returned).trans thrown)
            ((bind_returned otherReturned).trans otherThrown) reached
  | throws le thrown otherThrown related =>
      exact .throws le (bind_thrown thrown) (bind_thrown otherThrown) (weaker _ _ _ related)

theorem bind (first : Together states values world one two before otherBefore)
    (rest : ∀ later value otherValue after otherAfter, world ≤ later → states later after otherAfter →
      values later value otherValue → Together states results later (next value)
        (otherNext otherValue) after otherAfter) :
    Together states results world (one >>= next) (two >>= otherNext) before otherBefore :=
  first.bindFrom (fun _ _ _ related => related) rest

/-- After actions that only look. -/
theorem looks {found : A → B → Prop} (first : Finds found one two before otherBefore)
    (related : states world before otherBefore)
    (rest : ∀ value otherValue, found value otherValue →
      Together states results world (next value) (otherNext otherValue) before otherBefore) :
    Together states results world (one >>= next) (two >>= otherNext) before otherBefore := by
  cases first with
  | returns returned otherReturned same =>
      cases rest _ _ same with
      | returns le ends otherEnds reached holds =>
          exact .returns le ((bind_returned returned).trans ends)
            ((bind_returned otherReturned).trans otherEnds)
            reached holds
      | throws le thrown otherThrown reached =>
          exact .throws le ((bind_returned returned).trans thrown)
            ((bind_returned otherReturned).trans otherThrown) reached
  | throws thrown otherThrown =>
      exact .throws le_rfl (bind_thrown thrown) (bind_thrown otherThrown) related

/-- After actions whose value is not looked at. -/
theorem andThen {next : EStateM E S C} {otherNext : EStateM E T D}
    (first : Together states values world one two before otherBefore)
    (rest : ∀ later after otherAfter, world ≤ later → states later after otherAfter →
      Together states results later next otherNext after otherAfter) :
    Together states results world (one >>= fun _ => next)
      (two >>= fun _ => otherNext) before otherBefore :=
  first.bind fun _ _ _ _ _ le related _ => rest _ _ _ le related

theorem get {next : S → EStateM E S C} {otherNext : T → EStateM E T D}
    (rest : Together states results world (next before) (otherNext otherBefore) before otherBefore) :
    Together states results world (get >>= next) (get >>= otherNext) before otherBefore := by
  cases rest with
  | returns le ends otherEnds related holds => exact .returns le ends otherEnds related holds
  | throws le thrown otherThrown related => exact .throws le thrown otherThrown related

/-- When one of them returns, so does the other. -/
theorem returned (goes : Together states values world one two before otherBefore) {value : A}
    {after : S}
    (returns : one before = .ok value after) : ∃ later otherValue otherAfter, world ≤ later ∧
      two otherBefore = .ok otherValue otherAfter ∧ states later after otherAfter ∧
        values later value otherValue := by
  cases goes with
  | returns le returned otherReturned related same =>
      rw [returns] at returned
      cases returned
      exact ⟨_, _, _, le, otherReturned, related, same⟩
  | throws _ thrown =>
      rw [returns] at thrown
      cases thrown

/-- When one of them throws, the other throws the same. -/
theorem thrown (goes : Together states values world one two before otherBefore) {error : E} {after : S}
    (throws : one before = .error error after) : ∃ later otherAfter,
      two otherBefore = .error error otherAfter ∧ states later after otherAfter := by
  cases goes with
  | returns _ returned =>
      rw [throws] at returned
      cases returned
  | throws _ thrown otherThrown related =>
      rw [throws] at thrown
      cases thrown
      exact ⟨_, _, otherThrown, related⟩

end Together

end Cpplox.Data
