import Mathlib.Tactic.Common

namespace Cpplox.Data

/-! Two runs side by side, of actions that may fail. -/

variable {S T E A B C D : Type} {states : S → T → Prop} {values : A → B → Prop}
  {results : C → D → Prop}

/-- Both fail, or both return and what they return is related. -/
inductive Both (values : A → B → Prop) : Except E A → Except E B → Prop where
  | fails {error otherError : E} : Both values (.error error) (.error otherError)
  | returns {value : A} {otherValue : B} : values value otherValue → Both values (.ok value) (.ok otherValue)

namespace Both

variable {one : Except E A} {two : Except E B} {next : A → Except E C} {otherNext : B → Except E D}

theorem bind (first : Both values one two)
    (rest : ∀ value otherValue, values value otherValue → Both results (next value) (otherNext otherValue)) :
    Both results (one >>= next) (two >>= otherNext) := by
  cases first with
  | fails => exact .fails
  | returns related => exact rest _ _ related

theorem mono (first : Both values one two) {more : A → B → Prop}
    (implies : ∀ value otherValue, values value otherValue → more value otherValue) : Both more one two := by
  cases first with
  | fails => exact .fails
  | returns related => exact .returns (implies _ _ related)

end Both

/-- From states that are related, the actions go together. -/
def Agree (states : S → T → Prop) (values : A → B → Prop) (one : StateT S (Except E) A)
    (two : StateT T (Except E) B) : Prop :=
  ∀ before otherBefore, states before otherBefore →
    Both (fun ends otherEnds => values ends.1 otherEnds.1 ∧ states ends.2 otherEnds.2)
      (one.run before) (two.run otherBefore)

namespace Agree

variable {one : StateT S (Except E) A} {two : StateT T (Except E) B}
  {next : A → StateT S (Except E) C} {otherNext : B → StateT T (Except E) D}

theorem pure {value : A} {otherValue : B} (related : values value otherValue) :
    Agree states values (pure value : StateT S (Except E) A) (pure otherValue : StateT T (Except E) B) :=
  fun _ _ alike => .returns ⟨related, alike⟩

theorem throw {error otherError : E} : Agree states values (throw error : StateT S (Except E) A)
    (throw otherError : StateT T (Except E) B) := fun _ _ _ => .fails

theorem bind (first : Agree states values one two)
    (rest : ∀ value otherValue, values value otherValue → Agree states results (next value) (otherNext otherValue)) :
    Agree states results (one >>= next) (two >>= otherNext) := by
  intro before otherBefore alike
  rw [StateT.run_bind, StateT.run_bind]
  exact (first before otherBefore alike).bind fun _ _ ends => rest _ _ ends.1 _ _ ends.2

theorem lift {one : Except E A} {two : Except E B} (both : Both values one two) :
    Agree states values (liftM one : StateT S (Except E) A) (liftM two : StateT T (Except E) B) := by
  intro before otherBefore alike
  cases both with
  | fails => exact .fails
  | returns related => exact .returns ⟨related, alike⟩

/-- After actions that return the same. -/
theorem andThen {one : StateT S (Except E) A} {two : StateT T (Except E) A}
    {next : A → StateT S (Except E) C} {otherNext : A → StateT T (Except E) D}
    (first : Agree states Eq one two)
    (rest : ∀ value, Agree states results (next value) (otherNext value)) :
    Agree states results (one >>= next) (two >>= otherNext) :=
  first.bind fun value _ same => same ▸ rest value

/-- After actions whose value is not looked at. -/
theorem skip {one : StateT S (Except E) A} {two : StateT T (Except E) B}
    {next : StateT S (Except E) C} {otherNext : StateT T (Except E) D}
    (first : Agree states values one two) (rest : Agree states results next otherNext) :
    Agree states results (one >>= fun _ => next) (two >>= fun _ => otherNext) :=
  first.bind fun _ _ _ => rest

theorem get {next : S → StateT S (Except E) C} {otherNext : T → StateT T (Except E) D}
    (rest : ∀ before otherBefore, states before otherBefore →
      Agree states results (next before) (otherNext otherBefore)) :
    Agree states results (get >>= next) (get >>= otherNext) :=
  fun before otherBefore alike => rest before otherBefore alike before otherBefore alike

theorem set {after : S} {otherAfter : T} {next : PUnit → StateT S (Except E) C}
    {otherNext : PUnit → StateT T (Except E) D} (reached : states after otherAfter)
    (rest : Agree states results (next ⟨⟩) (otherNext ⟨⟩)) :
    Agree states results (set after >>= next) (set otherAfter >>= otherNext) :=
  fun _ _ _ => rest after otherAfter reached

theorem modify {change : S → S} {otherChange : T → T}
    (changes : ∀ before otherBefore, states before otherBefore → states (change before) (otherChange otherBefore)) :
    Agree states Eq (modify change : StateT S (Except E) PUnit)
      (modify otherChange : StateT T (Except E) PUnit) :=
  fun before otherBefore alike => .returns ⟨rfl, changes before otherBefore alike⟩

end Agree

end Cpplox.Data
