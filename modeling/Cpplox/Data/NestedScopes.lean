import Mathlib.Tactic.Common

namespace Cpplox.Data

/-! Searches in nested scopes, innermost first, each with its latest name first.  A name
is found as the level of its scope and its position from the bottom. -/

variable {A : Type} [DecidableEq A]

def latest : List A → A → Option Nat
  | [], _ => none
  | head :: rest, name => if head = name then some rest.length else latest rest name

def earliest : List A → A → Option Nat
  | [], _ => none
  | head :: rest, name =>
      match earliest rest name with
      | some index => some index
      | none => if head = name then some rest.length else none

/-- A place, seen from a scope further in. -/
def deeper (place : Nat × Nat) : Nat × Nat := (place.1 + 1, place.2)

theorem deeper_injective : Function.Injective deeper := by
  rintro ⟨level, index⟩ ⟨other, same⟩ equal
  cases equal
  rfl

/-- The search of every scope with `search`. -/
def nearest (search : List A → A → Option Nat) : List (List A) → A → Option (Nat × Nat)
  | [], _ => none
  | scope :: outer, name =>
      match search scope name with
      | some index => some (0, index)
      | none => (nearest search outer name).map deeper

/-- How often a scope declares a name. -/
def times (scope : List A) (name : A) : Nat := scope.countP (· = name)

variable {scope : List A} {scopes : List (List A)} {name : A}

@[simp] theorem times_cons_self (rest : List A) (name : A) :
    times (name :: rest) name = times rest name + 1 := by
  simp [times]

theorem times_cons_of_ne {head : A} {rest : List A} (different : ¬ head = name) :
    times (head :: rest) name = times rest name := by
  simp [times, different]

theorem latest_lt {index : Nat} (found : latest scope name = some index) : index < scope.length := by
  induction scope with
  | nil => cases found
  | cons head rest ih =>
      simp only [latest] at found
      split at found
      next => cases found; simp
      next => exact Nat.lt_succ_of_lt (ih found)

theorem earliest_lt {index : Nat} (found : earliest scope name = some index) :
    index < scope.length := by
  induction scope with
  | nil => cases found
  | cons head rest ih =>
      simp only [earliest] at found
      split at found
      next inside => cases found; exact Nat.lt_succ_of_lt (ih inside)
      next =>
          split at found
          next => cases found; simp
          next => cases found

theorem latest_none : latest scope name = none ↔ times scope name = 0 := by
  induction scope with
  | nil => simp [latest, times]
  | cons head rest ih =>
      by_cases same : head = name
      · simp [latest, same]
      · simp [latest, same, ih, times_cons_of_ne same]

theorem earliest_none : earliest scope name = none ↔ times scope name = 0 := by
  induction scope with
  | nil => simp [earliest, times]
  | cons head rest ih =>
      by_cases same : head = name
      · simp only [earliest, same, if_true, times_cons_self]
        cases earliest rest name <;> simp
      · rw [times_cons_of_ne same, ← ih]
        simp only [earliest, if_neg same]
        cases earliest rest name <;> simp

/-- Both searches find the same name exactly when it is there once. -/
theorem latest_eq_earliest (member : times scope name ≠ 0) :
    latest scope name = earliest scope name ↔ times scope name < 2 := by
  induction scope with
  | nil => exact absurd rfl member
  | cons head rest ih =>
      by_cases same : head = name
      · subst same
        simp only [latest, earliest, if_true, times_cons_self]
        cases found : earliest rest head with
        | some index =>
            have bound := earliest_lt found
            have there : times rest head ≠ 0 := fun none => by
              rw [earliest_none.mpr none] at found
              cases found
            exact iff_of_false (fun equal => by cases equal; omega) (by omega)
        | none =>
            have none := earliest_none.mp found
            exact iff_of_true rfl (by omega)
      · rw [times_cons_of_ne same] at member ⊢
        rw [← ih member, latest, earliest, if_neg same, if_neg same]
        cases earliest rest name <;> rfl

/-- The nearest scope with the name has it more than once. -/
def Doubled : List (List A) → A → Prop
  | [], _ => False
  | scope :: outer, name => if times scope name = 0 then Doubled outer name else 2 ≤ times scope name

instance decidableDoubled : (scopes : List (List A)) → (name : A) → Decidable (Doubled scopes name)
  | [], _ => inferInstanceAs (Decidable False)
  | scope :: outer, name =>
      have := decidableDoubled outer name
      inferInstanceAs (Decidable (if times scope name = 0 then _ else _))

theorem nearest_latest_eq_earliest :
    nearest latest scopes name = nearest earliest scopes name ↔ ¬ Doubled scopes name := by
  induction scopes with
  | nil => simp [nearest, Doubled]
  | cons scope outer ih =>
      by_cases absent : times scope name = 0
      · simp only [nearest, latest_none.mpr absent, earliest_none.mpr absent, Doubled, if_pos absent]
        rw [← ih]
        exact (Option.map_injective deeper_injective).eq_iff
      · simp only [nearest, Doubled, if_neg absent, Nat.not_le]
        rw [← latest_eq_earliest absent]
        cases late : latest scope name with
        | none => exact absurd (latest_none.mp late) absent
        | some index =>
            cases early : earliest scope name with
            | none => exact absurd (earliest_none.mp early) absent
            | some other => simp

theorem times_eq_zero : times scope name = 0 ↔ name ∉ scope := by
  rw [times, List.countP_eq_zero]
  simp only [decide_eq_true_eq]
  exact ⟨fun none member => none name member rfl, fun absent other member same => absent (same ▸ member)⟩

/-- The latest name is found from the other end when it is not there before. -/
theorem earliest_head {head : A} {rest : List A} :
    earliest (head :: rest) name = some rest.length ↔ head = name ∧ name ∉ rest := by
  rw [← times_eq_zero, ← earliest_none, earliest]
  cases early : earliest rest name with
  | some index =>
      have := earliest_lt early
      simp only [Option.some.injEq, reduceCtorEq, and_false, iff_false]
      omega
  | none => by_cases same : head = name <;> simp [same]

/-- Which scope a search ends in. -/
theorem nearest_eq_place {search : List A → A → Option Nat} {between outer : List (List A)}
    {index : Nat} (finds : ∀ scope, search scope name = none ↔ name ∉ scope) :
    nearest search (between ++ scope :: outer) name = some (between.length, index) ↔
      (∀ names ∈ between, name ∉ names) ∧ search scope name = some index := by
  induction between with
  | nil =>
      rw [List.nil_append, nearest]
      cases found : search scope name with
      | some other => simp
      | none =>
          cases nearest search outer name with
          | none => simp
          | some place => simp [deeper]
  | cons names rest ih =>
      rw [List.cons_append, nearest]
      cases found : search names name with
      | some other =>
          have inside : name ∈ names := by
            by_contra absent
            rw [(finds names).mpr absent] at found
            cases found
          simp [inside]
      | none =>
          simp only [List.length_cons, List.forall_mem_cons, (finds names).mp found, not_false_iff,
            true_and]
          rw [← ih]
          cases nearest search (rest ++ scope :: outer) name with
          | none => simp
          | some place => simp [deeper, Prod.ext_iff]

end Cpplox.Data
