import Mathlib.Tactic.Common
import Mathlib.Data.List.Forall2

namespace Cpplox.Data

/-! Lists matched element by element. -/

variable {A B : Type} {one two : A → B → Prop} {left : List A} {right : List B} {index : Nat}

theorem matched_mono (all : List.Forall₂ one left right)
    (implies : ∀ a, ∀ b ∈ right, one a b → two a b) : List.Forall₂ two left right := by
  induction all with
  | nil => exact .nil
  | cons head _ ih =>
      exact .cons (implies _ _ List.mem_cons_self head)
        (ih fun a b member => implies a b (List.mem_cons_of_mem _ member))

theorem matched_right (all : List.Forall₂ one left right) {b : B} (found : right[index]? = some b) :
    ∃ a, left[index]? = some a ∧ one a b := by
  induction all generalizing index with
  | nil => simp at found
  | cons head _ ih =>
      cases index with
      | zero =>
          cases found
          exact ⟨_, rfl, head⟩
      | succ index => exact ih found

theorem matched_left (all : List.Forall₂ one left right) {a : A} (found : left[index]? = some a) :
    ∃ b, right[index]? = some b ∧ one a b := by
  induction all generalizing index with
  | nil => simp at found
  | cons head _ ih =>
      cases index with
      | zero =>
          cases found
          exact ⟨_, rfl, head⟩
      | succ index => exact ih found

theorem matched_member (all : List.Forall₂ one left right) {a : A} (member : a ∈ left) :
    ∃ b ∈ right, one a b := by
  obtain ⟨index, found⟩ := List.mem_iff_getElem?.mp member
  obtain ⟨b, there, holds⟩ := matched_left all found
  exact ⟨b, List.mem_of_getElem? there, holds⟩

theorem matched_snoc (all : List.Forall₂ one left right) {a : A} {b : B} (last : one a b) :
    List.Forall₂ one (left ++ [a]) (right ++ [b]) := by
  induction all with
  | nil => exact .cons last .nil
  | cons head _ ih => exact .cons head ih

theorem matched_map {C : Type} {f : A → C} {g : B → C}
    (all : List.Forall₂ (fun a b => g b = f a) left right) : right.map g = left.map f := by
  induction all with
  | nil => rfl
  | cons head _ ih => rw [List.map_cons, List.map_cons, head, ih]

end Cpplox.Data
