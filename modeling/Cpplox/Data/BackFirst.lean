import Mathlib.Tactic.Common

namespace Cpplox.Data

/-! Vectors kept back first.

The head of the list is `back()`; indexes count from `begin()`, so they do not move
when elements are pushed. -/

variable {A B : Type} {values rest lower : List A} {value new : A} {index other : Nat}

/-- The element at an index. -/
def slot? : List A → Nat → Option A
  | [], _ => none
  | value :: rest, index => if index = rest.length then some value else slot? rest index

def setSlot : List A → Nat → A → List A
  | [], _, _ => []
  | value :: rest, index, new =>
      if index = rest.length then new :: rest else value :: setSlot rest index new

@[simp] theorem slot?_nil (index : Nat) : slot? ([] : List A) index = none := rfl

theorem slot?_cons (value : A) (rest : List A) (index : Nat) :
    slot? (value :: rest) index = if index = rest.length then some value else slot? rest index := rfl

theorem slot?_eq_getElem? (values : List A) (index : Nat) :
    slot? values index = values.reverse[index]? := by
  induction values with
  | nil => simp
  | cons value rest ih =>
      rw [slot?_cons, List.reverse_cons]
      by_cases same : index = rest.length
      · simp [same]
      · rw [if_neg same, ih]
        by_cases below : index < rest.length
        · rw [List.getElem?_append_left (by simpa using below)]
        · rw [List.getElem?_eq_none (by simpa using below),
            List.getElem?_eq_none (by simp; omega)]

theorem slot?_lt (found : slot? values index = some value) : index < values.length := by
  rw [slot?_eq_getElem?] at found
  simpa using (List.getElem?_eq_some_iff.mp found).1

theorem slot?_exists (bound : index < values.length) : ∃ value, slot? values index = some value :=
  ⟨values.reverse.get ⟨index, by simpa using bound⟩, by
    rw [slot?_eq_getElem?, List.getElem?_eq_getElem]; rfl⟩

theorem slot?_none (above : values.length ≤ index) : slot? values index = none := by
  rw [slot?_eq_getElem?]
  exact List.getElem?_eq_none (by simpa using above)

theorem slot?_mem (found : slot? values index = some value) : value ∈ values := by
  rw [slot?_eq_getElem?] at found
  exact List.mem_reverse.mp (List.mem_of_getElem? found)

/-- What lies below is not moved by what is pushed. -/
theorem slot?_append (upper lower : List A) (below : index < lower.length) :
    slot? (upper ++ lower) index = slot? lower index := by
  simp only [slot?_eq_getElem?, List.reverse_append]
  exact List.getElem?_append_left (by simpa using below)

theorem slot?_append_add (upper lower : List A) (index : Nat) :
    slot? (upper ++ lower) (lower.length + index) = slot? upper index := by
  simp only [slot?_eq_getElem?, List.reverse_append]
  rw [List.getElem?_append_right (by simp)]
  simp

theorem slot?_map (f : A → B) (values : List A) (index : Nat) :
    slot? (values.map f) index = (slot? values index).map f := by
  simp [slot?_eq_getElem?, ← List.map_reverse]

theorem setSlot_map (f : A → B) (values : List A) (index : Nat) (new : A) :
    setSlot (values.map f) index (f new) = (setSlot values index new).map f := by
  induction values with
  | nil => rfl
  | cons value rest ih =>
      simp only [List.map_cons, setSlot, List.length_map, ih]
      split <;> rfl

@[simp] theorem length_setSlot (values : List A) (index : Nat) (new : A) :
    (setSlot values index new).length = values.length := by
  induction values with
  | nil => rfl
  | cons value rest ih => simp only [setSlot]; split <;> simp [ih]

theorem mem_setSlot {values : List A} {index : Nat} {new other : A}
    (member : other ∈ setSlot values index new) : other ∈ values ∨ other = new := by
  induction values with
  | nil => cases member
  | cons value rest ih =>
      rw [setSlot] at member
      split at member
      · exact (List.mem_cons.mp member).elim .inr fun old => .inl (List.mem_cons_of_mem _ old)
      · rcases List.mem_cons.mp member with rfl | inside
        · exact .inl List.mem_cons_self
        · exact (ih inside).imp_left (List.mem_cons_of_mem _)

theorem slot?_setSlot (values : List A) (index other : Nat) (new : A) :
    slot? (setSlot values index new) other =
      if other = index ∧ index < values.length then some new else slot? values other := by
  induction values with
  | nil => simp [setSlot]
  | cons value rest ih =>
      simp only [setSlot, slot?_cons, List.length_cons]
      by_cases atHead : index = rest.length
      · rw [if_pos atHead, slot?_cons]
        by_cases same : other = index
        · simp [same, atHead]
        · have different : other ≠ rest.length := fun here => same (here.trans atHead.symm)
          simp [same, different]
      · rw [if_neg atHead, slot?_cons, length_setSlot, ih]
        by_cases otherHead : other = rest.length
        · simp [otherHead, Ne.symm atHead]
        · have bounds : index < rest.length + 1 ↔ index < rest.length := by omega
          simp only [if_neg otherHead, bounds]

theorem setSlot_append (upper : List A) (lower : List A) (new : A) (below : index < lower.length) :
    setSlot (upper ++ lower) index new = upper ++ setSlot lower index new := by
  induction upper with
  | nil => rfl
  | cons value rest ih =>
      have different : index ≠ (rest ++ lower).length := by simp; omega
      simp only [List.cons_append, setSlot, if_neg different, ih]

theorem setSlot_append_add (upper lower : List A) (index : Nat) (new : A) :
    setSlot (upper ++ lower) (lower.length + index) new = setSlot upper index new ++ lower := by
  induction upper with
  | nil =>
      simp only [List.nil_append]
      cases lower with
      | nil => rfl
      | cons value rest =>
          simp only [setSlot, List.nil_append]
          rw [if_neg (by simp; omega)]
          suffices unchanged : ∀ (values : List A) (index : Nat), values.length ≤ index →
              setSlot values index new = values by
            rw [unchanged rest _ (by simp; omega)]
          intro values
          induction values with
          | nil => intros; rfl
          | cons head tail ih =>
              intro index above
              simp only [List.length_cons] at above
              simp only [setSlot]
              rw [if_neg (by omega), ih index (by omega)]
  | cons value rest ih =>
      simp only [List.cons_append, setSlot, List.length_append]
      by_cases atHead : index = rest.length
      · rw [if_pos (by omega), if_pos atHead]; rfl
      · rw [if_neg (by omega), if_neg atHead, ih]; rfl

end Cpplox.Data
