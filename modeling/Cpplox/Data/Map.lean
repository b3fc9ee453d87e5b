import Mathlib.Tactic.Common

namespace Cpplox.Data

/-! Finite maps as lists of entries, for the hash maps whose order nothing observes. -/

variable {K V : Type} [DecidableEq K]

def lookup (entries : List (K × V)) (key : K) : Option V :=
  match entries with
  | [] => none
  | (found, value) :: rest => if found = key then some value else lookup rest key

/-- `map[key] = value`. -/
def assign (entries : List (K × V)) (key : K) (value : V) : List (K × V) :=
  match entries with
  | [] => [(key, value)]
  | (found, old) :: rest =>
      if found = key then (key, value) :: rest else (found, old) :: assign rest key value

/-- `map.insert`, which keeps an entry that is already there. -/
def insertNew (entries : List (K × V)) (key : K) (value : V) : List (K × V) :=
  if (lookup entries key).isSome then entries else entries ++ [(key, value)]

/-- `map.insert(first, last)`. -/
def insertAll (entries : List (K × V)) (others : List (K × V)) : List (K × V) :=
  others.foldl (fun entries entry => insertNew entries entry.1 entry.2) entries

def eraseKey (entries : List (K × V)) (key : K) : List (K × V) :=
  entries.filter fun entry => entry.1 ≠ key

@[simp] theorem lookup_nil (key : K) : lookup ([] : List (K × V)) key = none := rfl

theorem lookup_cons (found key : K) (value : V) (rest : List (K × V)) :
    lookup ((found, value) :: rest) key = if found = key then some value else lookup rest key := rfl

theorem lookup_assign (entries : List (K × V)) (key other : K) (value : V) :
    lookup (assign entries key value) other =
      if other = key then some value else lookup entries other := by
  induction entries with
  | nil => simp [assign, lookup_cons, eq_comm]
  | cons entry rest ih =>
      obtain ⟨found, old⟩ := entry
      simp only [assign]
      by_cases same : found = key
      · subst same
        rw [if_pos rfl]
        simp only [lookup_cons]
        by_cases isOther : found = other
        · simp [isOther]
        · simp [isOther, Ne.symm isOther]
      · rw [if_neg same]
        simp only [lookup_cons, ih]
        by_cases isOther : found = other
        · subst isOther; simp [same]
        · simp [isOther]

theorem eraseKey_cons (found key : K) (value : V) (rest : List (K × V)) :
    eraseKey ((found, value) :: rest) key =
      if found = key then eraseKey rest key else (found, value) :: eraseKey rest key := by
  by_cases same : found = key <;> simp [eraseKey, same]

theorem lookup_eraseKey (entries : List (K × V)) (key other : K) :
    lookup (eraseKey entries key) other = if other = key then none else lookup entries other := by
  induction entries with
  | nil => simp [eraseKey]
  | cons entry rest ih =>
      obtain ⟨found, value⟩ := entry
      rw [eraseKey_cons]
      by_cases same : found = key
      · subst same
        rw [if_pos rfl, ih, lookup_cons]
        by_cases isOther : other = found
        · simp [isOther]
        · simp [isOther, Ne.symm isOther]
      · rw [if_neg same, lookup_cons, lookup_cons, ih]
        by_cases isOther : found = other
        · subst isOther; simp [same]
        · simp [isOther]

theorem lookup_append (entries others : List (K × V)) (key : K) :
    lookup (entries ++ others) key = (lookup entries key).or (lookup others key) := by
  induction entries with
  | nil => simp
  | cons entry rest ih =>
      obtain ⟨found, value⟩ := entry
      simp only [List.cons_append, lookup_cons, ih]
      split <;> simp

theorem lookup_mem {entries : List (K × V)} {key : K} {value : V}
    (found : lookup entries key = some value) : (key, value) ∈ entries := by
  induction entries with
  | nil => simp at found
  | cons entry rest ih =>
      obtain ⟨head, old⟩ := entry
      rw [lookup_cons] at found
      split at found
      next same =>
          cases found
          subst same
          exact List.mem_cons_self
      next => exact List.mem_cons_of_mem _ (ih found)

theorem mem_assign {entries : List (K × V)} {key : K} {value : V} {entry : K × V}
    (member : entry ∈ assign entries key value) : entry ∈ entries ∨ entry = (key, value) := by
  induction entries with
  | nil => simpa [assign] using member
  | cons head rest ih =>
      obtain ⟨found, old⟩ := head
      simp only [assign] at member
      split at member
      · rcases List.mem_cons.mp member with same | member
        · exact .inr same
        · exact .inl (List.mem_cons_of_mem _ member)
      · rcases List.mem_cons.mp member with same | member
        · exact .inl (by rw [same]; exact List.mem_cons_self)
        · rcases ih member with member | same
          · exact .inl (List.mem_cons_of_mem _ member)
          · exact .inr same

theorem mem_insertAll {entries others : List (K × V)} {entry : K × V}
    (member : entry ∈ insertAll entries others) : entry ∈ entries ∨ entry ∈ others := by
  induction others generalizing entries with
  | nil => exact .inl member
  | cons head rest ih =>
      rcases @ih (insertNew entries head.1 head.2) member with member | member
      · simp only [insertNew] at member
        split at member
        · exact .inl member
        · rcases List.mem_append.mp member with member | same
          · exact .inl member
          · exact .inr (by rw [List.mem_singleton.mp same]; exact List.mem_cons_self)
      · exact .inr (List.mem_cons_of_mem _ member)

end Cpplox.Data
