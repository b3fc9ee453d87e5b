import Cpplox.Data.BackFirst
import Cpplox.Data.Map
import Mathlib.Data.List.Forall2
import Mathlib.Order.Basic

namespace Cpplox.Data

/-! One-to-one pairings of names, and the lists and maps that are alike under them. -/

variable {K L A B V W : Type}

/-- Which name stands for which on the other side. -/
structure Pairing (K L : Type) where
  pairs : K → L → Prop
  oneToOne : Relator.BiUnique pairs

namespace Pairing

variable {pairing later : Pairing K L} {key otherKey : K} {other otherMate : L}

/-- A later pairing has more pairs. -/
instance : Preorder (Pairing K L) := Preorder.lift Pairing.pairs

/-- Nothing is paired. -/
def nothing : Pairing K L where
  pairs _ _ := False
  oneToOne := ⟨fun _ _ _ none => none.elim, fun _ _ _ none => none.elim⟩

theorem eq_iff (one : pairing.pairs key other) (two : pairing.pairs otherKey otherMate) :
    key = otherKey ↔ other = otherMate :=
  Relator.rel_eq pairing.oneToOne one two

/-- The pairing seen from the other side. -/
def swap (pairing : Pairing K L) : Pairing L K where
  pairs other key := pairing.pairs key other
  oneToOne := ⟨fun _ _ _ one two => pairing.oneToOne.right one two,
    fun _ _ _ one two => pairing.oneToOne.left one two⟩

/-- Two names without a partner become partners. -/
def join (pairing : Pairing K L) (key : K) (other : L) (alone : ∀ other, ¬ pairing.pairs key other)
    (otherAlone : ∀ key, ¬ pairing.pairs key other) : Pairing K L where
  pairs one two := pairing.pairs one two ∨ one = key ∧ two = other
  oneToOne := by
    constructor
    · rintro one two three (first | ⟨rfl, rfl⟩) (second | ⟨rfl, same⟩)
      · exact pairing.oneToOne.left first second
      · exact absurd (same ▸ first) (otherAlone one)
      · exact absurd second (otherAlone two)
      · rfl
    · rintro one two three (first | ⟨rfl, rfl⟩) (second | ⟨same, rfl⟩)
      · exact pairing.oneToOne.right first second
      · exact absurd (same ▸ first) (alone two)
      · exact absurd second (alone three)
      · rfl

/-- Some pairs are given up. -/
def confine (pairing : Pairing K L) (keep : K → L → Prop) : Pairing K L where
  pairs key other := pairing.pairs key other ∧ keep key other
  oneToOne := ⟨fun _ _ _ one two => pairing.oneToOne.left one.1 two.1,
    fun _ _ _ one two => pairing.oneToOne.right one.1 two.1⟩

theorem le_join (alone : ∀ other, ¬ pairing.pairs key other)
    (otherAlone : ∀ key, ¬ pairing.pairs key other) :
    pairing ≤ pairing.join key other alone otherAlone := fun _ _ => .inl

theorem join_pairs {alone : ∀ other, ¬ pairing.pairs key other}
    {otherAlone : ∀ key, ¬ pairing.pairs key other} :
    (pairing.join key other alone otherAlone).pairs key other := .inr ⟨rfl, rfl⟩

end Pairing

variable {values more : A → B → Prop} {list : List A} {otherList : List B}

theorem some_or_none {one : Option A} {two : Option B} (alike : Option.Rel values one two) :
    (∃ value otherValue, one = some value ∧ two = some otherValue ∧ values value otherValue) ∨
      one = none ∧ two = none := by
  cases alike with
  | some related => exact .inl ⟨_, _, rfl, rfl, related⟩
  | none => exact .inr ⟨rfl, rfl⟩

theorem alike_of_mem (alike : List.Forall₂ values list otherList)
    (implies : ∀ value ∈ list, ∀ otherValue, values value otherValue → more value otherValue) :
    List.Forall₂ more list otherList :=
  ((List.forall₂_and_left list otherList).mpr ⟨fun _ member => member, alike⟩).imp
    fun _ _ both => implies _ both.1 _ both.2

theorem alike_getElem? (alike : List.Forall₂ values list otherList) (index : Nat) :
    Option.Rel values list[index]? otherList[index]? := by
  induction alike generalizing index with
  | nil => exact .none
  | cons head _ ih =>
      cases index with
      | zero => exact .some head
      | succ index => exact ih index

theorem alike_slot? (alike : List.Forall₂ values list otherList) (index : Nat) :
    Option.Rel values (slot? list index) (slot? otherList index) := by
  rw [slot?_eq_getElem?, slot?_eq_getElem?]
  exact alike_getElem? (List.forall₂_reverse_iff.mpr alike) index

theorem alike_setSlot (alike : List.Forall₂ values list otherList) (index : Nat)
    {new : A} {otherNew : B} (related : values new otherNew) :
    List.Forall₂ values (setSlot list index new) (setSlot otherList index otherNew) := by
  induction alike with
  | nil => exact .nil
  | cons head rest ih =>
      simp only [setSlot, rest.length_eq]
      split
      · exact .cons related rest
      · exact .cons head ih

theorem alike_set (alike : List.Forall₂ values list otherList) (index : Nat) {new : A} {otherNew : B}
    (related : values new otherNew) :
    List.Forall₂ values (list.set index new) (otherList.set index otherNew) := by
  induction alike generalizing index with
  | nil => exact .nil
  | cons head rest ih =>
      cases index with
      | zero => exact .cons related rest
      | succ index => exact .cons head (ih index)

theorem alike_getLast? (alike : List.Forall₂ values list otherList) :
    Option.Rel values list.getLast? otherList.getLast? := by
  rw [List.getLast?_eq_getElem?, List.getLast?_eq_getElem?, alike.length_eq]
  exact alike_getElem? alike _

theorem alike_dropLast (alike : List.Forall₂ values list otherList) :
    List.Forall₂ values list.dropLast otherList.dropLast := by
  rw [List.dropLast_eq_take, List.dropLast_eq_take, alike.length_eq]
  exact List.forall₂_take _ alike

theorem alike_snoc {last : A} (alike : List.Forall₂ values (list ++ [last]) otherList) :
    ∃ otherRest otherLast, otherList = otherRest ++ [otherLast] ∧ values last otherLast := by
  induction list generalizing otherList with
  | nil =>
      cases alike with
      | cons head rest =>
          cases rest
          exact ⟨[], _, rfl, head⟩
  | cons first rest ih =>
      cases alike with
      | cons head rest =>
          obtain ⟨otherRest, otherLast, rfl, same⟩ := ih rest
          exact ⟨_ :: otherRest, otherLast, rfl, same⟩

def Entries (pairing : Pairing K L) (values : V → W → Prop) : List (K × V) → List (L × W) → Prop :=
  List.Forall₂ fun entry otherEntry => pairing.pairs entry.1 otherEntry.1 ∧ values entry.2 otherEntry.2

namespace Entries

variable {pairing later : Pairing K L} {values more : V → W → Prop} {entries added : List (K × V)}
  {otherEntries otherAdded : List (L × W)} {key : K} {otherKey : L} {value : V} {otherValue : W}

theorem imp (alike : Entries pairing values entries otherEntries) (le : pairing ≤ later)
    (implies : ∀ value otherValue, values value otherValue → more value otherValue) :
    Entries later more entries otherEntries :=
  List.Forall₂.imp (fun _ _ both => ⟨le _ _ both.1, implies _ _ both.2⟩) alike

theorem swap {turned : W → V → Prop} (alike : Entries pairing values entries otherEntries)
    (turns : ∀ value otherValue, values value otherValue → turned otherValue value) :
    Entries pairing.swap turned otherEntries entries :=
  List.Forall₂.flip (List.Forall₂.imp (fun _ _ both => ⟨both.1, turns _ _ both.2⟩) alike)

variable [DecidableEq K] [DecidableEq L]

theorem lookup (alike : Entries pairing values entries otherEntries)
    (pair : pairing.pairs key otherKey) :
    Option.Rel values (lookup entries key) (Data.lookup otherEntries otherKey) := by
  induction alike with
  | nil => exact .none
  | @cons entry otherEntry _ _ head _ ih =>
      obtain ⟨found, old⟩ := entry
      obtain ⟨otherFound, otherOld⟩ := otherEntry
      simp only [lookup_cons, Pairing.eq_iff head.1 pair]
      split
      · exact .some head.2
      · exact ih

theorem assign (alike : Entries pairing values entries otherEntries) (pair : pairing.pairs key otherKey)
    (related : values value otherValue) :
    Entries pairing values (assign entries key value)
      (Data.assign otherEntries otherKey otherValue) := by
  induction alike with
  | nil => exact .cons ⟨pair, related⟩ .nil
  | @cons entry otherEntry _ _ head rest ih =>
      obtain ⟨found, old⟩ := entry
      obtain ⟨otherFound, otherOld⟩ := otherEntry
      simp only [Data.assign, Pairing.eq_iff head.1 pair]
      split
      · exact .cons ⟨pair, related⟩ rest
      · exact .cons head ih

theorem insertNew (alike : Entries pairing values entries otherEntries)
    (pair : pairing.pairs key otherKey)
    (related : values value otherValue) :
    Entries pairing values (insertNew entries key value)
      (Data.insertNew otherEntries otherKey otherValue) := by
  unfold Data.insertNew
  rcases some_or_none (alike.lookup pair) with ⟨_, _, one, two, -⟩ | ⟨one, two⟩
  · rw [one, two]
    exact alike
  · rw [one, two]
    exact List.rel_append alike (.cons ⟨pair, related⟩ .nil)

theorem insertAll (alike : Entries pairing values entries otherEntries)
    (otherAlike : Entries pairing values added otherAdded) :
    Entries pairing values (insertAll entries added) (Data.insertAll otherEntries otherAdded) := by
  induction otherAlike generalizing entries otherEntries with
  | nil => exact alike
  | cons head _ ih => exact ih (alike.insertNew head.1 head.2)

end Entries

end Cpplox.Data
