import Cpplox.Semantics.Interpreter
import Cpplox.Vm.Tables

namespace Cpplox

open Data

/-! What the name of a property stands for. -/

variable {N : Type} {platform : Platform N} {vm after middle : VM N} {ptr name : Ptr}
  {inst : Instance N} {klass : Class} {rest : List (Value N)} {value : Value N}

variable [Number N] {declared known : Declarations} {declaration : Declaration}

omit [Number N] in
/-- Only the current declaration is extended. -/
theorem Declarations.of_next {fetched : Fetched N} (other : declared.open_ ≠ some ptr)
    (old : ptr ≠ vm.fresh platform) :
    (declared.next platform vm fetched).of ptr = declared.of ptr ∧
      (declared.next platform vm fetched).open_ ≠ some ptr := by
  have extended {change : Declaration → Declaration}
      (same : ∀ declaration, (change declaration).klass = declaration.klass) :
      (declared.extend change).of ptr = declared.of ptr ∧ (declared.extend change).open_ ≠ some ptr := by
    refine ⟨?_, by rwa [declared.open_extend same]⟩
    cases current : declared.current with
    | none => simp [of, all, extend, current]
    | some declaration =>
        rw [of_extend current (same declaration), if_neg]
        rintro rfl
        exact other (by rw [open_, current]; rfl)
  unfold next
  split
  · refine ⟨?_, fun same => old (Option.some.inj same).symm⟩
    rw [of, all, Option.toList_some, List.singleton_append, List.find?_cons_of_neg (by simpa using Ne.symm old)]
    rfl
  · exact extended fun _ => rfl
  · exact extended fun _ => rfl
  all_goals first
    | exact ⟨rfl, other⟩
    | exact ⟨rfl, by simp [open_, finish]⟩

variable (platform ptr) in
/-- The session goes on, and all the time there is a class at this address. -/
inductive GoesOn (vm : VM N) (declared : Declarations) : VM N → Declarations → Prop
  | refl : GoesOn vm declared vm declared
  | step {middle after : VM N} {known : Declarations} : GoesOn vm declared middle known →
      step platform middle = .ok () after → (∃ klass, after.gcHeap.valueAt ptr = some (.class_ klass)) →
      GoesOn vm declared after (known.observe platform middle)
  | between {middle after : VM N} {known : Declarations} : GoesOn vm declared middle known →
      Between platform middle after → (∃ klass, after.gcHeap.valueAt ptr = some (.class_ klass)) →
      GoesOn vm declared after known

omit [Number N] in
theorem Declarations.of_observe (other : declared.open_ ≠ some ptr) (old : ptr ≠ vm.fresh platform) :
    (declared.observe platform vm).of ptr = declared.of ptr ∧
      (declared.observe platform vm).open_ ≠ some ptr := by
  rw [observe]
  split
  · exact of_next other old
  · exact ⟨rfl, other⟩

theorem GoesOn.of (goesOn : GoesOn platform ptr vm declared after known)
    (there : vm.gcHeap.valueAt ptr = some (.class_ klass)) (other : declared.open_ ≠ some ptr) :
    known.of ptr = declared.of ptr ∧ known.open_ ≠ some ptr := by
  suffices (∃ klass, after.gcHeap.valueAt ptr = some (.class_ klass)) ∧
      known.of ptr = declared.of ptr ∧ known.open_ ≠ some ptr from this.2
  induction goesOn with
  | refl => exact ⟨⟨klass, there⟩, rfl, other⟩
  | @step middle after known _ steps remains ih =>
      obtain ⟨⟨klass, before⟩, same, other⟩ := ih
      have old : ptr ≠ middle.fresh platform := by
        rintro rfl
        rw [valueAt_fresh] at before
        cases before
      obtain ⟨observed, another⟩ := Declarations.of_observe other old
      exact ⟨remains, observed.trans same, another⟩
  | between _ _ remains ih => exact ⟨remains, ih.2⟩

theorem GoesOn.attains (goesOn : GoesOn platform ptr vm declared after known)
    (reaches : Attains platform (Declarations.observe platform) {} vm declared) :
    Attains platform (Declarations.observe platform) {} after known := by
  induction goesOn with
  | refl => exact reaches
  | step _ steps _ ih => exact ih.step steps
  | between _ between _ ih => exact ih.between between

end Cpplox
