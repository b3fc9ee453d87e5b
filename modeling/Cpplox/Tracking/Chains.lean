import Cpplox.Tracking.Captures

namespace Cpplox

open Data

/-! Chains of captures, for functions nested to any depth. -/

section

variable {C : Type}

def FunctionChunk.HasLocal (function : FunctionChunk C) (name : Text) : Prop :=
  ∃ tracked ∈ function.trackedLocals, tracked.name = name

/-- Entry `index` of the innermost function leads to a local of the function that is
`level` further out than the one around it. -/
inductive Leads : FunctionChunk C → List (FunctionChunk C) → Nat → Nat → TrackedLocal → Prop where
  | direct {inner outer : FunctionChunk C} {rest : List (FunctionChunk C)} {index place : Nat}
      {tracked : TrackedLocal} : inner.trackedUpvalues[index]? = some (.upvalueIndex place) →
      slot? outer.trackedLocals place = some tracked → Leads inner (outer :: rest) index 0 tracked
  | indirect {inner outer : FunctionChunk C} {rest : List (FunctionChunk C)}
      {index outerIndex level : Nat} {tracked : TrackedLocal} :
      inner.trackedUpvalues[index]? = some (.upUpvalueIndex outerIndex) →
      Leads outer rest outerIndex level tracked → Leads inner (outer :: rest) index (level + 1) tracked

/-- No two entries are equal. -/
def FunctionChunk.Distinct (function : FunctionChunk C) : Prop := function.trackedUpvalues.Nodup

/-- What capturing a name leaves of a function: every entry where it was, and every local
but for its flag. -/
structure FunctionChunk.Keeps (old new : FunctionChunk C) : Prop where
  upvalues : old.trackedUpvalues <+: new.trackedUpvalues
  locals : List.Forall₂ (fun before after : TrackedLocal => after.name = before.name ∧
    after.depth = before.depth ∧ after.initialized = before.initialized ∧
    (before.isCaptured = true → after.isCaptured = true)) old.trackedLocals new.trackedLocals
  chunk : new.chunk = old.chunk

end

theorem findLocalFromBegin_none {locals : List TrackedLocal} {name : Text} :
    findLocalFromBegin locals name = none ↔ ∀ tracked ∈ locals, tracked.name ≠ name := by
  induction locals with
  | nil => simp [findLocalFromBegin]
  | cons head rest ih =>
      rw [List.forall_mem_cons, ← ih, findLocalFromBegin]
      cases findLocalFromBegin rest name with
      | some index => simp
      | none => simp

theorem insertUpvalue_distinct {upvalues : List TrackedUpvalue} (distinct : upvalues.Nodup)
    (upvalue : TrackedUpvalue) : (insertUpvalue upvalues upvalue).2.Nodup := by
  unfold insertUpvalue
  cases found : upvalues.findIdx? (· = upvalue) with
  | some index => exact distinct
  | none =>
      have absent := List.findIdx?_eq_none_iff.mp found
      refine List.nodup_append.mpr ⟨distinct, by simp, fun old member new same equal => ?_⟩
      rw [List.mem_singleton.mp same] at equal
      simpa [equal] using absent old member

section

variable {C : Type} {name : Text} {inner laterInner : FunctionChunk C}
  {enclosing laterEnclosing : List (FunctionChunk C)} {index : Nat}

theorem FunctionChunk.Keeps.refl (function : FunctionChunk C) : function.Keeps function :=
  ⟨List.prefix_rfl, List.forall₂_same.mpr fun _ _ => ⟨rfl, rfl, rfl, id⟩, rfl⟩

theorem keeps_insertUpvalue (inner : FunctionChunk C) (upvalue : TrackedUpvalue) :
    inner.Keeps { inner with trackedUpvalues := (insertUpvalue inner.trackedUpvalues upvalue).2 } :=
  ⟨(insertUpvalue_spec _ _).1, (FunctionChunk.Keeps.refl inner).locals, rfl⟩

theorem keeps_markCaptured (outer : FunctionChunk C) (place : Nat) :
    outer.Keeps { outer with trackedLocals := markCaptured outer.trackedLocals place } := by
  refine ⟨List.prefix_rfl, ?_, rfl⟩
  induction outer.trackedLocals with
  | nil => exact .nil
  | cons head rest ih =>
      simp only [markCaptured]
      split
      · exact .cons ⟨rfl, rfl, rfl, fun _ => rfl⟩
          (List.forall₂_same.mpr fun _ _ => ⟨rfl, rfl, rfl, id⟩)
      · exact .cons ⟨rfl, rfl, rfl, id⟩ ih

/-- No index is returned exactly when no function around has the name. -/
theorem trackUpvalue_eq_none : trackUpvalue name inner enclosing = none ↔
    ∀ outer ∈ enclosing, ¬ outer.HasLocal name := by
  induction enclosing generalizing inner with
  | nil => simp [trackUpvalue]
  | cons outer rest ih =>
      rw [List.forall_mem_cons, ← @ih outer, trackUpvalue]
      have missing : ¬ outer.HasLocal name ↔ findLocalFromBegin outer.trackedLocals name = none := by
        rw [findLocalFromBegin_none]
        simp [FunctionChunk.HasLocal]
      rw [missing]
      cases findLocalFromBegin outer.trackedLocals name with
      | some place => simp
      | none => cases trackUpvalue name outer rest <;> simp

/-- The chain ends at a captured local of the name, in the nearest function that has one. -/
theorem trackUpvalue_leads
    (tracks : trackUpvalue name inner enclosing = some (index, laterInner, laterEnclosing)) :
    ∃ level tracked, Leads laterInner laterEnclosing index level tracked ∧ tracked.name = name ∧
      tracked.isCaptured = true ∧
      ∀ nearer outer, nearer < level → enclosing[nearer]? = some outer → ¬ outer.HasLocal name := by
  induction enclosing generalizing inner laterInner laterEnclosing index with
  | nil => cases tracks
  | cons outer rest ih =>
      obtain ⟨upvalue, rfl, rfl, ways⟩ := trackUpvalue_cases tracks
      have there := (insertUpvalue_spec inner.trackedUpvalues upvalue).2.1
      rcases ways with ⟨_, _, place, split, rfl, found, rfl⟩ |
        ⟨_, _, outerIndex, laterOuter, laterRest, split, rfl, missing, further, rfl⟩
      · cases split
        obtain ⟨tracked, here, same⟩ := findLocalFromBegin_slot found
        exact ⟨0, _, .direct there (markCaptured_slot here), same, rfl,
          fun _ _ nearer => absurd nearer (Nat.not_lt_zero _)⟩
      · cases split
        obtain ⟨level, tracked, leads, named, captured, nearest⟩ := ih further
        refine ⟨level + 1, tracked, .indirect there leads, named, captured, ?_⟩
        intro nearer function below found
        cases nearer with
        | zero =>
            cases found
            rintro ⟨other, member, same⟩
            exact findLocalFromBegin_none.mp missing other member same
        | succ nearer => exact nearest nearer function (Nat.lt_of_succ_lt_succ below) found

/-- Every entry of every function keeps its index. -/
theorem trackUpvalue_keeps
    (tracks : trackUpvalue name inner enclosing = some (index, laterInner, laterEnclosing)) :
    List.Forall₂ FunctionChunk.Keeps (inner :: enclosing) (laterInner :: laterEnclosing) := by
  induction enclosing generalizing inner laterInner laterEnclosing index with
  | nil => cases tracks
  | cons outer rest ih =>
      obtain ⟨upvalue, rfl, rfl, ways⟩ := trackUpvalue_cases tracks
      refine .cons (keeps_insertUpvalue inner upvalue) ?_
      rcases ways with ⟨_, _, place, split, -, -, rfl⟩ |
        ⟨_, _, outerIndex, laterOuter, laterRest, split, -, -, further, rfl⟩
      · cases split
        exact .cons (keeps_markCaptured outer place) (List.forall₂_same.mpr fun _ _ => .refl _)
      · cases split
        exact ih further

theorem trackUpvalue_distinct
    (tracks : trackUpvalue name inner enclosing = some (index, laterInner, laterEnclosing))
    (distinct : ∀ function ∈ inner :: enclosing, function.Distinct) :
    ∀ function ∈ laterInner :: laterEnclosing, function.Distinct := by
  induction enclosing generalizing inner laterInner laterEnclosing index with
  | nil => cases tracks
  | cons outer rest ih =>
      obtain ⟨upvalue, rfl, rfl, ways⟩ := trackUpvalue_cases tracks
      obtain ⟨innermost, others⟩ := List.forall_mem_cons.mp distinct
      refine List.forall_mem_cons.mpr ⟨insertUpvalue_distinct innermost upvalue, ?_⟩
      rcases ways with ⟨_, _, place, split, -, -, rfl⟩ |
        ⟨_, _, outerIndex, laterOuter, laterRest, split, -, -, further, rfl⟩
      · cases split
        obtain ⟨first, rest⟩ := List.forall_mem_cons.mp others
        exact List.forall_mem_cons.mpr ⟨first, rest⟩
      · cases split
        exact ih further others

end

end Cpplox
