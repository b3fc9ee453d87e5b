import Cpplox.Compiler.Scope
import Cpplox.Data.BackFirst
import Mathlib.Data.List.Forall2

namespace Cpplox

open Data

/-! What capturing leaves behind in the functions around it. -/

/-- The same local, which may have been captured since. -/
structure TrackedLocal.Marked (old new : TrackedLocal) : Prop where
  name : new.name = old.name
  depth : new.depth = old.depth
  initialized : new.initialized = old.initialized
  isCaptured : old.isCaptured = true → new.isCaptured = true
  nameless : old.name = [] → new.isCaptured = old.isCaptured

namespace TrackedLocal.Marked

@[refl] theorem refl (tracked : TrackedLocal) : Marked tracked tracked := ⟨rfl, rfl, rfl, id, fun _ => rfl⟩

theorem trans {first second third : TrackedLocal} (one : Marked first second)
    (two : Marked second third) : Marked first third :=
  ⟨two.name.trans one.name, two.depth.trans one.depth, two.initialized.trans one.initialized,
    fun captured => two.isCaptured (one.isCaptured captured),
    fun nameless => (two.nameless (one.name ▸ nameless)).trans (one.nameless nameless)⟩

end TrackedLocal.Marked

/-- The same locals, some of which may have been captured since. -/
abbrev Captures (old new : List TrackedLocal) : Prop := List.Forall₂ TrackedLocal.Marked old new

namespace Captures

theorem refl (locals : List TrackedLocal) : Captures locals locals :=
  List.forall₂_same.mpr fun tracked _ => .refl tracked

theorem trans {first second third : List TrackedLocal} (one : Captures first second)
    (two : Captures second third) : Captures first third := by
  induction one generalizing third with
  | nil => exact two
  | cons marked _ ih =>
      cases two with
      | cons again rest => exact .cons (marked.trans again) (ih rest)

theorem length {old new : List TrackedLocal} (captures : Captures old new) :
    new.length = old.length := (List.Forall₂.length_eq captures).symm

theorem slot {old new : List TrackedLocal} (captures : Captures old new) {index : Nat}
    {tracked : TrackedLocal} (found : slot? old index = some tracked) :
    ∃ marked, slot? new index = some marked ∧ tracked.Marked marked := by
  induction captures with
  | nil => cases found
  | cons marked rest ih =>
      rw [slot?_cons] at found
      rw [slot?_cons, length rest]
      split at found
      next atHead => cases found; exact ⟨_, if_pos atHead, marked⟩
      next inside =>
          obtain ⟨other, found, same⟩ := ih found
          exact ⟨other, by rw [if_neg inside]; exact found, same⟩

/-- Every local of the new list is one of the old list, marked. -/
theorem mem {old new : List TrackedLocal} (captures : Captures old new) {tracked : TrackedLocal}
    (found : tracked ∈ new) : ∃ before ∈ old, before.Marked tracked := by
  induction captures with
  | nil => cases found
  | cons marked _ ih =>
      rcases List.mem_cons.mp found with rfl | inside
      · exact ⟨_, List.mem_cons_self, marked⟩
      · obtain ⟨before, earlier, same⟩ := ih inside
        exact ⟨before, List.mem_cons_of_mem _ earlier, same⟩

theorem append {oldUpper newUpper oldLower newLower : List TrackedLocal}
    (upper : Captures oldUpper newUpper) (lower : Captures oldLower newLower) :
    Captures (oldUpper ++ oldLower) (newUpper ++ newLower) :=
  List.rel_append upper lower

/-- Newer locals lie on top of the older ones. -/
theorem split {upper lower new : List TrackedLocal} (captures : Captures (upper ++ lower) new) :
    ∃ newUpper newLower, new = newUpper ++ newLower ∧ Captures upper newUpper ∧
      Captures lower newLower := by
  induction upper generalizing new with
  | nil => exact ⟨[], new, rfl, .nil, captures⟩
  | cons tracked rest ih =>
      cases captures with
      | cons marked others =>
          obtain ⟨newUpper, newLower, rfl, above, below⟩ := ih others
          exact ⟨_ :: newUpper, newLower, rfl, .cons marked above, below⟩

end Captures

theorem findLocal_slot {locals : List TrackedLocal} {name : Text} {index : Nat}
    {tracked : TrackedLocal} (found : findLocal locals name = some (index, tracked)) :
    slot? locals index = some tracked ∧ tracked.name = name := by
  induction locals with
  | nil => cases found
  | cons head rest ih =>
      simp only [findLocal] at found
      split at found
      next named => cases found; exact ⟨by simp [slot?_cons], named⟩
      next =>
          obtain ⟨inside, named⟩ := ih found
          refine ⟨?_, named⟩
          rw [slot?_cons, if_neg (Nat.ne_of_lt (slot?_lt inside))]
          exact inside

theorem findLocalFromBegin_slot {locals : List TrackedLocal} {name : Text} {index : Nat}
    (found : findLocalFromBegin locals name = some index) :
    ∃ tracked, slot? locals index = some tracked ∧ tracked.name = name := by
  induction locals with
  | nil => cases found
  | cons head rest ih =>
      simp only [findLocalFromBegin] at found
      split at found
      next earlier inside =>
          cases found
          obtain ⟨tracked, at_, named⟩ := ih inside
          refine ⟨tracked, ?_, named⟩
          rw [slot?_cons, if_neg (Nat.ne_of_lt (slot?_lt at_))]
          exact at_
      next =>
          split at found
          next named => cases found; exact ⟨head, by simp [slot?_cons], named⟩
          next => cases found

theorem length_markCaptured (locals : List TrackedLocal) (index : Nat) :
    (markCaptured locals index).length = locals.length := by
  induction locals with
  | nil => rfl
  | cons tracked rest ih => simp only [markCaptured]; split <;> simp [ih]

theorem markCaptured_captures {locals : List TrackedLocal} {index : Nat} {tracked : TrackedLocal}
    (found : slot? locals index = some tracked) (named : tracked.name ≠ []) :
    Captures locals (markCaptured locals index) := by
  induction locals with
  | nil => exact .nil
  | cons head rest ih =>
      rw [slot?_cons] at found
      simp only [markCaptured]
      split
      next atHead =>
          rw [if_pos atHead] at found
          cases found
          exact .cons ⟨rfl, rfl, rfl, fun _ => rfl, fun nameless => absurd nameless named⟩
            (Captures.refl rest)
      next inside =>
          rw [if_neg inside] at found
          exact .cons (.refl head) (ih found)

theorem markCaptured_slot {locals : List TrackedLocal} {index : Nat} {tracked : TrackedLocal}
    (found : slot? locals index = some tracked) :
    slot? (markCaptured locals index) index = some { tracked with isCaptured := true } := by
  induction locals with
  | nil => cases found
  | cons head rest ih =>
      rw [slot?_cons] at found
      simp only [markCaptured]
      split at found
      next atHead => cases found; rw [if_pos atHead]; simp [slot?_cons, atHead]
      next inside =>
          rw [if_neg inside, slot?_cons, length_markCaptured, if_neg inside]
          exact ih found

theorem insertUpvalue_spec (upvalues : List TrackedUpvalue) (upvalue : TrackedUpvalue) :
    upvalues <+: (insertUpvalue upvalues upvalue).2 ∧
      (insertUpvalue upvalues upvalue).2[(insertUpvalue upvalues upvalue).1]? = some upvalue ∧
      ∀ other ∈ (insertUpvalue upvalues upvalue).2, other ∈ upvalues ∨ other = upvalue := by
  unfold insertUpvalue
  cases found : upvalues.findIdx? (· = upvalue) with
  | none => exact ⟨List.prefix_append _ _, by simp, fun other member => by simpa using member⟩
  | some index =>
      obtain ⟨bound, same, -⟩ := List.findIdx?_eq_some_iff_getElem.mp found
      exact ⟨List.prefix_rfl, by simpa [List.getElem?_eq_getElem bound] using same,
        fun other member => .inl member⟩

theorem mem_insertUpvalue {upvalues : List TrackedUpvalue} {upvalue other : TrackedUpvalue} :
    other ∈ (insertUpvalue upvalues upvalue).2 ↔ other ∈ upvalues ∨ other = upvalue := by
  obtain ⟨grows, there, members⟩ := insertUpvalue_spec upvalues upvalue
  refine ⟨members other, fun either => either.elim (fun old => grows.subset old) ?_⟩
  rintro rfl
  exact List.mem_of_getElem? there

/-- The tracking of a function may only have grown. -/
structure FunctionChunk.Extends {K : Type} (old new : FunctionChunk (List K)) : Prop where
  chunk : old.chunk <+: new.chunk
  locals : Captures old.trackedLocals new.trackedLocals
  upvalues : old.trackedUpvalues <+: new.trackedUpvalues
  isClassInitMethod : new.isClassInitMethod = old.isClassInitMethod

namespace FunctionChunk.Extends

variable {K : Type}

theorem refl (function : FunctionChunk (List K)) : Extends function function :=
  ⟨List.prefix_rfl, Captures.refl _, List.prefix_rfl, rfl⟩

theorem trans {first second third : FunctionChunk (List K)} (one : Extends first second)
    (two : Extends second third) : Extends first third :=
  ⟨one.chunk.trans two.chunk, one.locals.trans two.locals, one.upvalues.trans two.upvalues,
    two.isClassInitMethod.trans one.isClassInitMethod⟩

theorem all_refl (functions : List (FunctionChunk (List K))) :
    List.Forall₂ Extends functions functions :=
  List.forall₂_same.mpr fun function _ => refl function

theorem all_trans {first second third : List (FunctionChunk (List K))}
    (one : List.Forall₂ Extends first second) (two : List.Forall₂ Extends second third) :
    List.Forall₂ Extends first third := by
  induction one generalizing third with
  | nil => exact two
  | cons extends_ _ ih =>
      cases two with
      | cons again rest => exact .cons (extends_.trans again) (ih rest)

end FunctionChunk.Extends

/-- What an entry of an inner function refers to: a captured local, or an upvalue. -/
def FunctionChunk.Holds {C : Type} (outer : FunctionChunk C) : TrackedUpvalue → Prop
  | .upvalueIndex index => ∃ tracked, slot? outer.trackedLocals index = some tracked ∧
      tracked.isCaptured = true ∧ tracked.name ≠ []
  | .upUpvalueIndex index => index < outer.trackedUpvalues.length

theorem FunctionChunk.Holds.mono {K : Type} {old new : FunctionChunk (List K)}
    {upvalue : TrackedUpvalue} (holds : old.Holds upvalue) (extends_ : old.Extends new) :
    new.Holds upvalue := by
  cases upvalue with
  | upvalueIndex index =>
      obtain ⟨tracked, found, captured, named⟩ := holds
      obtain ⟨marked, found, same⟩ := extends_.locals.slot found
      exact ⟨marked, found, same.isCaptured captured, same.name ▸ named⟩
  | upUpvalueIndex index => exact Nat.lt_of_lt_of_le holds extends_.upvalues.length_le

/-- Every upvalue of a function refers to something of the function around it; the root
script has none. -/
def Linked {C : Type} : FunctionChunk C → List (FunctionChunk C) → Prop
  | back, [] => back.trackedUpvalues = []
  | back, outer :: rest => (∀ upvalue ∈ back.trackedUpvalues, outer.Holds upvalue) ∧
      Linked outer rest

theorem Linked.back {C : Type} {back laterBack : FunctionChunk C} {enclosing : List (FunctionChunk C)}
    (linked : Linked back enclosing) (same : laterBack.trackedUpvalues = back.trackedUpvalues) :
    Linked laterBack enclosing := by
  cases enclosing with
  | nil => exact same.trans linked
  | cons outer rest => exact ⟨fun upvalue member => linked.1 upvalue (same ▸ member), linked.2⟩

/-- The two ways of `trackUpvalue`. -/
theorem trackUpvalue_cases {C : Type} {name : Text} {inner laterInner : FunctionChunk C}
    {enclosing laterEnclosing : List (FunctionChunk C)} {index : Nat}
    (tracks : trackUpvalue name inner enclosing = some (index, laterInner, laterEnclosing)) :
    ∃ upvalue, index = (insertUpvalue inner.trackedUpvalues upvalue).1 ∧
      laterInner = { inner with trackedUpvalues := (insertUpvalue inner.trackedUpvalues upvalue).2 } ∧
      ((∃ outer rest localIndex, enclosing = outer :: rest ∧ upvalue = .upvalueIndex localIndex ∧
          findLocalFromBegin outer.trackedLocals name = some localIndex ∧
          laterEnclosing = { outer with
            trackedLocals := markCaptured outer.trackedLocals localIndex } :: rest) ∨
        (∃ outer rest outerIndex laterOuter laterRest, enclosing = outer :: rest ∧
          upvalue = .upUpvalueIndex outerIndex ∧
          findLocalFromBegin outer.trackedLocals name = none ∧
          trackUpvalue name outer rest = some (outerIndex, laterOuter, laterRest) ∧
          laterEnclosing = laterOuter :: laterRest)) := by
  cases enclosing with
  | nil => cases tracks
  | cons outer rest =>
      simp only [trackUpvalue] at tracks
      cases found : findLocalFromBegin outer.trackedLocals name with
      | some localIndex =>
          rw [found] at tracks
          cases tracks
          exact ⟨_, rfl, rfl, .inl ⟨outer, rest, localIndex, rfl, rfl, found, rfl⟩⟩
      | none =>
          rw [found] at tracks
          cases deeper : trackUpvalue name outer rest with
          | none => rw [deeper] at tracks; cases tracks
          | some result =>
              obtain ⟨outerIndex, laterOuter, laterRest⟩ := result
              rw [deeper] at tracks
              cases tracks
              exact ⟨_, rfl, rfl, .inr ⟨outer, rest, outerIndex, laterOuter, laterRest, rfl, rfl, found,
                deeper, rfl⟩⟩

variable {K : Type} {name : Text} {inner laterInner : FunctionChunk (List K)}
  {enclosing laterEnclosing : List (FunctionChunk (List K))} {index : Nat}

theorem extends_insertUpvalue (inner : FunctionChunk (List K)) (upvalue : TrackedUpvalue) :
    inner.Extends
      { inner with trackedUpvalues := (insertUpvalue inner.trackedUpvalues upvalue).2 } :=
  ⟨List.prefix_rfl, Captures.refl _, (insertUpvalue_spec _ _).1, rfl⟩

theorem extends_markCaptured {outer : FunctionChunk (List K)} {localIndex : Nat}
    (named : name ≠ []) (found : findLocalFromBegin outer.trackedLocals name = some localIndex) :
    outer.Extends { outer with trackedLocals := markCaptured outer.trackedLocals localIndex } := by
  obtain ⟨tracked, here, same⟩ := findLocalFromBegin_slot found
  exact ⟨List.prefix_rfl, markCaptured_captures here (same ▸ named), List.prefix_rfl, rfl⟩

theorem trackUpvalue_extends (named : name ≠ [])
    (tracks : trackUpvalue name inner enclosing = some (index, laterInner, laterEnclosing)) :
    inner.Extends laterInner ∧ laterInner.trackedLocals = inner.trackedLocals ∧
      index < laterInner.trackedUpvalues.length ∧
      List.Forall₂ FunctionChunk.Extends enclosing laterEnclosing := by
  induction enclosing generalizing inner laterInner laterEnclosing index with
  | nil => cases tracks
  | cons outer rest ih =>
      obtain ⟨upvalue, rfl, rfl, ways⟩ := trackUpvalue_cases tracks
      have below := (List.getElem?_eq_some_iff.mp
        (insertUpvalue_spec inner.trackedUpvalues upvalue).2.1).1
      refine ⟨extends_insertUpvalue inner upvalue, rfl, below, ?_⟩
      rcases ways with ⟨outer, rest, localIndex, split, rfl, found, rfl⟩ |
        ⟨outer, rest, outerIndex, laterOuter, laterRest, split, rfl, -, deeper, rfl⟩
      · cases split
        exact .cons (extends_markCaptured named found) (FunctionChunk.Extends.all_refl rest)
      · cases split
        obtain ⟨grows, -, -, others⟩ := ih deeper
        exact .cons grows others

theorem trackUpvalue_linked (named : name ≠ []) (linked : Linked inner enclosing)
    (tracks : trackUpvalue name inner enclosing = some (index, laterInner, laterEnclosing)) :
    Linked laterInner laterEnclosing := by
  induction enclosing generalizing inner laterInner laterEnclosing index with
  | nil => cases tracks
  | cons outer rest ih =>
      obtain ⟨holds, outerLinked⟩ := linked
      obtain ⟨upvalue, rfl, rfl, ways⟩ := trackUpvalue_cases tracks
      have members := (insertUpvalue_spec inner.trackedUpvalues upvalue).2.2
      rcases ways with ⟨outer, rest, localIndex, split, rfl, found, rfl⟩ |
        ⟨outer, rest, outerIndex, laterOuter, laterRest, split, rfl, -, deeper, rfl⟩
      · cases split
        have marks := extends_markCaptured named found
        obtain ⟨tracked, here, same⟩ := findLocalFromBegin_slot found
        refine ⟨fun upvalue member => ?_, outerLinked.back rfl⟩
        rcases members upvalue member with earlier | rfl
        · exact (holds upvalue earlier).mono marks
        · exact ⟨_, markCaptured_slot here, rfl, by simpa [same] using named⟩
      · cases split
        obtain ⟨grows, -, below, -⟩ := trackUpvalue_extends named deeper
        refine ⟨fun upvalue member => ?_, ih outerLinked deeper⟩
        rcases members upvalue member with earlier | rfl
        · exact (holds upvalue earlier).mono grows
        · exact below

end Cpplox
