import Cpplox.Vm.Typed

namespace Cpplox

open Data

/-! What an instruction makes, and which class it writes. -/

variable {N : Type} {platform : Platform N} {activation : Activation N} {vm after : VM N}
  {ptr : Ptr} {object : Object N}

/-- What an object is when an instruction has just made it. -/
def Object.NewBy (activation : Activation N) (instr : Instr) : Object N → Prop
  | .class_ klass => klass.methods = [] ∧ ∃ index, instr = .operand .class_ index ∧
      activation.chunk.constants[index]? = some (.string klass.name)
  | .closure made => ∃ index captures, instr = .closure index captures ∧
      activation.chunk.constants[index]? = some (.function made.function)
  | .function _ => False
  | .instance_ inst => inst.fields = [] ∧ ∃ argCount, instr = .operand .call argCount
  | _ => True

theorem new_of_made {made : Object N} (absent : vm.gcHeap.valueAt ptr = none)
    (found : (vm.made platform made).gcHeap.valueAt ptr = some object) :
    ptr = vm.fresh platform ∧ object = made := by
  rw [valueAt_made] at found
  split at found
  next same => exact ⟨same, (Option.some.inj found).symm⟩
  next =>
      rw [absent] at found
      cases found

theorem absent_updated {old new : Object N} {other : Ptr}
    (there : vm.gcHeap.valueAt other = some old) (absent : vm.gcHeap.valueAt ptr = none) :
    (vm.updated other new).gcHeap.valueAt ptr = none := by
  rw [valueAt_updated there]
  split
  next same =>
      rw [← same, absent] at there
      cases there
  next => exact absent

theorem new_of_intern {chars : Text} {name : Ptr} (absent : vm.gcHeap.valueAt ptr = none)
    (interns : intern platform chars vm = .ok name after)
    (found : after.gcHeap.valueAt ptr = some object) : object = .string chars := by
  rcases intern_ok.mp interns with ⟨-, rfl⟩ | ⟨-, -, rfl⟩
  · rw [absent] at found
    cases found
  · exact (new_of_made absent found).2

theorem Captured.new {tracked : TrackedUpvalue} {made : Ptr}
    (captured : Captured platform activation made vm tracked after)
    (absent : vm.gcHeap.valueAt ptr = none) (found : after.gcHeap.valueAt ptr = some object) :
    object.kind = .upvalue := by
  have none_ {Q : Prop} (gone : after.gcHeap.valueAt ptr = none) : Q := by
    rw [gone] at found
    cases found
  cases captured with
  | shared _ _ _ _ there | passed _ _ there => exact none_ (absent_updated there absent)
  | @opened _ enclosing _ lower upper middle _ here _ makes there _ _ _ same =>
      have kept : vm.gcHeap.Extends (middle.withUpvalue made _ (vm.fresh platform)).gcHeap :=
        (makes ▸ extends_made _).trans (extends_withUpvalue _ there)
      obtain ⟨closure, isClosure, -⟩ := kept.closure here
      subst same
      rw [valueAt_updated isClosure] at found
      split at found
      next same =>
          rw [← same, absent] at here
          cases here
      next =>
          rw [VM.withUpvalue, valueAt_updated there] at found
          split at found
          next same =>
              subst makes
              obtain ⟨-, isUpvalue⟩ := new_of_made absent (same ▸ there)
              cases isUpvalue
          next =>
              subst makes
              rw [(new_of_made absent found).2]
              rfl

theorem CapturedAll.new {captures : List TrackedUpvalue} {made : Ptr}
    (captured : CapturedAll platform activation made vm captures after)
    (absent : vm.gcHeap.valueAt ptr = none) (found : after.gcHeap.valueAt ptr = some object) :
    object.kind = .upvalue := by
  induction captured with
  | nil =>
      rw [absent] at found
      cases found
  | @cons vm middle _ _ _ first rest ih =>
      cases here : middle.gcHeap.valueAt ptr with
      | none => exact ih here found
      | some old =>
          obtain ⟨other, laterFound, becomes⟩ := rest.extends ptr old here
          rw [found] at laterFound
          cases laterFound
          rw [becomes.kind]
          exact first.new absent here

theorem Closes.absent {upvalues : List Ptr} (closes : Closes vm upvalues after)
    (absent : vm.gcHeap.valueAt ptr = none) : after.gcHeap.valueAt ptr = none := by
  induction closes with
  | nil => exact absent
  | cons found _ _ ih => exact ih (absent_updated found absent)

variable [Number N] {instr : Instr}

/-- What an instruction makes. -/
theorem Effect.new (effect : Effect platform activation vm instr after)
    (absent : vm.gcHeap.valueAt ptr = none) (found : after.gcHeap.valueAt ptr = some object) :
    object.NewBy activation instr := by
  have none_ {Q : Prop} (gone : after.gcHeap.valueAt ptr = none) : Q := by
    rw [gone] at found
    cases found
  cases effect with
  | concatenates _ _ _ interns =>
      rw [new_of_intern (by exact absent) interns found]
      trivial
  | setClosed _ _ _ there => exact none_ (absent_updated there absent)
  | bind | getSuper =>
      rw [(new_of_made absent found).2]
      trivial
  | setProperty _ _ there | inherit _ _ there | method _ _ there =>
      exact none_ (absent_updated there absent)
  | class_ named =>
      rw [(new_of_made absent found).2]
      exact ⟨rfl, _, rfl, named⟩
  | @callInitializer _ owner _ _ _ middle _ interns | @callClass owner _ _ _ middle _ interns =>
      cases here : middle.gcHeap.valueAt ptr with
      | none =>
          rw [(new_of_made here found).2]
          exact ⟨rfl, _, rfl⟩
      | some old =>
          have kept : middle.gcHeap.Extends
              (middle.made platform (.instance_ { klass := owner })).gcHeap := extends_made _
          obtain ⟨other, laterFound, becomes⟩ := kept ptr old here
          obtain rfl := Option.some.inj (found.symm.trans laterFound)
          obtain rfl := new_of_intern absent interns here
          cases becomes
          trivial
  | @closure _ _ function _ known captured =>
      cases here : (vm.made platform (.closure { function })).gcHeap.valueAt ptr with
      | none =>
          have kind := captured.new here found
          cases object <;> trivial
      | some old =>
          obtain ⟨-, rfl⟩ := new_of_made absent here
          obtain ⟨other, laterFound, becomes⟩ := captured.extends ptr _ here
          obtain rfl := Option.some.inj (found.symm.trans laterFound)
          cases becomes with
          | same => exact ⟨_, _, rfl, known⟩
          | closure same => exact ⟨_, _, rfl, same ▸ known⟩
  | @closeUpvalue _ top _ _ _ _ here _ isOpen =>
      obtain ⟨_, there, -⟩ := isOpen
      have first := extends_updated (.upvalue (.closed top)) there .upvalue
      obtain ⟨closure, isClosure, -⟩ := first.closure here
      exact none_ (absent_updated isClosure (absent_updated there absent))
  | return_ _ _ closes => exact none_ (closes.absent absent)
  | _ => exact none_ absent

omit [Number N]

theorem kept_updated {old : Object N} (new : Object N) {other : Ptr}
    (written : vm.gcHeap.valueAt other = some old) (there : vm.gcHeap.valueAt ptr = some object)
    (different : object.kind ≠ old.kind) :
    (vm.updated other new).gcHeap.valueAt ptr = some object := by
  rw [valueAt_updated written]
  split
  next same =>
      rw [same, written] at there
      cases there
      exact absurd rfl different
  next => exact there

theorem kept_intern {chars : Text} {name : Ptr} (there : vm.gcHeap.valueAt ptr = some object)
    (interns : intern platform chars vm = .ok name after) :
    after.gcHeap.valueAt ptr = some object := by
  rcases intern_ok.mp interns with ⟨-, rfl⟩ | ⟨-, -, rfl⟩
  · exact there
  · show (vm.made platform (.string chars)).gcHeap.valueAt ptr = some object
    exact valueAt_made_of there

theorem Captured.keeps {tracked : TrackedUpvalue} {made : Ptr}
    (captured : Captured platform activation made vm tracked after)
    (there : vm.gcHeap.valueAt ptr = some object) (different : object.kind ≠ .closure) :
    after.gcHeap.valueAt ptr = some object := by
  cases captured with
  | shared _ _ _ _ found | passed _ _ found => exact kept_updated _ found there different
  | @opened _ _ _ _ _ middle _ here _ makes found _ _ _ same =>
      have kept : vm.gcHeap.Extends (middle.withUpvalue made _ (vm.fresh platform)).gcHeap :=
        (makes ▸ extends_made _).trans (extends_withUpvalue _ found)
      obtain ⟨closure, isClosure, -⟩ := kept.closure here
      subst same
      refine kept_updated _ isClosure ?_ different
      exact kept_updated _ found (makes ▸ valueAt_made_of there) different

theorem CapturedAll.keeps {captures : List TrackedUpvalue} {made : Ptr}
    (captured : CapturedAll platform activation made vm captures after)
    (there : vm.gcHeap.valueAt ptr = some object) (different : object.kind ≠ .closure) :
    after.gcHeap.valueAt ptr = some object := by
  induction captured with
  | nil => exact there
  | cons first _ ih => exact ih (first.keeps there different)

theorem Closes.keeps {upvalues : List Ptr} (closes : Closes vm upvalues after)
    (there : vm.gcHeap.valueAt ptr = some object) (different : object.kind ≠ .upvalue) :
    after.gcHeap.valueAt ptr = some object := by
  induction closes with
  | nil => exact there
  | cons found _ _ ih => exact ih (kept_updated _ found there different)

/-- The instructions that write the methods of a class. -/
def Instr.writesClass : Instr → Bool
  | .simple .inherit => true
  | .operand .method _ => true
  | _ => false

/-- Other instructions leave every class as it is. -/
theorem Effect.keepsClass [Number N] {instr : Instr} {klass : Class}
    (effect : Effect platform activation vm instr after) (other : instr.writesClass = false)
    (there : vm.gcHeap.valueAt ptr = some (.class_ klass)) :
    after.gcHeap.valueAt ptr = some (.class_ klass) := by
  cases effect with
  | @concatenates _ _ _ _ _ _ after _ _ _ interns =>
      have kept : after.gcHeap.valueAt ptr = some (.class_ klass) := by
        refine kept_intern ?_ interns
        exact there
      exact kept
  | setClosed _ _ _ found => exact kept_updated _ found there nofun
  | bind | getSuper | class_ => exact valueAt_made_of there
  | setProperty _ _ found => exact kept_updated _ found there nofun
  | inherit | method => cases other
  | callInitializer _ interns => exact valueAt_made_of (kept_intern there interns)
  | callClass _ interns => exact valueAt_made_of (kept_intern there interns)
  | closure _ captured => exact captured.keeps (valueAt_made_of there) nofun
  | @closeUpvalue _ top _ _ _ _ here _ isOpen =>
      obtain ⟨_, found, -⟩ := isOpen
      have first := kept_updated (.upvalue (.closed top)) found here nofun
      exact kept_updated _ first (kept_updated _ found there nofun) nofun
  | return_ _ _ closes => exact closes.keeps there nofun
  | _ => exact there

/-- The closure is there, with these upvalues. -/
def GcHeap.HasUpvalues (heap : GcHeap (Object N)) (ptr : Ptr) (upvalues : List Ptr) : Prop :=
  ∃ closure, heap.valueAt ptr = some (.closure closure) ∧ closure.upvalues = upvalues

section

variable {upvalues : List Ptr} {made : Ptr}

theorem hasUpvalues_updated {closure new : Closure} {other : Ptr}
    (written : vm.gcHeap.valueAt other = some (.closure closure))
    (same : new.upvalues = closure.upvalues) (there : vm.gcHeap.HasUpvalues ptr upvalues) :
    (vm.updated other (.closure new)).gcHeap.HasUpvalues ptr upvalues := by
  obtain ⟨held, found, holds⟩ := there
  rw [GcHeap.HasUpvalues, valueAt_updated written]
  split
  next here =>
      rw [here, written] at found
      cases found
      exact ⟨new, rfl, same.trans holds⟩
  next => exact ⟨held, found, holds⟩

theorem hasUpvalues_kept {old new : Object N} {other : Ptr}
    (written : vm.gcHeap.valueAt other = some old) (different : old.kind ≠ .closure)
    (there : vm.gcHeap.HasUpvalues ptr upvalues) :
    (vm.updated other new).gcHeap.HasUpvalues ptr upvalues := by
  obtain ⟨held, found, holds⟩ := there
  exact ⟨held, kept_updated new written found different.symm, holds⟩

theorem hasUpvalues_made (object : Object N) (there : vm.gcHeap.HasUpvalues ptr upvalues) :
    (vm.made platform object).gcHeap.HasUpvalues ptr upvalues := by
  obtain ⟨held, found, holds⟩ := there
  exact ⟨held, valueAt_made_of found, holds⟩

theorem hasUpvalues_intern {chars : Text} {name : Ptr}
    (interns : intern platform chars vm = .ok name after)
    (there : vm.gcHeap.HasUpvalues ptr upvalues) : after.gcHeap.HasUpvalues ptr upvalues := by
  obtain ⟨held, found, holds⟩ := there
  exact ⟨held, kept_intern found interns, holds⟩

theorem hasUpvalues_other {closure : Closure} {upvalue : Ptr}
    (written : vm.gcHeap.valueAt made = some (.closure closure)) (different : ptr ≠ made)
    (there : vm.gcHeap.HasUpvalues ptr upvalues) :
    (vm.withUpvalue made closure upvalue).gcHeap.HasUpvalues ptr upvalues := by
  obtain ⟨held, found, holds⟩ := there
  refine ⟨held, ?_, holds⟩
  rw [VM.withUpvalue, valueAt_updated written, if_neg different, found]

theorem hasUpvalues_withUpvalue {closure : Closure} {upvalue : Ptr}
    (written : vm.gcHeap.valueAt made = some (.closure closure))
    (there : vm.gcHeap.HasUpvalues made upvalues) :
    (vm.withUpvalue made closure upvalue).gcHeap.HasUpvalues made (upvalues ++ [upvalue]) := by
  obtain ⟨held, found, rfl⟩ := there
  obtain rfl := Object.closure.inj (Option.some.inj (written.symm.trans found))
  rw [GcHeap.HasUpvalues, VM.withUpvalue, valueAt_updated written, if_pos rfl]
  exact ⟨_, rfl, rfl⟩

/-- The running closure while a new upvalue is added to another. -/
theorem running_withUpvalue {enclosing closure : Closure} {upvalue : Upvalue N} {added : Ptr}
    (here : vm.gcHeap.valueAt activation.closure = some (.closure enclosing))
    (written : (vm.made platform (.upvalue upvalue)).gcHeap.valueAt made = some (.closure closure))
    (running : activation.closure ≠ made) :
    ((vm.made platform (.upvalue upvalue)).withUpvalue made closure added).gcHeap.valueAt
      activation.closure = some (.closure enclosing) := by
  rw [VM.withUpvalue, valueAt_updated written, if_neg running]
  exact valueAt_made_of here

/-- A capture leaves the upvalues of the other closures as they are. -/
theorem Captured.hasUpvalues {tracked : TrackedUpvalue}
    (captured : Captured platform activation made vm tracked after)
    (running : activation.closure ≠ made) (different : ptr ≠ made)
    (there : vm.gcHeap.HasUpvalues ptr upvalues) : after.gcHeap.HasUpvalues ptr upvalues := by
  cases captured with
  | shared _ _ _ _ found | passed _ _ found => exact hasUpvalues_other found different there
  | opened here _ makes found _ _ _ same =>
      subst same makes
      exact hasUpvalues_updated (running_withUpvalue here found running) rfl
        (hasUpvalues_other found different (hasUpvalues_made _ there))

theorem Captured.adds {tracked : TrackedUpvalue}
    (captured : Captured platform activation made vm tracked after)
    (running : activation.closure ≠ made) (there : vm.gcHeap.HasUpvalues made upvalues) :
    ∃ upvalue, after.gcHeap.HasUpvalues made (upvalues ++ [upvalue]) := by
  cases captured with
  | shared _ _ _ _ found | passed _ _ found => exact ⟨_, hasUpvalues_withUpvalue found there⟩
  | opened here _ makes found _ _ _ same =>
      subst same makes
      exact ⟨_, hasUpvalues_updated (running_withUpvalue here found running) rfl
        (hasUpvalues_withUpvalue found (hasUpvalues_made _ there))⟩

theorem CapturedAll.hasUpvalues {captures : List TrackedUpvalue}
    (captured : CapturedAll platform activation made vm captures after)
    (running : activation.closure ≠ made) (different : ptr ≠ made)
    (there : vm.gcHeap.HasUpvalues ptr upvalues) : after.gcHeap.HasUpvalues ptr upvalues := by
  induction captured with
  | nil => exact there
  | cons first _ ih => exact ih (first.hasUpvalues running different there)

/-- A new closure gets one upvalue for each capture. -/
theorem CapturedAll.adds {captures : List TrackedUpvalue}
    (captured : CapturedAll platform activation made vm captures after)
    (running : activation.closure ≠ made) (there : vm.gcHeap.HasUpvalues made upvalues) :
    ∃ more, more.length = captures.length ∧ after.gcHeap.HasUpvalues made (upvalues ++ more) := by
  induction captured generalizing upvalues with
  | nil => exact ⟨[], rfl, by simpa using there⟩
  | cons first _ ih =>
      obtain ⟨upvalue, added⟩ := first.adds running there
      obtain ⟨more, length, all⟩ := ih added
      exact ⟨upvalue :: more, by simp [length], by simpa using all⟩

theorem Closes.hasUpvalues {closed : List Ptr} (closes : Closes vm closed after)
    (there : vm.gcHeap.HasUpvalues ptr upvalues) : after.gcHeap.HasUpvalues ptr upvalues := by
  obtain ⟨held, found, holds⟩ := there
  exact ⟨held, closes.keeps found (by simp [Object.kind]), holds⟩

/-- No instruction changes the upvalues of a closure that is there already. -/
theorem Effect.hasUpvalues [Number N] {instr : Instr} {running : Closure}
    (effect : Effect platform activation vm instr after)
    (live : vm.gcHeap.valueAt activation.closure = some (.closure running))
    (there : vm.gcHeap.HasUpvalues ptr upvalues) : after.gcHeap.HasUpvalues ptr upvalues := by
  have old {ptr : Ptr} {held : Closure} (found : vm.gcHeap.valueAt ptr = some (.closure held)) :
      ptr ≠ vm.fresh platform := by
    rintro rfl
    rw [valueAt_fresh] at found
    cases found
  cases effect with
  | @concatenates _ _ _ _ _ _ middle _ _ _ interns =>
      have kept : middle.gcHeap.HasUpvalues ptr upvalues := hasUpvalues_intern interns there
      exact kept
  | setClosed _ _ _ found | setProperty _ _ found | inherit _ _ found | method _ _ found =>
      exact hasUpvalues_kept found (by simp [Object.kind]) there
  | bind | getSuper | class_ => exact hasUpvalues_made _ there
  | callInitializer _ interns | callClass _ interns =>
      exact hasUpvalues_made _ (hasUpvalues_intern interns there)
  | closure _ captured =>
      obtain ⟨held, found, holds⟩ := there
      exact captured.hasUpvalues (old live) (old found) (hasUpvalues_made _ ⟨held, found, holds⟩)
  | @closeUpvalue _ top _ _ _ _ here _ isOpen =>
      obtain ⟨_, found, -⟩ := isOpen
      have first := kept_updated (.upvalue (.closed top)) found here (by simp [Object.kind])
      exact hasUpvalues_updated first rfl (hasUpvalues_kept found (by simp [Object.kind]) there)
  | return_ _ _ closes => exact closes.hasUpvalues there
  | _ => exact there

end

end Cpplox
