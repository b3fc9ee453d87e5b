import Cpplox.Vm.Loading

namespace Cpplox

open Structured Data

/-! What a run that fails leaves on the stack for the next one. -/

variable {N : Type} [Number N] {platform : Platform N} {activation : Activation N} {vm after : VM N}
  {what : Text} {instr : Instr}

/-- The instruction takes an instance off the stack even when it throws. -/
def Instr.Loses (instr : Instr) (vm : VM N) : Prop :=
  (∃ index, instr = .operand .getProperty index) ∧ vm.HasInstance

theorem execute_loses
    (failed : execute platform activation instr vm = .error (.runtimeError what) after) :
    (instr.Loses vm ∧ after.stack = vm.stack.tail) ∨ (¬ instr.Loses vm ∧ after.stack = vm.stack) := by
  by_cases property : ∃ index, instr = .operand .getProperty index
  · obtain ⟨index, rfl⟩ := property
    rcases VmM.bind_error.mp failed with early | ⟨name, middle, names, continues⟩
    · exact absurd early (safe_nameAt _ _ _ _ _)
    · obtain rfl := (reads_nameAt _ _).ok names
      rcases getProperty_error continues with ⟨here, rfl⟩ | ⟨lacks, rfl⟩
      · exact .inl ⟨⟨⟨index, rfl⟩, here⟩, rfl⟩
      · exact .inr ⟨fun loses => lacks loses.2, rfl⟩
  · obtain ⟨count, few, middle, rfl⟩ := throws_execute _ _ _ _ failed
    refine .inr ⟨fun loses => property loses.1, ?_⟩
    cases count with
    | succ count => exact absurd (Instr.loses_some few).2 property
    | zero =>
        rcases middle with rfl | ⟨ptr, interns⟩
        · rfl
        · rcases intern_ok.mp interns with ⟨-, rfl⟩ | ⟨-, -, rfl⟩ <;> rfl

/-- The script itself is executing, and has nothing on the stack but what the instruction takes
off it: nothing at all, or the instance whose property it reads. -/
def VM.Unladen (vm : VM N) : Prop :=
  ∃ frame closure object fetched, vm.callFrames = [frame] ∧ vm.Fetches frame closure object fetched ∧
    (Reaches object.chunk.bytecode 0 frame.bytecodeIndex 0 ∨
      fetched.instr.Loses vm ∧ Reaches object.chunk.bytecode 0 frame.bytecodeIndex 1)

omit [Number N] in
/-- What was there on entry is below what an instruction takes. -/
theorem LoweredFunction.Verified.entry_le {function : LoweredFunction N}
    {functions : List (LoweredFunction N)} {entry : List TrackedLocal}
    {listing : Listing Emission JumpTag Context} {offset : Nat} {written : List Slot} {emission : Emission}
    (verified : function.Verified functions entry listing)
    (there : EntryAt layout listing offset (.live written, .plain emission)) :
    function.entryHeight + emission.instr.pops ≤ written.length := by
  obtain ⟨_, _, same, executes, -⟩ := verified.executes there
  cases same
  obtain ⟨taken, rest, rfl, count, tall, -⟩ := executes.effect
  change function.entryHeight ≤ rest.length at tall
  rw [List.length_append, count]
  omega

omit [Number N] in
theorem Instr.Loses.pops (loses : instr.Loses vm) : instr.pops = 1 := by
  obtain ⟨⟨index, rfl⟩, -⟩ := loses
  rfl

omit [Number N] in
/-- A frame fetches one instruction. -/
theorem VM.Fetches.unique {frame : Frame} {closure other : Closure} {object otherObject : HeapFunction N}
    {fetched otherFetched : Fetched N} (one : vm.Fetches frame closure object fetched)
    (two : vm.Fetches frame other otherObject otherFetched) :
    object = otherObject ∧ fetched = otherFetched := by
  obtain rfl := Object.closure.inj (Option.some.inj (one.runs.live.symm.trans two.runs.live))
  obtain rfl := Object.function.inj (Option.some.inj (one.runs.code.symm.trans two.runs.code))
  exact ⟨rfl, Option.some.inj ((VM.fetchFrom_some.mpr ⟨_, _, one⟩).symm.trans
    (VM.fetchFrom_some.mpr ⟨_, _, two⟩))⟩

/-- A script does not call itself: under the activation of another function the stack has the
callee. -/
theorem Stacked.tall {heap : GcHeap (Object N)} {frame : Frame} {callers : List Frame}
    {function : LoweredFunction N} {floor below : Nat} (outer : Stacked heap 0 callers below)
    (leaves : function.Leaves frame floor below) (result : callers = [] ∨ 0 < below) :
    (callers = [] ∧ function.entryHeight = 0 ∧ floor = 0) ∨
      (callers ≠ [] ∧ 0 < floor + function.entryHeight) := by
  have leaves := leaves.2
  unfold LoweredFunction.entryHeight
  by_cases script : function.kind = .script
  · rw [if_pos script] at leaves ⊢
    rcases result with rfl | more
    · cases outer
      exact .inl ⟨rfl, rfl, leaves.symm⟩
    · refine .inr ⟨?_, by omega⟩
      rintro rfl
      cases outer
      omega
  · rw [if_neg script] at leaves ⊢
    refine .inr ⟨?_, by omega⟩
    rintro rfl
    cases outer
    omega

omit [Number N] in
/-- An unladen script is at height 0, or at height 1 with an instance to lose. -/
theorem VM.unladen_iff {frame : Frame} {closure : Closure} {object : HeapFunction N} {fetched : Fetched N}
    {height : Nat} (frames : vm.callFrames = [frame]) (fetches : vm.Fetches frame closure object fetched)
    (arrives : ∀ other, Reaches object.chunk.bytecode 0 frame.bytecodeIndex other ↔ other = height) :
    vm.Unladen ↔ height = 0 ∨ fetched.instr.Loses vm ∧ height = 1 := by
  constructor
  · rintro ⟨other, _, _, otherFetched, same, otherFetches, here⟩
    obtain rfl : frame = other := by
      rw [frames] at same
      exact (List.cons.inj same).1
    obtain ⟨rfl, rfl⟩ := fetches.unique otherFetches
    rw [arrives, arrives] at here
    exact here.imp Eq.symm (And.imp_right Eq.symm)
  · intro here
    refine ⟨frame, closure, object, fetched, frames, fetches, ?_⟩
    rw [arrives, arrives]
    exact here.imp Eq.symm (And.imp_right Eq.symm)

/-- An instruction that throws finds what it takes above what was there on entry. -/
theorem Frame.Runs.taken {frame : Frame} {closure live : Closure} {program : Program N}
    {function : LoweredFunction N} {slots : List Slot} {object : HeapFunction N} {fetched : Fetched N}
    {moved : VM N} (runs : frame.Runs vm.gcHeap closure program function slots)
    (fetches : vm.Fetches frame live object fetched)
    (failed : execute platform activation fetched.instr moved = .error (.runtimeError what) after) :
    function.entryHeight + fetched.instr.pops ≤ slots.length := by
  obtain ⟨entry, listing, written, flat, verified, there, le, instr, -⟩ := runs.fetched fetches
  rw [← instr] at failed ⊢
  rw [← le.length]
  cases flat with
  | plain emission => exact verified.entry_le there
  | jump | jumpIfFalse | loop => exact absurd failed (safe_jump _ _ _ _ _)

/-- The paths to where an activation is have the height of its slots. -/
theorem Frame.Runs.reaches_iff {frame : Frame} {closure live : Closure} {program : Program N}
    {function : LoweredFunction N} {slots : List Slot} {object : HeapFunction N} {fetched : Fetched N}
    (runs : frame.Runs vm.gcHeap closure program function slots)
    (fetches : vm.Fetches frame live object fetched) (height : Nat) :
    Reaches object.chunk.bytecode function.entryHeight frame.bytecodeIndex height ↔
      height = slots.length := by
  obtain ⟨entry, listing, verified, -⟩ := runs.arrives
  obtain rfl := Object.closure.inj (Option.some.inj (runs.live.symm.trans fetches.runs.live))
  obtain ⟨_, holds⟩ := runs.full.of.embodies.object fetches.runs.code
  rw [holds.bytecode]
  constructor
  · exact fun reaches =>
      verified.reaches_unique (program.fits function runs.full.of.member) reaches runs.reaches
  · rintro rfl
    exact runs.reaches

/-- On a stack that was empty, nothing is left exactly when the machine was unladen. -/
theorem step_unladen (stacked : Stacked vm.gcHeap 0 vm.callFrames vm.stack.length)
    (fails : step platform vm = .error (.runtimeError what) after) : after.stack = [] ↔ vm.Unladen := by
  obtain ⟨frame, callers, live, object, fetched, frames, fetches, failed⟩ := step_failed fails
  have either := execute_loses failed
  have loses : (fetched.instr.Loses vm ∧ after.stack.length = vm.stack.length - 1) ∨
      (¬ fetched.instr.Loses vm ∧ after.stack.length = vm.stack.length) :=
    either.imp (And.imp_right fun stack => by rw [stack, List.length_tail]; rfl)
      (And.imp_right (congrArg List.length))
  rw [frames] at stacked
  rw [← List.length_eq_zero_iff]
  generalize tall : vm.stack.length = height at stacked loses
  cases stacked with
  | @cons _ _ closure program function slots floor below outer runs leaves result =>
      have taken := runs.taken fetches failed
      rcases outer.tall leaves result with ⟨rfl, script, rfl⟩ | ⟨called, above⟩
      · have arrives := runs.reaches_iff fetches
        rw [script] at arrives
        rw [VM.unladen_iff frames fetches arrives]
        rcases loses with ⟨loses, stack⟩ | ⟨keeps, stack⟩
        · have pops := loses.pops
          simp only [loses, true_and]
          omega
        · simp only [keeps, false_and, or_false]
          omega
      · have left : after.stack.length ≠ 0 := by
          rcases loses with ⟨loses, stack⟩ | ⟨-, stack⟩
          · have pops := loses.pops
            omega
          · omega
        refine iff_of_false left ?_
        rintro ⟨other, _, _, _, same, -⟩
        rw [frames] at same
        exact called (List.cons.inj same).2

/-- A session in which every run that fails is unladen when it does. -/
inductive Restores (platform : Platform N) : VM N → Prop
  | construct {vm : VM N} : construct platform {} = .ok () vm → Restores platform vm
  | step {vm after : VM N} : Restores platform vm → step platform vm = .ok () after →
      Restores platform after
  | between {vm after : VM N} : Restores platform vm → Between platform vm after →
      (vm.callFrames ≠ [] → after.callFrames = [] → vm.Unladen) → Restores platform after

theorem Restores.attains (restores : Restores platform vm) :
    Attains platform (fun _ (_ : Unit) => ()) () vm () := by
  induction restores with
  | construct constructs => exact .construct constructs
  | step _ steps ih => exact .step ih steps
  | between _ between _ ih => exact .between ih between

omit [Number N] in
theorem construct_stack (constructs : construct platform ({} : VM N) = .ok () after) :
    after.stack = [] ∧ after.callFrames = [] := by
  obtain ⟨name, named, interns, rfl⟩ := construct_ok constructs
  rcases intern_ok.mp interns with ⟨-, rfl⟩ | ⟨-, -, rfl⟩ <;> exact ⟨rfl, rfl⟩

/-- A machine without activations has its stack as it was. -/
theorem stacked_idle {heap : GcHeap (Object N)} {frames : List Frame} {base : Nat} (none : frames = []) :
    Stacked heap base frames base := none ▸ .nil

theorem Stacked.base_of_idle {heap : GcHeap (Object N)} {frames : List Frame} {base height : Nat}
    (stacked : Stacked heap base frames height) (idle : frames = []) : height = base := by
  subst idle
  cases stacked
  rfl

/-- Between two instructions a session that restores it keeps to the stack from its beginning on. -/
theorem between_restores (sound : vm.Sound) (full : vm.Full)
    (stacked : Stacked vm.gcHeap 0 vm.callFrames vm.stack.length) (between : Between platform vm after)
    (unladen : vm.callFrames ≠ [] → after.callFrames = [] → vm.Unladen) :
    Stacked after.gcHeap 0 after.callFrames after.stack.length := by
  by_cases idle : vm.callFrames = []
  · have empty := stacked.base_of_idle idle
    by_cases running : after.callFrames = []
    · have same : after.stack = vm.stack := by
        cases between with
        | scan _ interns => exact (intern_loads sound.interned sound.typed interns).stack
        | refuse _ loads => exact (loadAll_ok sound.interned sound.typed (by simp) loads).1.stack
        | run _ _ _ starts =>
            obtain rfl := start_ok.mp starts
            exact absurd running (List.cons_ne_nil _ _)
        | collect busy => exact absurd idle busy
        | throw fails =>
            obtain ⟨frame, callers, _, _, _, frames, -⟩ := step_error fails
            rw [idle] at frames
            cases frames
      rw [same, empty]
      exact stacked_idle running
    · exact empty ▸ (between_started sound full idle between running).2
  · cases between with
    | scan none | refuse none | run none => exact absurd none idle
    | collect _ collects =>
        obtain ⟨-, frames, stacked⟩ :=
          collect_stacked sound full (List.append_nil _).symm stacked collects
        exact frames ▸ stacked
    | throw fails =>
        have none := (step_unladen stacked fails).mpr (unladen idle rfl)
        simp only [none]
        exact .nil

theorem Restores.stacked (restores : Restores platform vm) :
    Stacked vm.gcHeap 0 vm.callFrames vm.stack.length := by
  induction restores with
  | construct constructs =>
      obtain ⟨empty, idle⟩ := construct_stack constructs
      rw [empty]
      exact stacked_idle idle
  | @step vm after before steps ih =>
      by_cases idle : vm.callFrames = []
      · rcases step_ok steps with ⟨-, rfl⟩ | ⟨_, _, _, _, frames, -⟩
        · exact ih
        · rw [idle] at frames
          cases frames
      · obtain ⟨-, inner, frames, stacked⟩ :=
          step_stacked before.attains.standing.full (List.append_nil _).symm idle ih steps
        rw [frames, List.append_nil]
        exact stacked
  | between before between unladen ih =>
      exact between_restores before.attains.sound before.attains.standing.full ih between unladen

end Cpplox
