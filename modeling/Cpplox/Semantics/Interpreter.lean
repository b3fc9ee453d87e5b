import Cpplox.Semantics.Perform

namespace Cpplox

open Structured Data

/-! The machine runs the code of a program as structured code. -/

variable {N : Type} [Number N] {platform : Platform N} {vm after : VM N} {program : Program N}
  {store : Store N} {offset : Nat}

/-- The token of an instruction is the one of its first byte. -/
theorem token_sourceMapOf (earlier later : List LoweredFlat) (flat : LoweredFlat) :
    (sourceMapOf (earlier ++ flat :: later))[extent layout earlier]? = some (LoweredFlat.token flat) := by
  have positive : 0 < (LoweredFlat.instr flat).size := Instr.size_pos _
  rw [sourceMapOf_append, ← length_sourceMapOf, List.getElem?_append_right (Nat.le_refl _),
    Nat.sub_self, sourceMapOf_cons, List.getElem?_append_left (by simpa using positive)]
  simp [positive]

section

variable {A B : Type} {first : VmM N A} {result : A} {middle : VM N}

omit [Number N] in
theorem bind_run (next : A → VmM N B) (runs : first vm = .ok result middle) :
    (first >>= next) vm = next result middle := by
  change EStateM.bind first next vm = _
  rw [EStateM.bind, runs]

end

/-- An iteration that fetches an instruction executes it. -/
theorem VM.Fetches.run {frame : Frame} {callers : List Frame} {closure : Closure}
    {object : HeapFunction N} {fetched : Fetched N} (fetches : vm.Fetches frame closure object fetched)
    (frames : vm.callFrames = frame :: callers) :
    step platform vm = execute platform fetched.activation fetched.instr
      (vm.advanced frame callers fetched.size) := by
  refine (bind_run _ (VmM.get_ok.mpr ⟨rfl, rfl⟩)).trans ?_
  rw [frames]
  refine (bind_run _ (getClosure_ok.mpr ⟨rfl, fetches.runs.live⟩)).trans ?_
  refine (bind_run _ (getFunction_ok.mpr ⟨rfl, fetches.runs.code⟩)).trans ?_
  dsimp only
  rw [if_neg (fetches.not_end fetches.runs), fetches.decodes, fetches.token]
  conv_rhs => rw [fetches.activation]
  rfl

omit [Number N] in
theorem run_moveTo {target : Nat → Option Nat} {place : Nat} {frame : Frame} {callers : List Frame}
    (frames : vm.callFrames = frame :: callers) (goes : target frame.bytecodeIndex = some place) :
    moveTo target vm =
      .ok () { vm with callFrames := { frame with bytecodeIndex := place } :: callers } := by
  refine (bind_run _ (VmM.get_ok.mpr ⟨rfl, rfl⟩)).trans ?_
  rw [frames]
  dsimp only
  rw [goes]
  rfl

omit [Number N] in
theorem advanced_frames (vm : VM N) (frame : Frame) (size : Nat) :
    (vm.advanced frame [] size).callFrames =
      [{ frame with bytecodeIndex := frame.bytecodeIndex + size }] := rfl

/-- The machine while it runs a script: between two instructions it may collect.  These are the
collections that complete; a collection throws where `collect_error` says. -/
def interpreter (platform : Platform N) : Disturbed (VM N) (Store N) Text where
  disturbs vm after := vm.callFrames ≠ [] ∧ collect platform vm = .ok () after
  next vm :=
    if vm.callFrames.isEmpty then none
    else match step platform vm with
      | .ok _ after => some after
      | .error _ _ => none
  fails what store vm := ∃ after, step platform vm = .error (.runtimeError what) after ∧
    after.store.globals = store.globals ∧ after.store.output = store.output

namespace Program

/-- The root script. -/
def script (program : Program N) : LoweredFunction N := program.lower.script program.code

def actions (program : Program N) : Actions Emission (Store N) Text :=
  storeActions program.script.constants

/-- The machine runs the root script alone and is at an offset of it. -/
structure Stands (program : Program N) (offset : Nat) (store : Store N) (vm : VM N) : Prop where
  sound : vm.Sound
  running : ∃ root code,
    vm.callFrames = [{ closure := root, bytecodeIndex := offset, stackBeginIndex := 0 }] ∧
    vm.gcHeap.valueAt root = some (.closure { function := code }) ∧
    Embodies vm.gcHeap program.functions program.script code
  store : vm.store = store

/-- Collections are not noticed. -/
theorem stable (program : Program N) (offset : Nat) (store : Store N) :
    (interpreter platform).Stable (program.Stands offset store) := by
  rintro vm after ⟨running, collects⟩ ⟨sound, ⟨root, code, frames, live, embodies⟩, rfl⟩
  have laterSound := between_sound sound (.collect running collects)
  obtain ⟨gcHeap, internedStrings, rfl, kept⟩ := collect_ok sound.interned collects
  have retains : Retains vm.stack vm.Kept vm.gcHeap gcHeap := fun ptr object reached found =>
    ⟨(kept ptr object).mpr ⟨found, reached⟩, fun other traced => .ref reached found traced⟩
  have member : { closure := root, bytecodeIndex := offset, stackBeginIndex := 0 } ∈ vm.callFrames := by
    simp [frames]
  have laterRoot : vm.Kept root := kept_frame vm member
  have laterCode : vm.Kept code := .ref laterRoot live (by simp [Object.traceRefs])
  refine ⟨laterSound, ⟨root, code, frames, (retains _ _ laterRoot live).1, ?_⟩, ?_⟩
  · refine embodies.mono vm.Kept (fun ptr chars reached found => (retains ptr _ reached found).1)
      (fun ptr object reached found => ?_) laterCode
    obtain ⟨stays, refs⟩ := retains ptr _ reached found
    refine ⟨stays, refs _ (by simp [Object.traceRefs]), fun value member other inside =>
      refs other ?_, fun token member => refs _ ?_⟩
    · simp only [Object.traceRefs, List.mem_cons, List.mem_append, List.mem_flatMap]
      exact .inr (.inl ⟨value, member, inside⟩)
    · simp only [Object.traceRefs, List.mem_cons, List.mem_append, List.mem_map]
      exact .inr (.inr ⟨token, member, rfl⟩)
  · exact retains.store sound.interned sound.typed laterSound.interned
      (fun value member => kept_stack vm member) (fun entry member => kept_globals vm member)
      ⟨rfl, rfl, rfl⟩

/-- The instruction at an offset is the one that is executed next. -/
theorem Stands.fetches {flat : LoweredFlat} (stands : program.Stands offset store vm)
    (there : PartAt layout program.script.flats offset [flat]) :
    ∃ frame closure object fetched, vm.callFrames = [frame] ∧ frame.bytecodeIndex = offset ∧
      vm.Fetches frame closure object fetched ∧ fetched.instr = LoweredFlat.instr flat ∧
      fetched.size = flat.size layout ∧
      fetched.activation.Outermost vm.gcHeap program.script.constants (LoweredFlat.token flat) := by
  obtain ⟨root, code, frames, live, embodies⟩ := stands.running
  obtain ⟨earlier, later, split, rfl⟩ := there
  have fits := program.fits program.script (by simp [functions, script])
  cases embodies with
  | @intro _ _ object ptrs _ found isObject =>
      have decodes : decode (object.chunk.bytecode.drop (extent layout earlier)) =
          some (LoweredFlat.instr flat, flat.size layout) := by
        rw [isObject.bytecode, LoweredFunction.assemble, split]
        exact decode_bytecodeOf (fits flat (by simp [split])) earlier later
      have mapped : program.script.assemble.chunk.sourceMapTokens[extent layout earlier]? =
          some (LoweredFlat.token flat) := by
        rw [LoweredFunction.assemble, split]
        exact token_sourceMapOf earlier later flat
      obtain ⟨token, loaded, holds⟩ := matched_left isObject.tokens mapped
      exact ⟨_, _, object, ⟨LoweredFlat.instr flat, flat.size layout, ⟨root, 0, object.chunk, token⟩⟩,
        frames, rfl, ⟨⟨live, found⟩, decodes, loaded, rfl⟩, rfl, rfl,
        ⟨rfl, ⟨ptrs, isObject.constants⟩, holds, code, live⟩⟩

/-- A step after which the script is at another offset. -/
theorem Stands.moves {other : Store N} {place : Nat} (stands : program.Stands offset store vm)
    (steps : step platform vm = .ok () after) {frame : Frame} (frames : vm.callFrames = [frame])
    (moved : after.callFrames = [{ frame with bytecodeIndex := place }])
    (retains : ∀ ptr object, vm.gcHeap.valueAt ptr = some object → after.gcHeap.valueAt ptr = some object)
    (shown : after.store = other) :
    (interpreter platform).next vm = some after ∧ program.Stands place other after := by
  obtain ⟨root, code, laterFrames, live, embodies⟩ := stands.running
  rw [frames] at laterFrames
  cases laterFrames
  have extends_ : vm.gcHeap.Extends after.gcHeap :=
    fun ptr object found => ⟨object, retains ptr object found, .same object⟩
  refine ⟨?_, step_sound stands.sound steps, ⟨root, code, moved, retains _ _ live,
    embodies.extend extends_⟩, shown⟩
  simp [interpreter, frames, steps]

/-- An instruction does to the store what it does to the machine. -/
theorem Stands.performs {emission : Emission} (stands : program.Stands offset store vm)
    (there : PartAt layout program.script.flats offset [.plain emission]) :
    (interpreter platform).Performs (program.actions.plain emission store)
      (fun _ => program.Stands (offset + layout.size emission)) vm := by
  obtain ⟨frame, closure, object, fetched, frames, rfl, fetches, instr, size, outermost⟩ :=
    stands.fetches there
  have steps : step platform vm = _ := fetches.run frames
  have moved := stands.sound.advanced frames fetched.size
  have commutes : Commutes (vm.advanced frame [] fetched.size)
      (execute platform fetched.activation fetched.instr)
      (perform program.script.constants emission.token emission.instr) :=
    instr ▸ commutes_execute moved.typed moved.interned outermost emission.instr
  have shown : (vm.advanced frame [] fetched.size).store = store := stands.store
  rw [Commutes, shown] at commutes
  change (interpreter platform).Performs (perform program.script.constants emission.token
    emission.instr store) _ vm
  cases runs : perform program.script.constants emission.token emission.instr store with
  | ok result other =>
      rw [runs] at commutes
      obtain ⟨after, executes, shown, callFrames, retains⟩ := commutes
      exact ⟨after, stands.moves (steps.trans executes) frames (by rw [callFrames, size]; rfl) retains shown⟩
  | error stop other =>
      rw [runs] at commutes
      cases stop with
      | failed what =>
          obtain ⟨after, executes, same⟩ := commutes
          exact ⟨after, steps.trans executes, same⟩
      | outOfFuel => exact commutes
      | stuck => trivial

/-- A jump leaves all but the place. -/
theorem Stands.goes {flat : LoweredFlat} {place : Nat} {frame : Frame} {activation : Activation N}
    (stands : program.Stands offset store vm) (frames : vm.callFrames = [frame])
    (steps : step platform vm = execute platform activation (LoweredFlat.instr flat)
      (vm.advanced frame [] (flat.size layout)))
    (goes : execute platform activation (LoweredFlat.instr flat)
        (vm.advanced frame [] (flat.size layout)) =
      .ok () { vm with callFrames := [{ frame with bytecodeIndex := place }] }) :
    ∃ after, (interpreter platform).next vm = some after ∧ program.Stands place store after :=
  ⟨_, stands.moves (steps.trans goes) frames rfl (fun _ _ => id) stands.store⟩

/-- The machine runs the code of a program. -/
theorem implements (program : Program N) (platform : Platform N) :
    Implements layout program.actions (interpreter platform) program.script.flats program.Stands where
  stable := program.stable
  plain fuel offset emission store vm there stands :=
    .of_performs (program.stable _ _) stands (fun later here => here.performs there)
      fun _ _ => program.stable _ _
  jump offset tag distance store vm there stands := by
    obtain ⟨frame, closure, object, fetched, frames, rfl, fetches, instr, size, outermost⟩ :=
      stands.fetches there
    have steps : step platform vm = _ := fetches.run frames
    rw [instr, size] at steps
    exact stands.goes frames steps rfl
  jumpIfFalse offset tag distance store vm result there stands tested := by
    obtain ⟨frame, closure, object, fetched, frames, rfl, fetches, instr, size, outermost⟩ :=
      stands.fetches there
    have steps : step platform vm = _ := fetches.run frames
    rw [instr, size] at steps
    have shown : vm.store.stack.head?.map Datum.isTruthy = some result := stands.store ▸ tested
    cases stack : vm.stack with
    | nil => simp [VM.store, stack] at shown
    | cons value rest =>
        have truthy : value.isTruthy = result := by
          have same : (vm.gcHeap.datum value).isTruthy = result := by simpa [VM.store, stack] using shown
          rw [← same]
          cases value <;> rfl
        refine stands.goes frames steps ((bind_run _ (peek_ok.mpr ⟨rfl, by rw [VM.advanced, stack]; rfl⟩)).trans ?_)
        rw [truthy]
        cases result with
        | true => rfl
        | false =>
            have far : jumpForward distance (frame.bytecodeIndex + 3) =
                some (frame.bytecodeIndex + 3 + distance) := rfl
            exact run_moveTo (advanced_frames vm frame 3) far
  loop offset tag distance target store vm there stands goes := by
    obtain ⟨frame, closure, object, fetched, frames, rfl, fetches, instr, size, outermost⟩ :=
      stands.fetches there
    have steps : step platform vm = _ := fetches.run frames
    rw [instr, size] at steps
    have enough : distance ≤ frame.bytecodeIndex + 3 := goes ▸ Nat.le_add_left distance target
    have back : jumpBackward distance (frame.bytecodeIndex + 3) = some target := by
      rw [jumpBackward, if_pos enough]
      have same : target + distance = frame.bytecodeIndex + 3 := goes
      congr 1
      omega
    have moves := run_moveTo (advanced_frames vm frame 3) back
    exact stands.goes frames steps moves

end Program

end Cpplox
