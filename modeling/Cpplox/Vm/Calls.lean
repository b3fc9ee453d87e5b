import Cpplox.Vm.Activations
import Cpplox.Vm.Iterations

namespace Cpplox

open Structured Data

/-! Sessions on the stack of their activations. -/

variable {N : Type} [Number N] {platform : Platform N} {vm after : VM N} {frame : Frame}
  {callers inner : List Frame} {closure : Closure} {program : Program N} {base : Nat}

/-- Every closure is full, and the stack is that of the activations. -/
structure VM.Standing (vm : VM N) : Prop where
  full : vm.Full
  stacked : ∃ base, Stacked vm.gcHeap base vm.callFrames vm.stack.length

theorem step_standing {result : Unit} (standing : vm.Standing)
    (steps : step platform vm = .ok result after) : after.Standing := by
  obtain ⟨base, stacked⟩ := standing.stacked
  cases frames : vm.callFrames with
  | nil =>
      rcases step_ok steps with ⟨-, rfl⟩ | ⟨_, _, _, _, split, -⟩
      · exact standing
      · rw [frames] at split
        cases split
  | cons frame callers =>
      obtain ⟨full, inner, laterFrames, laterStacked⟩ := step_stacked standing.full
        (List.append_nil _).symm (by simp [frames]) stacked steps
      rw [List.append_nil] at laterFrames
      exact ⟨full, base, laterFrames ▸ laterStacked⟩

theorem VM.Loads.full (loads : vm.Loads after) (full : vm.Full) : after.Full := by
  refine full.grow loads.grows fun ptr made absent found => ?_
  rcases loads.old ptr _ found with old | kind | kind
  · rw [absent] at old
    cases old
  · cases kind
  · cases kind

/-- The activations are on the stack as before when the heap was collected. -/
theorem collect_stacked {result : Unit} (sound : vm.Sound) (full : vm.Full)
    (frames : vm.callFrames = inner ++ callers)
    (stacked : Stacked vm.gcHeap base inner vm.stack.length)
    (collects : collect platform vm = .ok result after) :
    after.Full ∧ after.callFrames = vm.callFrames ∧
      Stacked after.gcHeap base inner after.stack.length := by
  obtain ⟨gcHeap, internedStrings, rfl, kept⟩ := collect_ok sound.interned collects
  refine ⟨fun ptr closure found => ?_, rfl, stacked.mono ?_⟩
  · obtain ⟨program, function, holds⟩ := full ptr closure ((kept ptr _).mp found).1
    exact ⟨program, function, holds.of.collected sound.interned collects found, holds.upvalues⟩
  · intro frame member closure program function slots runs
    have found := (kept frame.closure _).mpr
      ⟨runs.live, kept_frame vm (frames ▸ List.mem_append_left _ member)⟩
    exact ⟨closure, found, ⟨runs.full.of.collected sound.interned collects found,
      runs.full.upvalues⟩, runs.arrives, runs.reaches⟩

/-- The closure of a root script, on the stack as it is. -/
theorem start_standing {root : Ptr} {result : Unit} (full : vm.Full) (idle : vm.callFrames = [])
    (embodies : Embodies vm.gcHeap program.functions (program.lower.script program.code) root)
    (starts : start platform root vm = .ok result after) :
    after.Full ∧ Stacked after.gcHeap vm.stack.length after.callFrames after.stack.length := by
  have isRoot : program.lower.script program.code ∈ program.functions := by simp [Program.functions]
  have holds (heap : GcHeap (Object N)) (extends_ : vm.gcHeap.Extends heap) :
      ({ function := root } : Closure).Full heap program (program.lower.script program.code) :=
    ⟨⟨isRoot, embodies.extend extends_⟩, rfl⟩
  have extends_ : vm.gcHeap.Extends (vm.made platform (.closure { function := root })).gcHeap :=
    extends_made _
  obtain rfl := start_ok.mp starts
  refine ⟨full.grow ⟨extends_, fun ptr upvalues => hasUpvalues_made _⟩
    fun ptr closure absent found => ?_, ?_⟩
  · obtain ⟨-, same⟩ := new_of_made absent found
    cases same
    exact ⟨program, _, holds _ extends_⟩
  · obtain ⟨entry, listing, verified⟩ := (program.certified _ isRoot).verified
    have none : ((program.lower.script program.code).surroundings program.functions).slots 0 entry = [] :=
      List.length_eq_zero_iff.mp verified.height
    have enters := verified.enters
    rw [none] at enters
    have live : (vm.made platform (.closure { function := root })).gcHeap.valueAt (vm.fresh platform) =
        some (.closure { function := root }) := by rw [valueAt_made, if_pos rfl]
    rw [idle]
    have leaves : (program.lower.script program.code).Leaves
        { closure := vm.fresh platform, stackBeginIndex := 0 } vm.stack.length vm.stack.length :=
      ⟨Nat.zero_le _, (if_pos rfl).mpr rfl⟩
    have begins : ({ closure := vm.fresh platform, stackBeginIndex := 0 } : Frame).Runs
        (vm.made platform (.closure { function := root })).gcHeap { function := root } program
        (program.lower.script program.code) [] :=
      ⟨live, holds _ extends_, ⟨entry, listing, verified, enters⟩, .refl⟩
    exact .cons .nil begins leaves (.inl rfl)

/-- The root script of a source that was compiled starts on the stack as it is. -/
theorem run_standing {loaded : VM N} {fuel : Nat} {source : Text} {made : List Ptr} {root : Ptr}
    {functions : List (Function (Constant N) Text)} {result : Unit} (sound : vm.Sound) (full : vm.Full)
    (idle : vm.callFrames = []) (accepted : compile fuel source = .ok functions)
    (loads : loadAll platform [] functions vm = .ok (made ++ [root]) loaded)
    (starts : start platform root loaded = .ok result after) :
    after.Full ∧ Stacked after.gcHeap vm.stack.length after.callFrames after.stack.length := by
  obtain ⟨program, -, rfl⟩ := Program.of_compile accepted
  have laterLoads := (loadAll_ok sound.interned sound.typed (by simp) loads).1
  have embodies := loadAll_embodies (List.nil_append _).symm sound.interned sound.typed .nil loads
  have length : program.lower.functions.length = made.length := by
    simpa [Program.functions] using List.Forall₂.length_eq embodies
  obtain ⟨lowered, at_, here⟩ := matched_right embodies List.getElem?_concat_length
  obtain rfl : program.lower.script program.code = lowered := by
    rw [← length, Program.functions, List.getElem?_concat_length] at at_
    exact Option.some.inj at_
  have started := start_standing (laterLoads.full full) (laterLoads.callFrames.trans idle) here starts
  rwa [laterLoads.stack] at started

theorem Fails.full {vm after : VM N} {lost : Nat} (fails : Fails platform vm lost after)
    (sound : vm.Sound) (full : vm.Full) : after.Full := by
  obtain ⟨count, -, middle, rfl⟩ := fails
  rcases middle with rfl | ⟨ptr, interns⟩
  · exact full
  · exact (intern_loads sound.interned sound.typed interns).full full

theorem between_standing (sound : vm.Sound) (standing : vm.Standing)
    (between : Between platform vm after) : after.Standing := by
  have idle {vm : VM N} (full : vm.Full) (frames : vm.callFrames = []) : vm.Standing :=
    ⟨full, vm.stack.length, frames ▸ .nil⟩
  cases between with
  | scan frames interns =>
      have loads := intern_loads sound.interned sound.typed interns
      exact idle (loads.full standing.full) (loads.callFrames.trans frames)
  | refuse frames loads =>
      have loads := (loadAll_ok sound.interned sound.typed (by simp) loads).1
      exact idle (loads.full standing.full) (loads.callFrames.trans frames)
  | run frames accepted loads starts =>
      obtain ⟨full, stacked⟩ := run_standing sound standing.full frames accepted loads starts
      exact ⟨full, _, stacked⟩
  | collect _ collects =>
      obtain ⟨base, stacked⟩ := standing.stacked
      obtain ⟨full, frames, stacked⟩ :=
        collect_stacked sound standing.full (List.append_nil _).symm stacked collects
      exact ⟨full, base, frames ▸ stacked⟩
  | throw failed =>
      obtain ⟨frame, callers, _, _, fetched, frames, -, fails⟩ := step_error failed
      have moved : (vm.advanced frame callers fetched.size).Full := standing.full
      exact idle (fails.full (sound.advanced frames fetched.size) moved) rfl

omit [Number N] in
theorem construct_closures (constructs : construct platform ({} : VM N) = .ok () after) :
    ∀ ptr closure, after.gcHeap.valueAt ptr ≠ some (.closure closure) := by
  intro ptr closure found
  obtain ⟨name, named, interns, rfl⟩ := construct_ok constructs
  have origin : named.gcHeap.valueAt ptr = some (.closure closure) ∨
      Object.closure closure = (.nativeFn : Object N) := made_old found
  rcases origin with old | same
  · have string := new_of_intern (by simp) interns old
    cases string
  · cases same

theorem construct_standing (constructs : construct platform ({} : VM N) = .ok () after) :
    after.Standing := by
  refine ⟨fun ptr closure found => absurd found (construct_closures constructs ptr closure), ?_⟩
  obtain ⟨name, named, interns, rfl⟩ := construct_ok constructs
  have frames : named.callFrames = [] := intern_callFrames interns
  refine ⟨named.stack.length, ?_⟩
  change Stacked _ _ named.callFrames _
  rw [frames]
  exact .nil

/-- In every state of a session the stack is that of the activations. -/
theorem Attains.standing {H : Type} {observe : VM N → H → H} {nothing observed : H}
    (reaches : Attains platform observe nothing vm observed) : vm.Standing := by
  induction reaches with
  | construct constructs => exact construct_standing constructs
  | step _ steps ih => exact step_standing ih steps
  | between reached between ih => exact between_standing reached.sound ih between

/-- In every state of a session every pointer refers to a live object of its kind, and every
closure is of a function of an accepted source, with the upvalues the function captures. -/
theorem session_live {H : Type} {observe : VM N → H → H} {nothing observed : H}
    (reaches : Attains platform observe nothing vm observed) : vm.Typed ∧ vm.Full :=
  ⟨reaches.sound.typed, reaches.standing.full⟩

/-- The state after a function was called. -/
theorem session_live_call :
    let vm : VM Int := demonstrate Platform.above 40 "fun f(a) { return a; } print f(1);".toList 5
    vm.callFrames.length = 2 ∧ vm.Typed ∧ vm.Full := by
  intro vm
  obtain ⟨observed, reaches⟩ := attains_demonstrate (fun (_ : VM Int) => Nat.succ) 0
    (show (compile 40 "fun f(a) { return a; } print f(1);".toList :
      Except Error (List (Function (Constant Int) Text))).isOk = true by decide +kernel)
    (show thrown (do
      construct Platform.above
      runFor Platform.above (functionsOf 40 "fun f(a) { return a; } print f(1);".toList) 5)
        ({} : VM Int) = none by decide +kernel)
  exact ⟨by decide +kernel, session_live reaches⟩

/-- Instructions and collections, as long as there are activations above some callers. -/
inductive Above (platform : Platform N) (callers : List Frame) (vm : VM N) : VM N → Prop
  | refl : Above platform callers vm vm
  | step {middle after : VM N} {inner : List Frame} : Above platform callers vm middle →
      middle.callFrames = inner ++ callers → inner ≠ [] → step platform middle = .ok () after →
      Above platform callers vm after
  | collect {middle after : VM N} : Above platform callers vm middle → middle.callFrames ≠ [] →
      collect platform middle = .ok () after → Above platform callers vm after

theorem Above.stacked (above : Above platform callers vm after) (sound : vm.Sound) (full : vm.Full)
    (frames : vm.callFrames = inner ++ callers)
    (stacked : Stacked vm.gcHeap base inner vm.stack.length) :
    after.Sound ∧ after.Full ∧ ∃ inner, after.callFrames = inner ++ callers ∧
      Stacked after.gcHeap base inner after.stack.length := by
  induction above with
  | refl => exact ⟨sound, full, inner, frames, stacked⟩
  | step _ laterFrames running steps ih =>
      obtain ⟨sound, full, laterInner, same, stacked⟩ := ih
      obtain rfl : laterInner = _ := List.append_cancel_right (same.symm.trans laterFrames)
      obtain ⟨full, more⟩ := step_stacked full laterFrames running stacked steps
      exact ⟨step_sound sound steps, full, more⟩
  | collect _ running collects ih =>
      obtain ⟨sound, full, laterInner, same, stacked⟩ := ih
      obtain ⟨full, laterFrames, stacked⟩ := collect_stacked sound full same stacked collects
      exact ⟨between_sound sound (.collect running collects), full, laterInner, laterFrames.trans same, stacked⟩

/-- A script starts on the stack as it is. -/
theorem between_started {started : VM N} (sound : vm.Sound) (full : vm.Full) (idle : vm.callFrames = [])
    (runs : Between platform vm started) (running : started.callFrames ≠ []) :
    started.Full ∧
      Stacked started.gcHeap vm.stack.length started.callFrames started.stack.length := by
  cases runs with
  | scan _ interns => exact absurd ((intern_callFrames interns).trans idle) running
  | refuse _ loads =>
      have loads := (loadAll_ok sound.interned sound.typed (by simp) loads).1
      exact absurd (loads.callFrames.trans idle) running
  | run _ accepted loads starts => exact run_standing sound full idle accepted loads starts
  | collect busy => exact absurd idle busy
  | throw => exact absurd rfl running

/-- The activations of a program are on the stack as it was. -/
theorem Above.run_stacked {H : Type} {observe : VM N → H → H} {nothing observed : H} {started : VM N}
    (reaches : Attains platform observe nothing vm observed) (idle : vm.callFrames = [])
    (runs : Between platform vm started) (running : started.callFrames ≠ [])
    (above : Above platform [] started after) :
    Stacked after.gcHeap vm.stack.length after.callFrames after.stack.length := by
  have sound := between_sound reaches.sound runs
  obtain ⟨full, stacked⟩ := between_started reaches.sound reaches.standing.full idle runs running
  obtain ⟨-, -, inner, frames, stacked⟩ := above.stacked sound full (List.append_nil _).symm stacked
  rwa [frames, List.append_nil]

/-- A program that gets to its end leaves the stack as high as it found it. -/
theorem program_leaves {H : Type} {observe : VM N → H → H} {nothing observed : H} {started : VM N}
    (reaches : Attains platform observe nothing vm observed) (idle : vm.callFrames = [])
    (runs : Between platform vm started) (running : started.callFrames ≠ [])
    (above : Above platform [] started after) (ends : after.callFrames = []) :
    after.stack.length = vm.stack.length := by
  have stacked := above.run_stacked reaches idle runs running
  rw [ends] at stacked
  generalize after.stack.length = height at stacked
  cases stacked
  rfl

/-- Iterations go on until a program has ended. -/
theorem Above.iterate {started : VM N} {count : Nat} (above : Above platform [] started vm)
    (runs : iterate platform count vm = .ok () after) : Above platform [] started after := by
  induction count generalizing vm with
  | zero =>
      obtain ⟨-, rfl⟩ := VmM.pure_ok.mp runs
      exact above
  | succ count ih =>
      obtain ⟨done, middle, steps, runs⟩ := VmM.bind_ok.mp runs
      refine ih ?_ runs
      by_cases idle : vm.callFrames = []
      · rcases step_ok steps with ⟨-, rfl⟩ | ⟨_, _, _, _, frames, -⟩
        · exact above
        · rw [idle] at frames
          cases frames
      · exact above.step (List.append_nil _).symm idle steps

/-- The first iterations of a source. -/
theorem runFor_above {fuel count : Nat} {source : Text} {functions : List (Function (Constant N) Text)}
    (idle : vm.callFrames = []) (accepted : compile fuel source = .ok functions)
    (runs : runFor platform functions count vm = .ok () after) :
    ∃ started, Between platform vm started ∧ started.callFrames ≠ [] ∧ Above platform [] started after := by
  obtain ⟨all, loaded, loads, runs⟩ := VmM.bind_ok.mp runs
  cases last : all.getLast? with
  | none =>
      rw [last] at runs
      exact (VmM.throw_ok.mp runs).elim
  | some root =>
      rw [last] at runs
      obtain ⟨made, rfl⟩ := List.getLast?_eq_some_iff.mp last
      obtain ⟨done, started, starts, runs⟩ := VmM.bind_ok.mp runs
      have running : started.callFrames ≠ [] := by
        obtain rfl := start_ok.mp starts
        exact List.cons_ne_nil _ _
      exact ⟨started, .run idle accepted loads starts, running, Above.refl.iterate runs⟩

/-- After a program that ended with an error, whose operands are still on the stack: calls of a
function and of the closure it returns. -/
theorem program_leaves_closure :
    let failing : VM Int := demonstrate Platform.above 40 "print 1 - nil;".toList 2
    let ready : VM Int := { final (step Platform.above) failing with callFrames := [] }
    let functions := functionsOf 60
      "fun f() { var a = 1; fun g() { return a; } return g; } print f()();".toList
    let after := final (runFor Platform.above functions 20) ready
    after.output = ["1".toList] ∧ ready.stack.length = 2 ∧ after.stack.length = ready.stack.length := by
  intro failing ready functions after
  obtain ⟨observed, reaches⟩ := attains_demonstrate (fun (_ : VM Int) => Nat.succ) 0
    (show (compile 40 "print 1 - nil;".toList : Except Error (List (Function (Constant Int) Text))).isOk =
      true by decide +kernel)
    (show thrown (do
      construct Platform.above
      runFor Platform.above (functionsOf 40 "print 1 - nil;".toList) 2) ({} : VM Int) = none by
        decide +kernel)
  have fails : step Platform.above failing =
      .error (.runtimeError "[Line 1] Error at \"-\": Operands must be numbers.".toList)
        (final (step Platform.above) failing) := error_of_thrown (by decide +kernel)
  have reached := reaches.between (.throw fails)
  have accepted := compile_functionsOf
    (show (compile 60 "fun f() { var a = 1; fun g() { return a; } return g; } print f()();".toList :
      Except Error (List (Function (Constant Int) Text))).isOk = true by decide +kernel)
  have runs : runFor Platform.above functions 20 ready = .ok () after :=
    run_of_thrown (by decide +kernel)
  obtain ⟨started, starts, running, above⟩ := runFor_above rfl accepted runs
  exact ⟨by decide +kernel, by decide +kernel, program_leaves reached rfl starts running above
    (by decide +kernel)⟩

omit [Number N] in
/-- An activation is at the end of its bytecode only if nothing is fetched. -/
theorem VM.Fetches.not_end {live : Closure} {object : HeapFunction N} {fetched : Fetched N}
    {ended : HeapFunction N} (fetches : vm.Fetches frame live object fetched)
    (runs : vm.Runs frame closure ended) : frame.bytecodeIndex ≠ ended.chunk.bytecode.length := by
  intro atEnd
  obtain rfl := Object.closure.inj (Option.some.inj (fetches.runs.live.symm.trans runs.live))
  obtain rfl := Object.function.inj (Option.some.inj (fetches.runs.code.symm.trans runs.code))
  have decodes := fetches.decodes
  rw [atEnd, List.drop_length] at decodes
  cases decodes

/-- What a step does when it is known what it fetches. -/
theorem step_effect {fetched : Fetched N} {result : Unit} (frames : vm.callFrames = frame :: callers)
    (fetches : vm.fetch? = some fetched) (steps : step platform vm = .ok result after) :
    ∃ closure object, vm.Fetches frame closure object fetched ∧
      Effect platform fetched.activation (vm.advanced frame callers fetched.size) fetched.instr after := by
  rw [VM.fetch?_cons frames] at fetches
  obtain ⟨closure, object, here⟩ := VM.fetchFrom_some.mp fetches
  rcases step_ok steps with ⟨none, -⟩ | ⟨top, others, live, code, split, runs, outcome⟩
  · rw [frames] at none
    cases none
  · obtain ⟨rfl, rfl⟩ := List.cons.inj (frames.symm.trans split)
    rcases outcome with ⟨atEnd, -⟩ | ⟨other, there, effect⟩
    · exact absurd atEnd (here.not_end runs)
    · have same := VM.fetchFrom_some.mpr ⟨_, _, there⟩
      rw [fetches] at same
      cases same
      exact ⟨live, code, there, effect⟩

/-- A call that has completed has put one value in the place of the callee and the arguments. -/
theorem call_completed {H : Type} {observe : VM N → H → H} {nothing observed : H} {called : VM N}
    {fetched : Fetched N} {argCount : Nat}
    (reaches : Attains platform observe nothing vm observed)
    (frames : vm.callFrames = frame :: callers) (fetches : vm.fetch? = some fetched)
    (calls : fetched.instr = .operand .call argCount)
    (steps : step platform vm = .ok () called)
    (above : Above platform
      ({ frame with bytecodeIndex := frame.bytecodeIndex + fetched.size } :: callers) called after)
    (returns : after.callFrames =
      { frame with bytecodeIndex := frame.bytecodeIndex + fetched.size } :: callers) :
    after.stack.length + argCount = vm.stack.length := by
  have sound := step_sound reaches.sound steps
  have full := (step_standing reaches.standing steps).full
  obtain ⟨closure, object, -, effect⟩ := step_effect frames fetches steps
  have bounded (inner : List Frame) (base : Nat) (split : called.callFrames = inner ++
      { frame with bytecodeIndex := frame.bytecodeIndex + fetched.size } :: callers)
      (stacked : Stacked called.gcHeap base inner called.stack.length) :
      after.stack.length = base := by
    obtain ⟨-, -, last, laterFrames, stacked⟩ := above.stacked sound full split stacked
    obtain rfl : last = [] := List.append_left_eq_self.mp (laterFrames.symm.trans returns)
    generalize after.stack.length = height at stacked
    cases stacked
    rfl
  have resizes := effect.resizes
  rw [calls] at resizes
  have stack : (vm.advanced frame callers fetched.size).stack.length = vm.stack.length := rfl
  cases resizes with
  | falls _ pops laterFrames height =>
      have same := bounded [] called.stack.length laterFrames .nil
      rw [same, height]
      simp only [Instr.pops, Instr.pushes] at pops ⊢
      omega
  | calls bound laterFrames height has =>
      obtain ⟨_, _, _, slots, floor, begins, leaves, tall⟩ := full.called has (height ▸ bound)
      rw [height] at begins leaves
      have begun := Stacked.cons .nil begins leaves (.inl rfl)
      rw [tall] at begun
      have same := bounded [_] _ laterFrames begun
      omega

/-- A call that completes leaves the stack with one value in the place of the callee and the
arguments. -/
theorem call_leaves {H : Type} {observe : VM N → H → H} {nothing observed : H} {called : VM N}
    {fetched : Fetched N} {argCount : Nat}
    (reaches : Attains platform observe nothing vm observed)
    (frames : vm.callFrames = frame :: callers) (fetches : vm.fetch? = some fetched)
    (calls : fetched.instr = .operand .call argCount)
    (steps : step platform vm = .ok () called)
    (above : Above platform
      ({ frame with bytecodeIndex := frame.bytecodeIndex + fetched.size } :: callers) called after)
    (returns : after.callFrames =
      { frame with bytecodeIndex := frame.bytecodeIndex + fetched.size } :: callers) :
    after.stack.length + argCount = vm.stack.length :=
  call_completed reaches frames fetches calls steps above returns

/-- A function returns its argument. -/
theorem call_leaves_argument :
    let vm : VM Int := demonstrate Platform.above 40 "fun f(a) { return a; } print f(1);".toList 4
    let called := final (step Platform.above) vm
    let after := final (step Platform.above) (final (step Platform.above) called)
    after.stack.length + 1 = vm.stack.length := by
  intro vm called after
  obtain ⟨observed, reaches⟩ := attains_demonstrate (fun (_ : VM Int) => Nat.succ) 0
    (show (compile 40 "fun f(a) { return a; } print f(1);".toList :
      Except Error (List (Function (Constant Int) Text))).isOk = true by decide +kernel)
    (show thrown (do
      construct Platform.above
      runFor Platform.above (functionsOf 40 "fun f(a) { return a; } print f(1);".toList) 4)
        ({} : VM Int) = none by decide +kernel)
  obtain ⟨fetched, fetches, same⟩ := Option.map_eq_some_iff.mp
    (show vm.fetch?.map (fun fetched => (fetched.instr, fetched.size)) = some (.operand .call 1, 2) by
      decide +kernel)
  obtain ⟨instr, size⟩ := Prod.mk.inj same
  have calls : step Platform.above vm = .ok () called := run_of_thrown (by decide +kernel)
  have reads : step Platform.above called = .ok () (final (step Platform.above) called) :=
    run_of_thrown (by decide +kernel)
  have returns : step Platform.above (final (step Platform.above) called) = .ok () after :=
    run_of_thrown (by decide +kernel)
  have above : Above Platform.above [{ closure := 2048, bytecodeIndex := 9 + 2, stackBeginIndex := 0 }]
      called after :=
    .step (.step .refl
      (show _ = [{ closure := 4096, bytecodeIndex := 0, stackBeginIndex := 0 }] ++ _ by decide +kernel)
      (List.cons_ne_nil _ _) reads)
      (show _ = [{ closure := 4096, bytecodeIndex := 2, stackBeginIndex := 0 }] ++ _ by decide +kernel)
      (List.cons_ne_nil _ _) returns
  have frames : vm.callFrames = [{ closure := 2048, bytecodeIndex := 9, stackBeginIndex := 0 }] := by
    decide +kernel
  exact call_leaves reaches frames fetches instr calls (size ▸ above) (size ▸ by decide +kernel)

end Cpplox
