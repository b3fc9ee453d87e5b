import Cpplox.Bytecode.Discipline
import Cpplox.Vm.Sound

namespace Cpplox

open Structured Data

/-! The stack of a running machine, activation by activation. -/

variable {N : Type}

section

variable {platform : Platform N} {activation : Activation N} {vm after : VM N} {instr : Instr}

/-- What an instruction does to the frames and to the height of the stack. -/
inductive VM.Resizes (activation : Activation N) (vm : VM N) : Instr → VM N → Prop
  | falls {instr : Instr} {after : VM N} : instr.fallsThrough = true →
      instr.pops ≤ vm.stack.length → after.callFrames = vm.callFrames →
      after.stack.length = vm.stack.length - instr.pops + instr.pushes →
      Resizes activation vm instr after
  | calls {argCount : Nat} {closure : Ptr} {after : VM N} : argCount < vm.stack.length →
      after.callFrames =
        { closure, stackBeginIndex := vm.stack.length - argCount - 1 } :: vm.callFrames →
      after.stack.length = vm.stack.length → after.HasArity closure argCount →
      Resizes activation vm (.operand .call argCount) after
  | returns {after : VM N} : after.callFrames = vm.callFrames.tail →
      after.stack.length = activation.stackBeginIndex + 1 →
      Resizes activation vm (.simple .return_) after
  | jumps {opcode : Opcode} {distance target : Nat} {frame : Frame} {callers : List Frame} :
      vm.callFrames = frame :: callers →
      (if opcode = .loop then distance ≤ frame.bytecodeIndex ∧
        target = frame.bytecodeIndex - distance else target = frame.bytecodeIndex + distance) →
      Resizes activation vm (.jump opcode distance)
        { vm with callFrames := { frame with bytecodeIndex := target } :: callers }

theorem VM.HasArity.extend {ptr : Ptr} {arity : Nat} (has : vm.HasArity ptr arity)
    (extends_ : vm.gcHeap.Extends after.gcHeap) : after.HasArity ptr arity := by
  obtain ⟨closure, function, live, code, same⟩ := has
  obtain ⟨other, found, laterFunction⟩ := extends_.closure live
  exact ⟨other, function, found, laterFunction ▸ extends_.function code, same⟩

theorem Computes.height [Number N] {opcode : Opcode} {taken : List (Value N)} {value : Value N}
    (computes : Computes opcode taken value) :
    (Instr.simple opcode).pops = taken.length ∧ (Instr.simple opcode).pushes = 1 ∧
      (Instr.simple opcode).fallsThrough = true := by
  cases computes <;> exact ⟨rfl, rfl, rfl⟩

theorem intern_callFrames {chars : Text} {ptr : Ptr}
    (interns : intern platform chars vm = .ok ptr after) : after.callFrames = vm.callFrames := by
  rcases intern_ok.mp interns with ⟨-, rfl⟩ | ⟨-, -, rfl⟩ <;> rfl

theorem Effect.resizes [Number N] (effect : Effect platform activation vm instr after) :
    vm.Resizes activation instr after := by
  cases effect with
  | computes stack computes =>
      obtain ⟨pops, pushes, falls⟩ := computes.height
      refine .falls falls ?_ rfl ?_ <;> simp [stack, pops, pushes]
  | concatenates stack _ _ interns =>
      have frames := intern_callFrames interns
      exact .falls rfl (by simp [stack, Instr.pops]) frames (by simp [stack, Instr.pops, Instr.pushes])
  | constant | getLocal | getUpvalue | getGlobal | class_ =>
      exact .falls rfl (Nat.zero_le _) rfl rfl
  | pop stack | print stack | defineGlobal stack | getField stack | bind stack
  | setProperty stack | getSuper stack | method stack | keepUpvalue stack | closeUpvalue stack =>
      exact .falls rfl (by simp [stack, Instr.pops]) rfl (by simp [stack, Instr.pops, Instr.pushes])
  | setLocal stack | setOpen stack =>
      exact .falls rfl (by simp [stack, Instr.pops]) rfl
        (by simp [stack, Instr.pops, Instr.pushes])
  | setClosed stack | setGlobal stack =>
      exact .falls rfl (by simp [stack, Instr.pops]) rfl
        (by simp [VM.updated, stack, Instr.pops, Instr.pushes])
  | inherit => exact .falls rfl (Nat.zero_le _) rfl rfl
  | callClosure callee arity =>
      exact .calls (List.getElem?_eq_some_iff.mp callee).1 rfl rfl arity
  | callInitializer callee interns _ _ arity =>
      refine .calls (List.getElem?_eq_some_iff.mp callee).1 ?_ ?_ (arity.extend (extends_made _))
      · simp [VM.called, VM.made, intern_callFrames interns]
      · simp [VM.called]
  | callClass stack interns =>
      have frames := intern_callFrames interns
      exact .falls rfl (by simp [stack, Instr.pops]) frames (by simp [stack, Instr.pops, Instr.pushes])
  | callBoundMethod callee _ arity =>
      refine .calls (List.getElem?_eq_some_iff.mp callee).1 ?_ ?_ arity
      · simp [VM.called]
      · simp [VM.called]
  | callNative callee =>
      have bound := (List.getElem?_eq_some_iff.mp callee).1
      exact .falls rfl bound rfl (by simp [Instr.pops, Instr.pushes])
  | closure _ captured =>
      have same := captured.onlyHeap
      refine .falls rfl (Nat.zero_le _) ?_ ?_
      · rw [same]; rfl
      · rw [same]; rfl
  | return_ stack _ _ base =>
      refine .returns rfl ?_
      simp only [List.length_cons, List.length_drop]
      omega
  | stays => exact .falls rfl (Nat.zero_le _) rfl rfl
  | jumps frames goes => exact .jumps frames goes

end

section

variable [Number N] {heap later : GcHeap (Object N)} {platform : Platform N} {vm after : VM N}
  {frame : Frame} {callers inner : List Frame} {closure : Closure} {program : Program N}
  {function : LoweredFunction N} {slots : List Slot} {floor below base height : Nat}

/-- The closure has the upvalues that its function was closed over. -/
structure Closure.Full (closure : Closure) (heap : GcHeap (Object N)) (program : Program N)
    (function : LoweredFunction N) : Prop where
  of : closure.Of heap program function
  upvalues : closure.upvalues.length = function.captures.length

def VM.Full (vm : VM N) : Prop :=
  ∀ ptr closure, vm.gcHeap.valueAt ptr = some (.closure closure) →
    ∃ program function, closure.Full vm.gcHeap program function

/-- The activation runs a function of a program, and is where the slots are these: a path
through the bytecode arrives there with as many. -/
structure Frame.Runs (frame : Frame) (heap : GcHeap (Object N)) (closure : Closure)
    (program : Program N) (function : LoweredFunction N) (slots : List Slot) : Prop where
  live : heap.valueAt frame.closure = some (.closure closure)
  full : closure.Full heap program function
  arrives : ∃ entry listing, function.Verified program.functions entry listing ∧
    Arrives layout (function.surroundings program.functions).typing function.exit listing
      frame.bytecodeIndex (.live slots)
  reaches : Reaches function.assemble.chunk.bytecode function.entryHeight frame.bytecodeIndex
    slots.length

/-- Where the slots of an activation begin, and how high the stack is when it has ended: a
function leaves its result in the slot of its callee, a script leaves nothing. -/
def LoweredFunction.Leaves (function : LoweredFunction N) (frame : Frame) (floor below : Nat) : Prop :=
  frame.stackBeginIndex ≤ floor ∧
    if function.kind = .script then below = floor
    else floor = frame.stackBeginIndex ∧ below = floor + 1

/-- The activations, innermost first, on a stack of a height.  A caller is where its call
has returned, with the result on the stack. -/
inductive Stacked (heap : GcHeap (Object N)) (base : Nat) : List Frame → Nat → Prop
  | nil : Stacked heap base [] base
  | cons {frame : Frame} {callers : List Frame} {closure : Closure} {program : Program N}
      {function : LoweredFunction N} {slots : List Slot} {floor below : Nat} :
      Stacked heap base callers below → frame.Runs heap closure program function slots →
      function.Leaves frame floor below → callers = [] ∨ base < below →
      Stacked heap base (frame :: callers) (floor + slots.length)

/-- Closures keep their functions and their upvalues. -/
structure GcHeap.Grows (heap later : GcHeap (Object N)) : Prop where
  extends_ : heap.Extends later
  upvalues : ∀ ptr upvalues, heap.HasUpvalues ptr upvalues → later.HasUpvalues ptr upvalues

omit [Number N] in
theorem GcHeap.Grows.refl (heap : GcHeap (Object N)) : heap.Grows heap :=
  ⟨.refl heap, fun _ _ => id⟩

omit [Number N] in
theorem GcHeap.Grows.stays {ptr : Ptr} (grows : heap.Grows later)
    (live : heap.valueAt ptr = some (.closure closure)) :
    ∃ other, later.valueAt ptr = some (.closure other) ∧ other.function = closure.function ∧
      other.upvalues = closure.upvalues := by
  obtain ⟨other, found, function⟩ := grows.extends_.closure live
  obtain ⟨same, laterFound, upvalues⟩ := grows.upvalues ptr _ ⟨closure, live, rfl⟩
  obtain rfl := Object.closure.inj (Option.some.inj (found.symm.trans laterFound))
  exact ⟨other, found, function, upvalues⟩

omit [Number N] in
theorem VM.Loads.grows (loads : vm.Loads after) : vm.gcHeap.Grows after.gcHeap := by
  refine ⟨loads.extends_, fun ptr upvalues there => ?_⟩
  obtain ⟨closure, live, holds⟩ := there
  obtain ⟨other, found, -⟩ := loads.extends_.closure live
  rcases loads.old ptr _ found with old | kind | kind
  · obtain rfl := Object.closure.inj (Option.some.inj (live.symm.trans old))
    exact ⟨closure, found, holds⟩
  · cases kind
  · cases kind

theorem Effect.grows {activation : Activation N} {instr : Instr}
    (effect : Effect platform activation vm instr after)
    (live : vm.gcHeap.valueAt activation.closure = some (.closure closure)) :
    vm.gcHeap.Grows after.gcHeap :=
  ⟨effect.extends, fun _ _ => effect.hasUpvalues live⟩

theorem Closure.Full.grow {other : Closure} (full : closure.Full heap program function)
    (grows : heap.Grows later) (same : other.function = closure.function)
    (upvalues : other.upvalues = closure.upvalues) : other.Full later program function := by
  refine ⟨⟨full.of.member, ?_⟩, upvalues ▸ full.upvalues⟩
  rw [same]
  exact full.of.embodies.extend grows.extends_

theorem Frame.Runs.grow (runs : frame.Runs heap closure program function slots)
    (grows : heap.Grows later) : ∃ other, frame.Runs later other program function slots := by
  obtain ⟨other, found, same, upvalues⟩ := grows.stays runs.live
  exact ⟨other, found, runs.full.grow grows same upvalues, runs.arrives, runs.reaches⟩

theorem Stacked.mono {frames : List Frame} (stacked : Stacked heap base frames height)
    (survives : ∀ frame ∈ frames, ∀ closure program function slots,
      frame.Runs heap closure program function slots →
        ∃ other, frame.Runs later other program function slots) :
    Stacked later base frames height := by
  induction stacked with
  | nil => exact .nil
  | cons _ runs leaves result ih =>
      obtain ⟨other, laterRuns⟩ := survives _ List.mem_cons_self _ _ _ _ runs
      exact .cons (ih fun frame member => survives frame (List.mem_cons_of_mem _ member)) laterRuns leaves
        result

theorem Stacked.grow {frames : List Frame} (stacked : Stacked heap base frames height)
    (grows : heap.Grows later) : Stacked later base frames height :=
  stacked.mono fun _ _ _ _ _ _ runs => runs.grow grows

omit [Number N] in
theorem Embodies.object {functions : List (LoweredFunction N)} {ptr : Ptr} {object : HeapFunction N}
    (embodies : Embodies heap functions function ptr)
    (code : heap.valueAt ptr = some (.function object)) :
    ∃ ptrs, ObjectOf heap ptrs function.assemble object := by
  cases embodies with
  | intro found holds =>
      obtain rfl := Object.function.inj (Option.some.inj (code.symm.trans found))
      exact ⟨_, holds⟩

/-- What is fetched is written in the listing of the function. -/
theorem Frame.Runs.fetched {live : Closure} {object : HeapFunction N} {fetched : Fetched N}
    (runs : frame.Runs vm.gcHeap closure program function slots)
    (fetches : vm.Fetches frame live object fetched) :
    ∃ entry listing written flat, function.Verified program.functions entry listing ∧
      EntryAt layout listing frame.bytecodeIndex (.live written, flat) ∧
      Context.Le (.live slots) (.live written) ∧ LoweredFlat.instr flat = fetched.instr ∧
      flat.size layout = fetched.size := by
  obtain ⟨entry, listing, verified, arrives⟩ := runs.arrives
  obtain rfl := Object.closure.inj (Option.some.inj (runs.live.symm.trans fetches.runs.live))
  obtain ⟨_, holds⟩ := runs.full.of.embodies.object fetches.runs.code
  have decodes := fetches.decodes
  rw [holds.bytecode] at decodes
  have fits := program.fits function runs.full.of.member
  obtain ⟨written, flat, there, le, instr, size⟩ := verified.arrives_decode fits arrives decodes
  exact ⟨entry, listing, written, flat, verified, there, le, instr, size⟩

/-- A closure an instruction has made has an upvalue for each of its captures. -/
theorem Effect.newClosure {activation : Activation N} {instr : Instr} {running : Closure} {ptr : Ptr}
    (effect : Effect platform activation vm instr after)
    (live : vm.gcHeap.valueAt activation.closure = some (.closure running))
    (absent : vm.gcHeap.valueAt ptr = none) (found : after.gcHeap.valueAt ptr = some (.closure closure)) :
    ∃ constant captures, instr = .closure constant captures ∧
      activation.chunk.constants[constant]? = some (.function closure.function) ∧
      closure.upvalues.length = captures.length := by
  obtain ⟨constant, captures, rfl, known⟩ := effect.new absent found
  refine ⟨constant, captures, rfl, known, ?_⟩
  cases effect with
  | @closure _ _ made _ _ captured =>
      cases here : (vm.made platform (.closure { function := made })).gcHeap.valueAt ptr with
      | none => cases captured.new here found
      | some old =>
          obtain ⟨rfl, rfl⟩ := new_of_made absent here
          have running : activation.closure ≠ vm.fresh platform := by
            intro same
            rw [same, absent] at live
            cases live
          have empty : (vm.made platform (.closure { function := made })).gcHeap.HasUpvalues
              (vm.fresh platform) [] := ⟨_, here, rfl⟩
          obtain ⟨more, length, other, laterFound, holds⟩ := captured.adds running empty
          obtain rfl := Object.closure.inj (Option.some.inj (found.symm.trans laterFound))
          rw [holds, List.nil_append, length]

/-- The closures of a later heap are the old ones, or full. -/
theorem VM.Full.grow (full : vm.Full) (grows : vm.gcHeap.Grows after.gcHeap)
    (new : ∀ ptr closure, vm.gcHeap.valueAt ptr = none →
      after.gcHeap.valueAt ptr = some (.closure closure) →
      ∃ program function, closure.Full after.gcHeap program function) : after.Full := by
  intro ptr closure found
  cases here : vm.gcHeap.valueAt ptr with
  | none => exact new ptr closure here found
  | some old =>
      obtain ⟨other, laterFound, becomes⟩ := grows.extends_ ptr old here
      obtain rfl := Option.some.inj (found.symm.trans laterFound)
      obtain ⟨old, rfl⟩ : ∃ closure, old = .closure closure := by
        cases becomes <;> exact ⟨_, rfl⟩
      obtain ⟨program, function, holds⟩ := full ptr old here
      obtain ⟨other, found'', same, upvalues⟩ := grows.stays here
      obtain rfl := Object.closure.inj (Option.some.inj (found.symm.trans found''))
      exact ⟨program, function, holds.grow grows same upvalues⟩

theorem Effect.full {live : Closure} {object : HeapFunction N} {fetched : Fetched N} {size : Nat}
    (full : vm.Full) (runs : frame.Runs vm.gcHeap closure program function slots)
    (fetches : vm.Fetches frame live object fetched)
    (effect : Effect platform fetched.activation (vm.advanced frame callers size) fetched.instr after) :
    after.Full := by
  have active : fetched.activation.closure = frame.closure := by rw [fetches.activation]
  have running : (vm.advanced frame callers size).gcHeap.valueAt fetched.activation.closure =
      some (.closure live) := by rw [active]; exact fetches.runs.live
  have grows : vm.gcHeap.Grows after.gcHeap := effect.grows running
  refine full.grow grows fun ptr made absent found => ?_
  obtain ⟨constant, captures, instr, known, upvalues⟩ := effect.newClosure running absent found
  obtain ⟨entry, listing, written, flat, verified, there, -, same, -⟩ := runs.fetched fetches
  have code : vm.gcHeap.valueAt closure.function = some (.function object) := by
    obtain rfl := Object.closure.inj (Option.some.inj (runs.live.symm.trans fetches.runs.live))
    exact fetches.runs.code
  rw [fetches.activation] at known
  obtain ⟨position, inner, at_, inside, of⟩ := runs.full.of.inner code known
  refine ⟨program, inner, of.extend grows.extends_, upvalues.trans ?_⟩
  cases flat with
  | jump | jumpIfFalse | loop => cases same.trans instr
  | plain emission =>
      obtain ⟨_, _, -, executes, -⟩ := verified.executes there
      have refers := executes.refers
      unfold Surroundings.Refers at refers
      rw [show emission.instr = .closure constant captures from same.trans instr] at refers
      obtain ⟨⟨laterPosition, other, laterAt, laterInside, rfl⟩, -⟩ := refers
      obtain rfl : position = laterPosition := by
        have both := at_.symm.trans laterAt
        cases both
        rfl
      rw [show program.functions[position]? = some other from laterInside] at inside
      cases inside
      rfl

/-- Only the last function of a program is a script. -/
theorem Program.root (member : function ∈ program.functions) (script : function.kind = .script) :
    function = program.lower.script program.code := by
  rcases List.mem_append.mp member with inner | root
  · exact absurd script (program.lowers.certified_functions function inner).1
  · exact List.mem_singleton.mp root

/-- A called closure is at the beginning of its bytecode. -/
theorem VM.Full.called {ptr : Ptr} {argCount : Nat} (full : vm.Full) (has : vm.HasArity ptr argCount)
    (bound : argCount < vm.stack.length) :
    ∃ closure program function slots floor,
      ({ closure := ptr, stackBeginIndex := vm.stack.length - argCount - 1 } : Frame).Runs vm.gcHeap
        closure program function slots ∧
      function.Leaves
        { closure := ptr, stackBeginIndex := vm.stack.length - argCount - 1 } floor
        (vm.stack.length - argCount) ∧
      floor + slots.length = vm.stack.length := by
  obtain ⟨closure, object, live, code, arity⟩ := has
  obtain ⟨program, function, holds⟩ := full ptr closure live
  obtain ⟨_, isObject⟩ := holds.of.embodies.object code
  have same : function.arity = argCount := isObject.arity.symm.trans arity
  obtain ⟨entry, listing, verified⟩ := (program.certified function holds.of.member).verified
  have enters := verified.enters
  have height := verified.height
  refine ⟨closure, program, function, _, vm.stack.length - function.entryHeight,
    ⟨live, holds, ⟨entry, listing, verified, enters⟩, height ▸ .refl⟩, ?_, ?_⟩
  · unfold LoweredFunction.Leaves LoweredFunction.entryHeight
    dsimp only
    split
    next script =>
        have none : function.arity = 0 := by rw [program.root holds.of.member script]; rfl
        omega
    next => omega
  · rw [height]
    unfold LoweredFunction.entryHeight
    split <;> omega

/-- Only a function returns. -/
theorem Program.returns {emission : Emission} {entry : List TrackedLocal}
    {listing : Listing Emission JumpTag Context} {context : Context} {offset : Nat}
    (member : function ∈ program.functions)
    (verified : function.Verified program.functions entry listing)
    (there : EntryAt layout listing offset (context, .plain emission))
    (returns : emission.instr = .simple .return_) : function.kind ≠ .script := by
  intro script
  obtain ⟨earlier, later, split, -⟩ := verified.entry_flats there
  have inside : emission ∈ function.code.plains := by
    refine (Code.mem_plains layout).mpr ?_
    rw [show function.code.flatten layout = _ from split]
    simp
  rw [program.root member script] at inside
  exact program.lowers.returnless Lower.ready_program rfl emission inside returns

omit [Number N] in
/-- What an instruction takes is there. -/
theorem LoweredFunction.Verified.pops_le {functions : List (LoweredFunction N)}
    {entry : List TrackedLocal} {listing : Listing Emission JumpTag Context}
    {written : List Slot} {flat : LoweredFlat} {offset : Nat}
    (verified : function.Verified functions entry listing)
    (there : EntryAt layout listing offset (.live written, flat)) :
    (LoweredFlat.instr flat).pops ≤ written.length := by
  cases flat with
  | jump | jumpIfFalse | loop => exact Nat.zero_le _
  | plain emission =>
      obtain ⟨_, _, same, executes, -⟩ := verified.executes there
      cases same
      obtain ⟨taken, rest, rfl, count, -⟩ := executes.effect
      simp [LoweredFlat.instr, ← count]

/-- An activation after an instruction that goes on to the next one. -/
theorem Frame.Runs.falls {entry : List TrackedLocal} {listing : Listing Emission JumpTag Context}
    {written : List Slot} {flat : LoweredFlat}
    (runs : frame.Runs heap closure program function slots)
    (verified : function.Verified program.functions entry listing)
    (there : EntryAt layout listing frame.bytecodeIndex (.live written, flat))
    (le : Context.Le (.live slots) (.live written))
    (falls : (LoweredFlat.instr flat).fallsThrough = true) :
    ∃ rest, rest.length =
        written.length - (LoweredFlat.instr flat).pops + (LoweredFlat.instr flat).pushes ∧
      ({ frame with bytecodeIndex := frame.bytecodeIndex + flat.size layout } : Frame).Runs heap closure
        program function rest := by
  obtain ⟨_, rest, same, length, arrives⟩ := verified.falls there falls
  cases same
  have decodes := verified.decode_entry (program.fits function runs.full.of.member) there
  have reaches := runs.reaches.tail (.next decodes falls)
  rw [← le.length, ← length] at reaches
  exact ⟨rest, length, runs.live, runs.full, ⟨entry, listing, verified, arrives⟩, reaches⟩

/-- Only a script gets to the end of its bytecode, with nothing left. -/
theorem Frame.Runs.ends {live : Closure} {object : HeapFunction N}
    (runs : frame.Runs vm.gcHeap closure program function slots) (there : vm.Runs frame live object)
    (atEnd : frame.bytecodeIndex = object.chunk.bytecode.length) :
    function.kind = .script ∧ slots = [] := by
  obtain ⟨entry, listing, verified, arrives⟩ := runs.arrives
  obtain rfl := Object.closure.inj (Option.some.inj (runs.live.symm.trans there.live))
  obtain ⟨_, holds⟩ := runs.full.of.embodies.object there.code
  rcases verified.arrives_cases arrives with ⟨-, script, none⟩ | ⟨written, flat, found, -⟩
  · exact ⟨script, none⟩
  · have decodes := verified.decode_entry (program.fits function runs.full.of.member) found
    rw [atEnd, holds.bytecode, List.drop_length] at decodes
    cases decodes

/-- The frame of an activation after a jump. -/
theorem Frame.Runs.jumps {entry : List TrackedLocal} {listing : Listing Emission JumpTag Context}
    {written : List Slot} {flat : LoweredFlat} {opcode : Opcode} {distance target : Nat}
    (runs : frame.Runs heap closure program function slots)
    (verified : function.Verified program.functions entry listing)
    (there : EntryAt layout listing frame.bytecodeIndex (.live written, flat))
    (le : Context.Le (.live slots) (.live written))
    (jumps : LoweredFlat.instr flat = .jump opcode distance)
    (goes : if opcode = .loop then distance ≤ frame.bytecodeIndex + flat.size layout ∧
        target = frame.bytecodeIndex + flat.size layout - distance
      else target = frame.bytecodeIndex + flat.size layout + distance) :
    ({ frame with bytecodeIndex := target } : Frame).Runs heap closure program function written := by
  obtain ⟨_, laterTarget, same, known, arrives⟩ := verified.jumps there jumps
  cases same
  have size : flat.size layout = 3 := by rw [LoweredFlat.size_eq, jumps]; rfl
  have target_ : laterTarget = target := by
    rw [size] at goes
    cases opcode <;> simp only [Instr.target?, reduceCtorEq, if_false, if_true] at known goes <;>
      first
      | exact (Option.some.inj known).symm.trans goes.symm
      | (rw [if_pos goes.1] at known; exact (Option.some.inj known).symm.trans goes.2.symm)
  have decodes := verified.decode_entry (program.fits function runs.full.of.member) there
  have reaches := runs.reaches.tail (.jump decodes (jumps ▸ known))
  rw [← le.length, target_] at reaches
  exact ⟨runs.live, runs.full, ⟨entry, listing, verified, target_ ▸ arrives⟩, reaches⟩

/-- A caller that has its result back has more on the stack than before its own call. -/
theorem Frame.Runs.result {entry : List TrackedLocal} {listing : Listing Emission JumpTag Context}
    {written next : List Slot} {flat : LoweredFlat} {argCount : Nat} {rest : List Frame}
    (runs : frame.Runs heap closure program function slots)
    (verified : function.Verified program.functions entry listing)
    (there : EntryAt layout listing frame.bytecodeIndex (.live written, flat))
    (le : Context.Le (.live slots) (.live written))
    (calls : LoweredFlat.instr flat = .operand .call argCount)
    (length : next.length = written.length - (argCount + 1) + 1)
    (outer : Stacked heap base rest below) (leaves : function.Leaves frame floor below)
    (result : rest = [] ∨ base < below) : base < floor + next.length := by
  have fits := program.fits function runs.full.of.member
  have decodes := verified.decode_entry fits there
  rw [calls] at decodes
  have tall := verified.reaches_pops fits runs.reaches decodes (Nat.succ_ne_zero argCount)
  rw [← le.length] at tall
  have above : base ≤ below := by
    rcases result with rfl | more
    · cases outer
      exact Nat.le_refl _
    · exact Nat.le_of_lt more
  have leaves := leaves.2
  simp only [Instr.pops] at tall
  unfold LoweredFunction.entryHeight at tall
  split at leaves
  next script =>
      rw [if_pos script] at tall
      omega
  next other =>
      rw [if_neg other] at tall
      omega

/-- What an instruction leaves of the activations. -/
theorem VM.Resizes.stacked {activation : Activation N} {instr : Instr} {rest : List Frame}
    {entry : List TrackedLocal} {listing : Listing Emission JumpTag Context} {written : List Slot}
    {flat : LoweredFlat} (full : after.Full) (outer : Stacked after.gcHeap base rest below)
    (runs : frame.Runs after.gcHeap closure program function slots)
    (leaves : function.Leaves frame floor below) (result : rest = [] ∨ base < below)
    (verified : function.Verified program.functions entry listing)
    (there : EntryAt layout listing frame.bytecodeIndex (.live written, flat))
    (le : Context.Le (.live slots) (.live written))
    (tall : vm.stack.length = floor + written.length)
    (begins : activation.stackBeginIndex = frame.stackBeginIndex)
    (instr_ : LoweredFlat.instr flat = instr)
    (resizes : (vm.advanced frame (rest ++ callers) (flat.size layout)).Resizes activation instr after) :
    ∃ inner, after.callFrames = inner ++ callers ∧
      Stacked after.gcHeap base inner after.stack.length := by
  have pops := verified.pops_le there
  have stack : (vm.advanced frame (rest ++ callers) (flat.size layout)).stack.length =
      floor + written.length := tall
  cases resizes with
  | falls falls _ frames height =>
      obtain ⟨next, length, goes⟩ := runs.falls verified there le (instr_ ▸ falls)
      refine ⟨_ :: rest, frames, ?_⟩
      have same : after.stack.length = floor + next.length := by
        rw [instr_] at length pops
        omega
      exact same ▸ .cons outer goes leaves result
  | @calls argCount callee _ bound frames height has =>
      have falls : (LoweredFlat.instr flat).fallsThrough = true := by rw [instr_]; rfl
      obtain ⟨next, length, goes⟩ := runs.falls verified there le falls
      obtain ⟨_, _, _, laterSlots, laterFloor, begins, laterLeaves, laterTall⟩ := full.called has (height ▸ bound)
      rw [height] at begins laterLeaves
      refine ⟨_ :: _ :: rest, frames, ?_⟩
      rw [instr_] at length pops
      simp only [Instr.pops, Instr.pushes] at length pops
      have same : after.stack.length - argCount = floor + next.length := by omega
      have caller := Stacked.cons outer goes leaves result
      have more := runs.result verified there le instr_ length outer leaves result
      rw [← same, height] at caller more
      exact laterTall ▸ .cons caller begins laterLeaves (.inr more)
  | returns frames height =>
      have notScript : function.kind ≠ .script := by
        cases flat with
        | jump | jumpIfFalse | loop => cases instr_
        | plain emission => exact Program.returns runs.full.of.member verified there instr_
      have leaves := leaves.2
      rw [if_neg notScript] at leaves
      refine ⟨rest, frames, ?_⟩
      have same : after.stack.length = below := by rw [height, begins, leaves.2, leaves.1]
      exact same ▸ outer
  | jumps frames goes =>
      obtain ⟨rfl, rfl⟩ := List.cons.inj frames
      have next := runs.jumps verified there le instr_ goes
      exact ⟨_ :: rest, rfl, tall ▸ .cons outer next leaves result⟩

/-- One iteration, with the activations up to some of the callers. -/
theorem step_stacked (full : vm.Full) {result : Unit}
    (frames : vm.callFrames = inner ++ callers) (running : inner ≠ [])
    (stacked : Stacked vm.gcHeap base inner vm.stack.length)
    (steps : step platform vm = .ok result after) :
    after.Full ∧ ∃ laterInner, after.callFrames = laterInner ++ callers ∧
      Stacked after.gcHeap base laterInner after.stack.length := by
  generalize tall : vm.stack.length = height at stacked
  cases stacked with
  | nil => exact absurd rfl running
  | @cons frame rest closure program function slots floor below outer runs leaves result =>
      rcases step_ok steps with ⟨none, -⟩ | ⟨top, others, live, object, split, here, outcome⟩
      · rw [none] at frames
        cases frames
      · obtain ⟨rfl, rfl⟩ : frame = top ∧ rest ++ callers = others := by
          rw [split] at frames
          cases frames
          exact ⟨rfl, rfl⟩
        rcases outcome with ⟨atEnd, rfl⟩ | ⟨fetched, fetches, effect⟩
        · obtain ⟨script, rfl⟩ := runs.ends here atEnd
          have same : below = floor := by
            have leaves := leaves.2
            rwa [if_pos script] at leaves
          refine ⟨full, rest, rfl, ?_⟩
          rw [tall, List.length_nil, Nat.add_zero, ← same]
          exact outer
        · have laterFull : after.Full := effect.full full runs fetches
          have running : (vm.advanced frame (rest ++ callers) fetched.size).gcHeap.valueAt
              fetched.activation.closure = some (.closure live) := by
            rw [fetches.activation]
            exact here.live
          have grows : vm.gcHeap.Grows after.gcHeap := effect.grows running
          obtain ⟨entry, listing, written, flat, verified, there, le, instr, size⟩ :=
            runs.fetched fetches
          obtain ⟨laterClosure, laterRuns⟩ := runs.grow grows
          refine ⟨laterFull, (size ▸ effect.resizes).stacked laterFull (outer.grow grows) laterRuns leaves
            result verified there le ?_ ?_ instr⟩
          · rw [tall, le.length]
          · rw [fetches.activation]

end

end Cpplox
