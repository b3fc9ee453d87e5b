import Cpplox.Contexts.Declaring
import Cpplox.Vm.Calls

namespace Cpplox

open Structured Data

/-! Class declarations at run time: the class stays within reach of the instructions that
extend it. -/

variable {N : Type}

section

variable {function : LoweredFunction N} {listing : Listing Emission JumpTag Declaring} {offset size : Nat}
  {known : Declaring} {flat : LoweredFlat} {instr : Instr}

/-- A listing of a function with what is known in front of every instruction. -/
structure LoweredFunction.Declares (function : LoweredFunction N)
    (listing : Listing Emission JumpTag Declaring) : Prop where
  flats : listing.flats = function.flats
  verified : Structured.Verified layout Declaring.typing listing .nothing
  enters : Arrives layout Declaring.typing .nothing listing 0 .nothing

namespace LoweredFunction.Declares

theorem decode_entry (declares : function.Declares listing) (fits : function.Fits)
    (found : EntryAt layout listing offset (known, flat)) :
    decode (function.assemble.chunk.bytecode.drop offset) =
      some (LoweredFlat.instr flat, flat.size layout) := by
  obtain ⟨earlier, later, rfl, rfl⟩ := found
  have split : function.flats = Listing.flats earlier ++ flat :: Listing.flats later := by
    simp [← declares.flats, Listing.flats]
  rw [assemble, split]
  exact decode_bytecodeOf (fits flat (by rw [split]; simp)) _ _

/-- Where something is known and there is something to decode, it is an instruction of the
listing. -/
theorem arrives_decode (declares : function.Declares listing) (fits : function.Fits)
    (arrives : Arrives layout Declaring.typing .nothing listing offset known)
    (decodes : decode (function.assemble.chunk.bytecode.drop offset) = some (instr, size)) :
    ∃ flat, EntryAt layout listing offset (known, flat) ∧ LoweredFlat.instr flat = instr ∧
      flat.size layout = size := by
  obtain ⟨written, found, rfl⟩ := arrives
  rcases Listing.contextAt_cases found with ⟨rfl, -⟩ | ⟨earlier, flat, later, rfl, rfl⟩
  · have length : function.assemble.chunk.bytecode.length = listing.extent layout := by
      rw [assemble, Listing.extent, declares.flats]
      exact length_bytecodeOf _
    rw [← length, List.drop_length] at decodes
    cases decodes
  · have there : EntryAt layout (earlier ++ (known, flat) :: later)
        (Listing.extent layout earlier) (known, flat) := ⟨earlier, later, rfl, rfl⟩
    rw [declares.decode_entry fits there] at decodes
    cases decodes
    exact ⟨flat, there, rfl, rfl⟩

end LoweredFunction.Declares

end

namespace Declaring

/-- What is known holds of a stack, and the class is this one. -/
inductive Of (current : Option Ptr) : List (Value N) → Declaring → Prop
  | nothing {stack : List (Value N)} : Of current stack .nothing
  | class_ {klass : Ptr} {rest : List (Value N)} : current = some klass →
      Of current (.class_ klass :: rest) .class_
  | superclass {value : Value N} {klass : Ptr} {rest : List (Value N)} : current = some klass →
      Of current (value :: .class_ klass :: rest) .superclass
  | method {closure klass : Ptr} {rest : List (Value N)} : current = some klass →
      Of current (.closure closure :: .class_ klass :: rest) .method

theorem Resumes.of {next : Declaring} {current : Option Ptr} {klass : Ptr}
    {rest : List (Value N)} (resumes : next.Resumes) (same : current = some klass) :
    next.Of current (.class_ klass :: rest) := by
  rcases resumes with rfl | rfl
  · exact .class_ same
  · exact .nothing

/-- What is known holds of a stack, whichever the class. -/
def Holds (stack : List (Value N)) (known : Declaring) : Prop := ∃ current, known.Of current stack

theorem Holds.nothing {stack : List (Value N)} : Declaring.nothing.Holds stack := ⟨none, .nothing⟩

end Declaring

variable [Number N] {platform : Platform N} {activation : Activation N} {vm after : VM N} {instr : Instr}

/-- An instruction that goes on leaves what is known after it, of the class that it has made
or of the one that it was known of before. -/
theorem Effect.of {before next : Declaring} {current later : Option Ptr}
    (effect : Effect platform activation vm instr after) (steps : before.Steps instr next)
    (holds : before.Of current vm.stack)
    (makes : ∀ index, instr = .operand .class_ index → later = some (vm.fresh platform))
    (goesOn : (∀ index, instr ≠ .operand .class_ index) → next ≠ .nothing → later = current) :
    next.Of later after.stack := by
  cases steps with
  | @class_ _ _ index resumes =>
      cases effect with
      | class_ => exact resumes.of (makes index rfl)
  | superclass opcode =>
      have same : later = current := by
        refine goesOn (fun index => ?_) nofun
        rcases opcode with rfl | rfl | rfl <;> nofun
      subst same
      generalize stack : vm.stack = values at holds
      cases holds with
      | class_ is =>
          rcases opcode with rfl | rfl | rfl
          · cases effect with
            | getLocal => exact stack ▸ .superclass is
          · cases effect with
            | getUpvalue => exact stack ▸ .superclass is
          · cases effect with
            | getGlobal => exact stack ▸ .superclass is
  | inherit resumes =>
      generalize stack : vm.stack = values at holds
      cases holds with
      | superclass is =>
          cases effect with
          | computes _ computes => cases computes
          | inherit split =>
              obtain ⟨-, rest⟩ := List.cons.inj (stack.symm.trans split)
              cases rest
              rcases resumes with rfl | rfl
              · exact .class_ ((goesOn nofun nofun).trans is)
              · exact .nothing
  | closure =>
      have same : later = current := goesOn nofun nofun
      subst same
      generalize stack : vm.stack = values at holds
      cases holds with
      | class_ is =>
          cases effect with
          | closure _ captured =>
              rw [captured.onlyHeap]
              exact stack ▸ .method is
  | method resumes =>
      generalize stack : vm.stack = values at holds
      cases holds with
      | method is =>
          cases effect with
          | method split =>
              obtain ⟨-, rest⟩ := List.cons.inj (stack.symm.trans split)
              cases rest
              rcases resumes with rfl | rfl
              · exact .class_ ((goesOn nofun nofun).trans is)
              · exact .nothing
  | other => exact .nothing

theorem Effect.declares {before next : Declaring} (effect : Effect platform activation vm instr after)
    (steps : before.Steps instr next) (holds : before.Holds vm.stack) : next.Holds after.stack := by
  obtain ⟨current, holds⟩ := holds
  by_cases makes : ∃ index, instr = .operand .class_ index
  · exact ⟨_, effect.of steps holds (fun _ _ => rfl) fun other => absurd makes (by simpa using other)⟩
  · exact ⟨_, effect.of steps holds (fun index same => absurd ⟨index, same⟩ makes) fun _ _ => rfl⟩

/-- A jump stays where it is, or moves the innermost activation. -/
theorem Effect.jump {opcode : Opcode} {distance : Nat} {frame : Frame} {callers : List Frame}
    (effect : Effect platform activation vm (.jump opcode distance) after)
    (frames : vm.callFrames = frame :: callers) :
    (opcode = .jumpIfFalse ∧ after = vm) ∨
      ∃ target, (if opcode = .loop then distance ≤ frame.bytecodeIndex ∧
          target = frame.bytecodeIndex - distance else target = frame.bytecodeIndex + distance) ∧
        after = { vm with callFrames := { frame with bytecodeIndex := target } :: callers } := by
  cases effect with
  | stays => exact .inl ⟨rfl, rfl⟩
  | jumps split goes =>
      obtain ⟨rfl, rfl⟩ := List.cons.inj (frames.symm.trans split)
      exact .inr ⟨_, goes, rfl⟩

section

variable {heap later : GcHeap (Object N)} {frame : Frame} {callers : List Frame} {closure : Closure}
  {program : Program N} {function : LoweredFunction N} {known : Declaring}

theorem Program.declares (program : Program N) (member : function ∈ program.functions) :
    ∃ listing, function.Declares listing := by
  obtain ⟨listing, listed⟩ := (program.lowers.inReach_program function member).listed
  exact ⟨listing, listed.flats, listed.verified, listed.enters⟩

/-- The activation runs a function of a program, and is where this is known. -/
structure Frame.Knows (frame : Frame) (heap : GcHeap (Object N)) (closure : Closure)
    (program : Program N) (function : LoweredFunction N) (known : Declaring) : Prop where
  live : heap.valueAt frame.closure = some (.closure closure)
  of : closure.Of heap program function
  arrives : ∃ listing, function.Declares listing ∧
    Arrives layout Declaring.typing .nothing listing frame.bytecodeIndex known

/-- Nothing is known where a function is called. -/
theorem Closure.Of.knows {ptr : Ptr} (of : closure.Of heap program function) (base : Nat)
    (live : heap.valueAt ptr = some (.closure closure)) :
    ({ closure := ptr, stackBeginIndex := base } : Frame).Knows heap closure program function .nothing := by
  obtain ⟨listing, declares⟩ := program.declares of.member
  exact ⟨live, of, listing, declares, declares.enters⟩

theorem Frame.Knows.extend (knows : frame.Knows vm.gcHeap closure program function known)
    (extends_ : vm.gcHeap.Extends later) :
    ∃ other, frame.Knows later other program function known := by
  obtain ⟨other, found, same⟩ := extends_.closure knows.live
  exact ⟨other, found, (knows.of.extend extends_).congr same, knows.arrives⟩

/-- Something is known of the innermost activation, which holds of the stack; nothing is
needed of the others. -/
structure VM.Declares (vm : VM N) : Prop where
  running : ∀ frame callers, vm.callFrames = frame :: callers →
    ∃ closure program function known, frame.Knows vm.gcHeap closure program function known ∧
      known.Holds vm.stack
  callers : ∀ frame callers, vm.callFrames = frame :: callers → ∀ caller ∈ callers,
    ∃ closure program function, caller.Knows vm.gcHeap closure program function .nothing

theorem VM.Declares.idle (idle : vm.callFrames = []) : vm.Declares := by
  constructor <;> intro frame callers frames <;> rw [idle] at frames <;> cases frames

/-- The activations of a later machine, when the innermost one is known again. -/
theorem VM.Declares.running_of (extends_ : vm.gcHeap.Extends after.gcHeap)
    (frames : after.callFrames = frame :: callers)
    (knows : frame.Knows vm.gcHeap closure program function known) (holds : known.Holds after.stack)
    (others : ∀ caller ∈ callers, ∃ closure program function,
      caller.Knows vm.gcHeap closure program function .nothing) : after.Declares := by
  constructor
  · intro top rest split
    obtain ⟨rfl, rfl⟩ := List.cons.inj (frames.symm.trans split)
    obtain ⟨other, knows⟩ := knows.extend extends_
    exact ⟨other, program, function, known, knows, holds⟩
  · intro top rest split caller member
    obtain ⟨rfl, rfl⟩ := List.cons.inj (frames.symm.trans split)
    obtain ⟨closure, program, function, knows⟩ := others caller member
    obtain ⟨other, knows⟩ := knows.extend extends_
    exact ⟨other, program, function, knows⟩

/-- The activations of a later machine, when the innermost one has ended. -/
theorem VM.Declares.ended (extends_ : vm.gcHeap.Extends after.gcHeap)
    (frames : after.callFrames = callers)
    (others : ∀ caller ∈ callers, ∃ closure program function,
      caller.Knows vm.gcHeap closure program function .nothing) : after.Declares := by
  cases callers with
  | nil => exact .idle frames
  | cons caller rest =>
      obtain ⟨closure, program, function, knows⟩ := others caller List.mem_cons_self
      exact .running_of extends_ frames knows .nothing
        fun other member => others other (List.mem_cons_of_mem _ member)

/-- No instruction of a function but its jumps jumps. -/
theorem Program.plain (program : Program N) (member : function ∈ program.functions)
    {emission : Emission} (plain : .plain emission ∈ function.flats) (opcode : Opcode) (distance : Nat) :
    emission.instr ≠ .jump opcode distance := by
  intro jumps
  obtain ⟨entry, listing, verified⟩ := (program.certified function member).verified
  obtain ⟨earlier, later, split⟩ := List.append_of_mem plain
  obtain ⟨context, found⟩ := verified.entry_of_flats split rfl
  obtain ⟨_, _, -, executes, -⟩ := verified.executes found
  have refers := executes.refers
  unfold Surroundings.Refers at refers
  rw [jumps] at refers
  exact refers

/-- How one iteration moves the innermost activation over its listing. -/
inductive Frame.Goes (frame : Frame) (callers : List Frame) (vm : VM N) (closure : Closure)
    (program : Program N) (function : LoweredFunction N) (known : Declaring) (instr : Instr)
    (after : VM N) : Prop
  | falls {index : Nat} {next : Declaring} : known.Steps instr next →
      after.callFrames = { frame with bytecodeIndex := index } :: callers →
      ({ frame with bytecodeIndex := index } : Frame).Knows vm.gcHeap closure program function next →
      Frame.Goes frame callers vm closure program function known instr after
  | calls {index argCount : Nat} {callee : Frame} {called : Closure} {laterProgram : Program N}
      {laterFunction : LoweredFunction N} : instr = .operand .call argCount →
      after.callFrames = callee :: { frame with bytecodeIndex := index } :: callers →
      ({ frame with bytecodeIndex := index } : Frame).Knows vm.gcHeap closure program function .nothing →
      callee.Knows after.gcHeap called laterProgram laterFunction .nothing →
      Frame.Goes frame callers vm closure program function known instr after
  | returns : instr = .simple .return_ → after.callFrames = callers →
      Frame.Goes frame callers vm closure program function known instr after
  | jumps {index distance : Nat} {opcode : Opcode} : instr = .jump opcode distance →
      after.stack = vm.stack →
      after.callFrames = { frame with bytecodeIndex := index } :: callers →
      ({ frame with bytecodeIndex := index } : Frame).Knows vm.gcHeap closure program function known →
      Frame.Goes frame callers vm closure program function known instr after

/-- What is executed is the instruction of the listing. -/
theorem Frame.Knows.goes {fetched : Fetched N} (knows : frame.Knows vm.gcHeap closure program function known)
    (loaded : vm.Loaded) {live : Closure} {object : HeapFunction N}
    (fetches : vm.Fetches frame live object fetched)
    (effect : Effect platform fetched.activation (vm.advanced frame callers fetched.size) fetched.instr after) :
    frame.Goes callers vm closure program function known fetched.instr after := by
  have here := fetches.runs
  obtain ⟨listing, listed, arrives⟩ := knows.arrives
  obtain rfl := Object.closure.inj (Option.some.inj (knows.live.symm.trans here.live))
  obtain ⟨_, isObject⟩ := knows.of.embodies.object here.code
  have decodes := fetches.decodes
  rw [isObject.bytecode] at decodes
  obtain ⟨flat, there, instr, size⟩ :=
    listed.arrives_decode (program.fits function knows.of.member) arrives decodes
  have goes := listed.verified _ _ _ there
  have running : (vm.advanced frame callers fetched.size).gcHeap.valueAt fetched.activation.closure =
      some (.closure closure) := by
    rw [fetches.activation]
    exact here.live
  have moved {target : Nat} {next : Declaring}
      (arrives : Arrives layout Declaring.typing .nothing listing target next) :
      ({ frame with bytecodeIndex := target } : Frame).Knows vm.gcHeap closure program function next :=
    ⟨knows.live, knows.of, listing, listed, arrives⟩
  cases flat with
  | plain emission =>
      obtain ⟨next, typed, laterArrives⟩ := goes
      have laterTyped : known.Steps fetched.instr next := instr ▸ typed
      have next_ := moved laterArrives
      rw [show layout.size emission = fetched.size from size] at next_
      have member : .plain emission ∈ function.flats := by
        obtain ⟨earlier, later, rfl, -⟩ := there
        rw [← listed.flats]
        simp [Listing.flats]
      have resizes := effect.resizes
      generalize called : fetched.instr = executed at resizes laterTyped
      cases resizes with
      | falls _ _ laterFrames => exact .falls laterTyped laterFrames next_
      | calls _ laterFrames _ has =>
          obtain ⟨callee, _, live, -, -⟩ := has
          obtain ⟨laterProgram, laterFunction, of⟩ := effect.loaded loaded running here.code
            (by rw [fetches.activation]) _ _ live
          obtain rfl : next = .nothing := by
            cases laterTyped with
            | superclass opcode => rcases opcode with same | same | same <;> cases same
            | other => rfl
          exact .calls rfl laterFrames next_ (of.knows _ live)
      | returns laterFrames => exact .returns rfl laterFrames
      | jumps => exact absurd (instr.trans called) (program.plain knows.of.member member _ _)
  | jump tag distance =>
      rw [← show LoweredFlat.instr (.jump tag distance) = fetched.instr from instr] at effect ⊢
      rcases effect.jump rfl with ⟨same, -⟩ | ⟨target, jumps, rfl⟩
      · cases same
      · rw [if_neg (by decide)] at jumps
        subst jumps
        exact .jumps rfl rfl rfl (moved (size ▸ goes.2))
  | loop tag distance =>
      obtain ⟨-, destination, back, next⟩ := goes
      rw [← show LoweredFlat.instr (.loop tag distance) = fetched.instr from instr] at effect ⊢
      rcases effect.jump rfl with ⟨same, -⟩ | ⟨target, jumps, rfl⟩
      · cases same
      · rw [if_pos rfl, ← size, show Flat.size layout (.loop tag distance : LoweredFlat) =
          layout.jumpSize from rfl, ← back, Nat.add_sub_cancel] at jumps
        obtain ⟨-, rfl⟩ := jumps
        exact .jumps rfl rfl rfl (moved next)
  | jumpIfFalse tag distance =>
      rw [← show LoweredFlat.instr (.jumpIfFalse tag distance) = fetched.instr from instr] at effect ⊢
      rcases effect.jump rfl with ⟨-, rfl⟩ | ⟨target, jumps, rfl⟩
      · exact .jumps rfl rfl rfl (moved (size ▸ goes.2.1))
      · rw [if_neg (by decide)] at jumps
        subst jumps
        exact .jumps rfl rfl rfl (moved (size ▸ goes.2.2))

theorem step_declares {result : Unit} (loaded : vm.Loaded) (declares : vm.Declares)
    (steps : step platform vm = .ok result after) : after.Declares := by
  rcases step_ok steps with ⟨idle, rfl⟩ | ⟨frame, callers, live, object, frames, here, outcome⟩
  · exact .idle idle
  · have others := declares.callers frame callers frames
    rcases outcome with ⟨-, rfl⟩ | ⟨fetched, fetches, effect⟩
    · exact .ended (.refl vm.gcHeap) rfl others
    · obtain ⟨closure, program, function, known, knows, holds⟩ := declares.running frame callers frames
      have extends_ : vm.gcHeap.Extends after.gcHeap := effect.extends
      cases knows.goes loaded fetches effect with
      | falls typed laterFrames next_ =>
          exact .running_of extends_ laterFrames next_ (effect.declares typed holds) others
      | calls _ laterFrames next_ callee =>
          refine .running_of (.refl after.gcHeap) laterFrames callee .nothing ?_
          intro caller member
          rcases List.mem_cons.mp member with rfl | inside
          · obtain ⟨other, next_⟩ := next_.extend extends_
            exact ⟨other, program, function, next_⟩
          · obtain ⟨closure, program, function, outer⟩ := others caller inside
            obtain ⟨other, outer⟩ := outer.extend extends_
            exact ⟨other, program, function, outer⟩
      | returns _ laterFrames => exact .ended extends_ laterFrames others
      | jumps _ stack laterFrames next_ =>
          exact .running_of extends_ laterFrames next_ (stack ▸ holds) others

theorem VM.Declares.mono (declares : vm.Declares) (frames : after.callFrames = vm.callFrames)
    (stack : after.stack = vm.stack)
    (survives : ∀ frame ∈ vm.callFrames, ∀ closure program function known,
      frame.Knows vm.gcHeap closure program function known →
        ∃ other, frame.Knows after.gcHeap other program function known) : after.Declares := by
  constructor
  · intro frame callers split
    rw [frames] at split
    obtain ⟨closure, program, function, known, knows, holds⟩ := declares.running frame callers split
    obtain ⟨other, knows⟩ := survives frame (split ▸ List.mem_cons_self) _ _ _ _ knows
    exact ⟨other, program, function, known, knows, stack ▸ holds⟩
  · intro frame callers split caller member
    rw [frames] at split
    obtain ⟨closure, program, function, knows⟩ := declares.callers frame callers split caller member
    obtain ⟨other, knows⟩ :=
      survives caller (split ▸ List.mem_cons_of_mem _ member) _ _ _ _ knows
    exact ⟨other, program, function, knows⟩

theorem collect_declares {result : Unit} (sound : vm.Sound) (declares : vm.Declares)
    (collects : collect platform vm = .ok result after) : after.Declares := by
  obtain ⟨gcHeap, internedStrings, rfl, kept⟩ := collect_ok sound.interned collects
  refine declares.mono rfl rfl fun frame member closure program function known knows => ?_
  have found := (kept frame.closure _).mpr ⟨knows.live, kept_frame vm member⟩
  exact ⟨closure, found, knows.of.collected sound.interned collects found, knows.arrives⟩

theorem start_declares {function : Ptr} {result : Unit} (idle : vm.callFrames = [])
    (started : after.Loaded) (starts : start platform function vm = .ok result after) :
    after.Declares := by
  obtain rfl := start_ok.mp starts
  have live : (vm.made platform (.closure { function })).gcHeap.valueAt (vm.fresh platform) =
      some (.closure { function }) := by rw [valueAt_made, if_pos rfl]
  obtain ⟨program, lowered, of⟩ := started _ _ live
  refine .running_of (.refl _) rfl (of.knows _ live) .nothing ?_
  rw [idle]
  simp

theorem between_declares (sound : vm.Sound) (declares : vm.Declares)
    (between : Between platform vm after) : after.Declares := by
  have laterSound := between_sound sound between
  cases between with
  | scan frames interns =>
      exact .idle ((intern_loads sound.interned sound.typed interns).callFrames.trans frames)
  | refuse frames loads =>
      exact .idle ((loadAll_ok sound.interned sound.typed (by simp) loads).1.callFrames.trans frames)
  | run frames accepted loads starts =>
      have loads := (loadAll_ok sound.interned sound.typed (by simp) loads).1
      exact start_declares (loads.callFrames.trans frames) laterSound.loaded starts
  | collect _ collects => exact collect_declares sound declares collects
  | throw => exact .idle rfl

theorem Attains.declares {H : Type} {observe : VM N → H → H} {nothing observed : H}
    (reaches : Attains platform observe nothing vm observed) : vm.Declares := by
  induction reaches with
  | construct constructs =>
      obtain ⟨name, named, interns, rfl⟩ := construct_ok constructs
      exact .idle (intern_callFrames interns)
  | step reached steps ih => exact step_declares reached.sound.loaded ih steps
  | between reached between ih => exact between_declares reached.sound ih between

end

end Cpplox
