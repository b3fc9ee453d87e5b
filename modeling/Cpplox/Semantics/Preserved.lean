import Cpplox.Semantics.Interpreter
import Cpplox.Semantics.Lowering

namespace Cpplox

open Structured Data Lower

/-! The machine runs a source as its syntax tree says. -/

variable {N : Type} {platform : Platform N} {vm middle after : VM N} {A B : Type}

structure VM.Remains (vm after : VM N) : Prop where
  objects : ∀ ptr object, vm.gcHeap.valueAt ptr = some object → after.gcHeap.valueAt ptr = some object
  output : after.output = vm.output

theorem VM.Remains.refl (vm : VM N) : vm.Remains vm := ⟨fun _ _ => id, rfl⟩

theorem VM.Remains.trans (one : vm.Remains middle) (two : middle.Remains after) : vm.Remains after :=
  ⟨fun ptr object found => two.objects ptr object (one.objects ptr object found),
    two.output.trans one.output⟩

/-- Whatever the operation has as its result. -/
def Remaining (operation : VmM N A) : Prop :=
  ∀ vm result after, operation vm = .ok result after → vm.Remains after

namespace Remaining

theorem pure (value : A) : Remaining (Pure.pure value : VmM N A) := by
  intro vm result after runs
  obtain ⟨-, rfl⟩ := VmM.pure_ok.mp runs
  exact .refl _

theorem throw (error : VmError) : Remaining (MonadExcept.throw error : VmM N A) := by
  intro vm result after runs
  exact (VmM.throw_ok.mp runs).elim

theorem bind {first : VmM N A} {rest : A → VmM N B} (one : Remaining first)
    (two : ∀ value, Remaining (rest value)) : Remaining (first >>= rest) := by
  intro vm result after runs
  obtain ⟨value, middle, first, second⟩ := VmM.bind_ok.mp runs
  exact (one vm value middle first).trans (two value middle result after second)

theorem make (object : Object N) : Remaining (make platform object) := by
  intro vm ptr after makes
  obtain ⟨-, rfl⟩ := make_ok.mp makes
  exact ⟨fun _ _ => valueAt_made_of, rfl⟩

theorem intern (chars : Text) : Remaining (intern platform chars) := by
  intro vm ptr after interns
  rcases intern_ok.mp interns with ⟨-, rfl⟩ | ⟨-, -, rfl⟩
  · exact .refl _
  · exact ⟨fun _ _ => valueAt_made_of, rfl⟩

theorem loadConstant (made : List Ptr) (constant : Constant N) :
    Remaining (loadConstant platform made constant) := by
  cases constant with
  | number => exact .pure _
  | string chars => exact .bind (.intern chars) fun _ => .pure _
  | function position =>
      simp only [Cpplox.loadConstant]
      cases made[position]? with
      | none => exact .throw _
      | some ptr => exact .pure _

theorem loadConstants (made : List Ptr) (constants : List (Constant N)) :
    Remaining (loadConstants platform made constants) := by
  induction constants with
  | nil => exact .pure _
  | cons constant rest ih => exact .bind (.loadConstant made constant) fun _ => .bind ih fun _ => .pure _

theorem loadTokens (tokens : List (SourceMapToken Text)) : Remaining (loadTokens platform tokens) := by
  induction tokens with
  | nil => exact .pure _
  | cons token rest ih => exact .bind (.intern token.lexeme) fun _ => .bind ih fun _ => .pure _

theorem loadAll (made : List Ptr) (functions : List (Function (Constant N) Text)) :
    Remaining (loadAll platform made functions) := by
  induction functions generalizing made with
  | nil => exact .pure _
  | cons function rest ih =>
      have first : Remaining (loadFunction platform made function) :=
        .bind (.intern function.name) fun _ => .bind (.loadConstants made function.chunk.constants)
          fun _ => .bind (.loadTokens function.chunk.sourceMapTokens) fun _ => .make _
      exact .bind first fun ptr => ih (made ++ [ptr])

end Remaining

variable [Number N] {program : Program N} {store : Store N}

theorem VM.Remains.shows (remains : vm.Remains after) (interned : vm.Interned) (typed : vm.Typed)
    (laterInterned : after.Interned) (stack : after.stack = vm.stack) (globals : after.globals = vm.globals) :
    after.store = vm.store := by
  have retains : Retains vm.stack (fun _ => True) vm.gcHeap after.gcHeap :=
    fun ptr object _ found => ⟨remains.objects ptr object found, fun _ _ => trivial⟩
  exact retains.store interned typed laterInterned (by simp) (by simp) ⟨stack, globals, remains.output⟩

namespace Program

/-- A source that is parsed is the program of its declarations. -/
theorem of_parse {fuel : Nat} {source : Text} {functions : List (Function (Constant N) Text)}
    {decls : Decls} (accepted : compile fuel source = .ok functions)
    (parses : parse fuel source = .ok decls) :
    ∃ program : Program N, program.source = source ∧ program.decls = decls ∧
      functions = program.functions.map LoweredFunction.assemble := by
  obtain ⟨laterDecls, code, lower, laterParses, lowers, assembles⟩ := compile_factors accepted
  rw [parses] at laterParses
  cases laterParses
  exact ⟨⟨source, decls, code, lower, lowers, fuel, functions, accepted, parses, assembles⟩, rfl, rfl,
    assembles.made⟩

/-- A source that was loaded and started stands at its first instruction. -/
theorem stands_start {loaded started : VM N} {made : List Ptr} {root : Ptr} (sound : vm.Sound)
    (idle : vm.callFrames = [])
    (accepted : ∃ fuel source, compile fuel source = .ok (program.functions.map LoweredFunction.assemble))
    (loads : loadAll platform [] (program.functions.map LoweredFunction.assemble) vm =
      .ok (made ++ [root]) loaded)
    (starts : start platform root loaded = .ok () started) : program.Stands 0 vm.store started := by
  obtain ⟨fuel, source, accepted⟩ := accepted
  have laterSound := between_sound sound (.run idle accepted loads starts)
  have laterLoads := (loadAll_ok sound.interned sound.typed (by simp) loads).1
  have embodies := loadAll_embodies (List.nil_append _).symm sound.interned sound.typed .nil loads
  have length : program.lower.functions.length = made.length := by
    simpa [functions] using List.Forall₂.length_eq embodies
  obtain ⟨lowered, at_, here⟩ := matched_right embodies List.getElem?_concat_length
  obtain rfl : program.script = lowered := by
    rw [← length, functions, List.getElem?_concat_length] at at_
    exact Option.some.inj at_
  have remains : vm.Remains started := by
    refine (Remaining.loadAll _ _ _ _ _ loads).trans ?_
    obtain rfl := start_ok.mp starts
    exact ⟨fun _ _ => valueAt_made_of, rfl⟩
  obtain rfl := start_ok.mp starts
  have extends_ : loaded.gcHeap.Extends (loaded.made platform (.closure { function := root })).gcHeap :=
    extends_made _
  refine ⟨laterSound, ⟨loaded.fresh platform, root, ?_, ?_, here.extend extends_⟩, ?_⟩
  · simp [laterLoads.callFrames, idle]
  · rw [valueAt_made, if_pos rfl]
  · exact remains.shows sound.interned sound.typed laterSound.interned laterLoads.stack laterLoads.globals

/-- At the end of its code the script is done. -/
theorem Stands.ends (stands : program.Stands (program.code.extent layout) store vm) :
    (interpreter platform).Leads (fun after => after.callFrames = [] ∧ after.store = store) vm := by
  have stable : (interpreter platform).Stable
      (fun after : VM N => after.callFrames = [] ∧ after.store = store) :=
    fun before after disturbs ended => absurd ended.1 disturbs.1
  refine .of_step (program.stable _ _) stands fun later there => ?_
  obtain ⟨root, code, frames, live, embodies⟩ := there.running
  cases embodies with
  | @intro _ _ object ptrs _ found isObject =>
      have length : object.chunk.bytecode.length = program.code.extent layout := by
        rw [isObject.bytecode]
        exact length_bytecodeOf program.script.flats
      have steps : step platform later = .ok () { later with callFrames := [] } := by
        refine (bind_run _ (VmM.get_ok.mpr ⟨rfl, rfl⟩)).trans ?_
        rw [frames]
        refine (bind_run _ (getClosure_ok.mpr ⟨rfl, live⟩)).trans ?_
        refine (bind_run _ (getFunction_ok.mpr ⟨rfl, found⟩)).trans ?_
        dsimp only
        rw [if_pos length.symm]
        rfl
      refine ⟨{ later with callFrames := [] }, ?_, .of_stable stable ⟨rfl, there.store⟩⟩
      simp [interpreter, frames, steps]

end Program

/-- A state from which the machine does what an evaluation did: it ends with the same output
and variables and an empty stack, or throws the same error, or runs on. -/
inductive RunsAs (platform : Platform N) (limit : Nat) (vm : VM N) :
    EStateM.Result (Stop Text) (State N) Unit → Prop
  | ends {state : State N} : (interpreter platform).Leads
      (fun after => after.callFrames = [] ∧ after.store = ⟨[], state.globals, state.output⟩) vm →
      RunsAs platform limit vm (.ok () state)
  | throws {what : Text} {state : State N} : (interpreter platform).Leads
      (fun later => ∃ after, step platform later = .error (.runtimeError what) after ∧
        after.store.globals = state.globals ∧ after.store.output = state.output) vm →
      RunsAs platform limit vm (.error (.failed what) state)
  | lasts {state : State N} : (interpreter platform).Lasts limit vm →
      RunsAs platform limit vm (.error .outOfFuel state)

/-- What a program begins with. -/
def VM.state (vm : VM N) : State N := ⟨[], vm.store.globals, vm.store.output⟩

namespace Program

/-- The root script leaves no variables on the stack. -/
theorem placed_end (program : Program N) : program.lower.placed = [] := by
  obtain ⟨declared, grows, declares, -⟩ := program.lowers.outcome Lower.ready_program
  have names := grows.placed declares
  rw [declares.top rfl] at names
  exact List.map_eq_nil_iff.mp names

/-- The code of the root script does what the evaluator says. -/
theorem executes (program : Program N) (limit : Nat) :
    Executes program.script.constants limit (execDecls limit true program.decls) program.code {}
      program.lower :=
  program.lowers.does Lower.ready_program ⟨rfl, Lower.numbered_initial⟩ List.prefix_rfl

/-- A script that stands at its first instruction runs as it is evaluated. -/
theorem runs {state : State N} (program : Program N) (limit : Nat)
    (imperative : program.decls.isImperative = true) (outside : state.locals = [])
    (stands : program.Stands 0 (state.store []) vm) :
    RunsAs platform limit vm (execDecls limit true program.decls state) := by
  have there : PartAt layout program.script.flats 0 (program.code.flatten layout) :=
    ⟨[], [], (List.append_nil _).symm, rfl⟩
  have enacts : (interpreter platform).Enacts limit
      (program.code.does program.actions limit (state.store [])) _ vm :=
    (program.implements platform).enacts there stands
  have named : state.Named ({} : Lower N) := by
    rw [State.Named, outside]
    rfl
  have mirrors := program.executes limit state named
  change Simulates Agrees (execDecls limit true program.decls state)
    (program.code.does program.actions limit (state.store [])) _ at mirrors
  cases result : execDecls limit true program.decls state with
  | ok done last =>
      rw [result] at mirrors
      obtain ⟨_, store, does, rfl, named⟩ := mirrors
      rw [does] at enacts
      have none : last.locals = [] := by
        rw [State.Named, placed_end] at named
        exact List.map_eq_nil_iff.mp named
      refine .ends (Disturbed.Leads.trans enacts fun later arrives => ?_)
      rw [Nat.zero_add] at arrives
      refine (Stands.ends arrives).mono fun after ended => ⟨ended.1, ended.2.trans ?_⟩
      rw [State.store, none]
      rfl
  | error stop last =>
      rw [result] at mirrors
      cases stop with
      | failed what =>
          obtain ⟨store, does, globals, output⟩ := mirrors
          rw [does] at enacts
          refine .throws (Disturbed.Leads.mono enacts fun later fails => ?_)
          obtain ⟨after, throws, same, printed⟩ := fails
          exact ⟨after, throws, same.trans globals, printed.trans output⟩
      | outOfFuel =>
          obtain ⟨store, does, -⟩ := mirrors
          rw [does] at enacts
          exact .lasts enacts
      | stuck => exact (unstuck_execDecls limit true program.decls imperative state last result).elim

/-- A source that is accepted in a session with an empty stack is loaded, and stands at its first
instruction. -/
theorem starts {H : Type} {observe : VM N → H → H} {nothing observed : H} {fuel : Nat} {source : Text}
    (program : Program N) (reaches : Attains platform observe nothing vm observed)
    (idle : vm.callFrames = []) (empty : vm.stack = [])
    (accepted : compile fuel source = .ok (program.functions.map LoweredFunction.assemble)) :
    ∃ made root loaded started,
      loadAll platform [] (program.functions.map LoweredFunction.assemble) vm =
        .ok (made ++ [root]) loaded ∧
      start platform root loaded = .ok () started ∧ program.Stands 0 (vm.state.store []) started := by
  obtain ⟨made, root, loaded, started, loads, starts⟩ := compile_starts reaches.sound accepted
  have stands := stands_start reaches.sound idle ⟨fuel, source, accepted⟩ loads starts
  have same : vm.store = vm.state.store [] := by
    simp [VM.store, VM.state, State.store, empty]
  exact ⟨made, root, loaded, started, loads, starts, same ▸ stands⟩

end Program

/-- An accepted source without functions and classes that begins with an empty stack runs as
its syntax tree is evaluated, whenever the machine collects, as long as the collections
complete. -/
theorem script_preserved {H : Type} {observe : VM N → H → H} {nothing observed : H} {fuel : Nat}
    {source : Text} {functions : List (Function (Constant N) Text)} {decls : Decls}
    (reaches : Attains platform observe nothing vm observed) (idle : vm.callFrames = [])
    (empty : vm.stack = []) (accepted : compile fuel source = .ok functions)
    (parses : parse fuel source = .ok decls) (imperative : decls.isImperative = true) :
    ∃ made root loaded started, loadAll platform [] functions vm = .ok (made ++ [root]) loaded ∧
      start platform root loaded = .ok () started ∧
      ∀ limit, RunsAs platform limit started (execDecls limit true decls vm.state) := by
  obtain ⟨program, -, rfl, rfl⟩ := Program.of_parse accepted parses
  obtain ⟨made, root, loaded, started, loads, starts, stands⟩ := program.starts reaches idle empty accepted
  exact ⟨made, root, loaded, started, loads, starts, fun limit => program.runs limit imperative rfl stands⟩

/-- What a program that ends has printed. -/
def printedBy : EStateM.Result (Stop Text) (State N) Unit → Option (List Text)
  | .ok _ state => some state.output
  | .error _ _ => none

theorem RunsAs.prints {limit : Nat} {result : EStateM.Result (Stop Text) (State N) Unit}
    {output : List Text} (runs : RunsAs platform limit vm result) (printed : printedBy result = some output) :
    (interpreter platform).Leads
      (fun after => after.callFrames = [] ∧ after.store.output = output) vm := by
  cases runs with
  | ends leads =>
      obtain rfl := Option.some.inj printed
      exact leads.mono fun after ends => ⟨ends.1, congrArg Store.output ends.2⟩
  | throws | lasts => cases printed

/-- The declarations of a source. -/
def declsOf (fuel : Nat) (source : Text) : Decls := (parse fuel source).toOption.getD .nil

theorem parse_declsOf {fuel : Nat} {source : Text} (accepted : (parse fuel source).isOk = true) :
    parse fuel source = .ok (declsOf fuel source) := by
  obtain ⟨decls, parses⟩ := exists_ok accepted
  rw [declsOf, parses]
  rfl

/-- A new machine runs a source with a loop, a block and a variable that shadows another. -/
theorem script_preserved_loop :
    let source :=
      "var n = 3; for (var a = 1; a < n; a = a + a) { var b = a; { var a = b + 1; print a; } }".toList
    let vm : VM Int := final (construct Platform.above) {}
    ∃ made root loaded started,
      loadAll Platform.above [] (functionsOf 60 source) vm = .ok (made ++ [root]) loaded ∧
      start Platform.above root loaded = .ok () started ∧
      (interpreter Platform.above).Leads
        (fun after => after.callFrames = [] ∧ after.store.output = ["2".toList, "3".toList]) started := by
  intro source vm
  have constructs : construct Platform.above ({} : VM Int) = .ok () vm :=
    run_of_thrown (by decide +kernel)
  have reaches : Attains Platform.above (fun _ => Nat.succ) 0 vm 0 := .construct constructs
  have accepted := compile_functionsOf
    (show (compile 60 source : Except Error (List (Function (Constant Int) Text))).isOk = true by
      decide +kernel)
  have parses := parse_declsOf (show (parse 60 source).isOk = true by decide +kernel)
  have idle : vm.callFrames = [] := List.length_eq_zero_iff.mp (by decide +kernel)
  have empty : vm.stack = [] := List.length_eq_zero_iff.mp (by decide +kernel)
  obtain ⟨made, root, loaded, started, loads, starts, runs⟩ := script_preserved reaches idle empty accepted
    parses (show (declsOf 60 source).isImperative = true by decide +kernel)
  exact ⟨made, root, loaded, started, loads, starts, (runs 6).prints (by decide +kernel)⟩

/-- The machine and the evaluator end with the same, throw the same, or both go on for ever. -/
inductive SameFate (platform : Platform N) (vm : VM N)
    (evaluate : Nat → EStateM.Result (Stop Text) (State N) Unit) : Prop
  | ends {limit : Nat} {last : State N} : evaluate limit = .ok () last →
      (interpreter platform).Leads
        (fun after => after.callFrames = [] ∧ after.store = ⟨[], last.globals, last.output⟩) vm →
      SameFate platform vm evaluate
  | throws {limit : Nat} {what : Text} {last : State N} : evaluate limit = .error (.failed what) last →
      (interpreter platform).Leads
        (fun later => ∃ after, step platform later = .error (.runtimeError what) after ∧
          after.store.globals = last.globals ∧ after.store.output = last.output) vm →
      SameFate platform vm evaluate
  | diverges : (∀ limit, ∃ last, evaluate limit = .error .outOfFuel last) →
      (∀ count, (interpreter platform).Lasts count vm) → SameFate platform vm evaluate

/-- The machine has the fate of the evaluator of a source without functions and classes. -/
theorem imperative_preserved {H : Type} {observe : VM N → H → H} {nothing observed : H} {fuel : Nat}
    {source : Text} {functions : List (Function (Constant N) Text)} {decls : Decls}
    (reaches : Attains platform observe nothing vm observed) (idle : vm.callFrames = [])
    (empty : vm.stack = []) (accepted : compile fuel source = .ok functions)
    (parses : parse fuel source = .ok decls) (imperative : decls.isImperative = true) :
    ∃ made root loaded started, loadAll platform [] functions vm = .ok (made ++ [root]) loaded ∧
      start platform root loaded = .ok () started ∧
      SameFate platform started fun limit => execDecls limit true decls vm.state := by
  obtain ⟨program, -, rfl, rfl⟩ := Program.of_parse accepted parses
  obtain ⟨made, root, loaded, started, loads, starts, stands⟩ := program.starts reaches idle empty accepted
  refine ⟨made, root, loaded, started, loads, starts, ?_⟩
  have runs (limit : Nat) :
      RunsAs platform limit started (execDecls limit true program.decls vm.state) :=
    program.runs limit imperative rfl stands
  by_cases forever : ∀ limit, ∃ last, execDecls limit true program.decls vm.state = .error .outOfFuel last
  · refine .diverges forever fun count => ?_
    obtain ⟨last, result⟩ := forever count
    have lasts := runs count
    rw [result] at lasts
    cases lasts with
    | lasts lasts => exact lasts
  · obtain ⟨limit, stops⟩ := not_forall.mp forever
    have outcome := runs limit
    cases result : execDecls limit true program.decls vm.state with
    | ok done last =>
        rw [result] at outcome
        cases outcome with
        | ends leads => exact .ends result leads
    | error stop last =>
        rw [result] at outcome
        cases outcome with
        | throws leads => exact .throws result leads
        | lasts => exact absurd ⟨last, result⟩ stops

/-- A new machine runs a loop that ends with an error. -/
theorem imperative_preserved_error :
    let source := "var a = 2; while (a > 0) { print a; a = a - 1; } print a + \"b\";".toList
    let vm : VM Int := final (construct Platform.above) {}
    ∃ made root loaded started,
      loadAll Platform.above [] (functionsOf 60 source) vm = .ok (made ++ [root]) loaded ∧
      start Platform.above root loaded = .ok () started ∧
      SameFate Platform.above started fun limit => execDecls limit true (declsOf 60 source) vm.state := by
  intro source vm
  have constructs : construct Platform.above ({} : VM Int) = .ok () vm :=
    run_of_thrown (by decide +kernel)
  have reaches : Attains Platform.above (fun _ => Nat.succ) 0 vm 0 := .construct constructs
  have accepted := compile_functionsOf
    (show (compile 60 source : Except Error (List (Function (Constant Int) Text))).isOk = true by
      decide +kernel)
  have parses := parse_declsOf (show (parse 60 source).isOk = true by decide +kernel)
  have idle : vm.callFrames = [] := List.length_eq_zero_iff.mp (by decide +kernel)
  have empty : vm.stack = [] := List.length_eq_zero_iff.mp (by decide +kernel)
  exact imperative_preserved reaches idle empty accepted parses
    (show (declsOf 60 source).isImperative = true by decide +kernel)

end Cpplox
