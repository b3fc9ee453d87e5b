import Cpplox.Contexts.Numbering
import Cpplox.Vm.Defined
import Cpplox.Vm.Iterations

namespace Cpplox

open Structured Data

/-! Every accepted source is loaded and runs, and its behaviour is always defined. -/
variable {N : Type} [Number N] {platform : Platform N} {vm after : VM N} {made : List Ptr} {root : Ptr}
  {allowed : VmError → Prop}

omit [Number N] in
theorem confined_intern_last {vm : VM N} (interned : vm.Interned) (chars : Text) :
    Confined allowed (intern platform chars) vm := by
  obtain ⟨ptr, after, runs, -⟩ := interned.intern platform chars
  exact .of_ok runs

theorem confined_loadConstant {constant : Constant N} (interned : vm.Interned)
    (refers : constant.Made made.length) :
    Confined allowed (loadConstant platform made constant) vm := by
  cases constant with
  | number => exact .pure _ _
  | string chars => exact .bind (confined_intern_last interned chars) fun _ _ _ => .pure _ _
  | function position =>
      simp only [loadConstant]
      rw [List.getElem?_eq_getElem (show position < made.length from refers)]
      exact .pure _ _

theorem confined_loadConstants {constants : List (Constant N)} (interned : vm.Interned) (typed : vm.Typed)
    (functions : ∀ ptr ∈ made, vm.gcHeap.HasKind ptr .function) (refers : Refers made.length constants) :
    Confined allowed (loadConstants platform made constants) vm := by
  induction constants generalizing vm with
  | nil => exact .pure _ _
  | cons constant rest ih =>
      refine .bind (confined_loadConstant interned (refers constant List.mem_cons_self))
        fun value middle runs => ?_
      obtain ⟨loads, -⟩ := loadConstant_ok interned typed functions runs
      exact .bind (ih loads.interned loads.typed
        (fun ptr member => loads.extends_.hasKind (functions ptr member))
        fun other member => refers other (List.mem_cons_of_mem _ member)) fun _ _ _ => .pure _ _

omit [Number N] in
theorem confined_loadTokens {tokens : List (SourceMapToken Text)} (interned : vm.Interned)
    (typed : vm.Typed) : Confined allowed (loadTokens platform tokens) vm := by
  induction tokens generalizing vm with
  | nil => exact .pure _ _
  | cons token rest ih =>
      refine .bind (confined_intern_last interned _) fun lexeme middle runs => ?_
      have loads := intern_loads interned typed runs
      exact .bind (ih loads.interned loads.typed) fun _ _ _ => .pure _ _

theorem confined_loadFunction {function : Function (Constant N) Text} (interned : vm.Interned)
    (typed : vm.Typed) (functions : ∀ ptr ∈ made, vm.gcHeap.HasKind ptr .function)
    (refers : Refers made.length function.chunk.constants) :
    Confined allowed (loadFunction platform made function) vm := by
  refine .bind (confined_intern_last interned _) fun name named interns => ?_
  have loads := intern_loads interned typed interns
  have still : ∀ ptr ∈ made, named.gcHeap.HasKind ptr .function :=
    fun ptr member => loads.extends_.hasKind (functions ptr member)
  refine .bind (confined_loadConstants loads.interned loads.typed still refers) fun values middle runs => ?_
  obtain ⟨loads, -⟩ := loadConstants_ok loads.interned loads.typed still runs
  refine .bind (confined_loadTokens loads.interned loads.typed) fun tokens last runs => ?_
  exact .of_ok (make_ok.mpr ⟨rfl, rfl⟩)

/-- Functions that refer to earlier ones are all loaded. -/
theorem confined_loadAll {functions : List (Function (Constant N) Text)} (interned : vm.Interned)
    (typed : vm.Typed) (before : ∀ ptr ∈ made, vm.gcHeap.HasKind ptr .function)
    (refers : ∀ index function, functions[index]? = some function →
      Refers (made.length + index) function.chunk.constants) :
    Confined allowed (loadAll platform made functions) vm := by
  induction functions generalizing vm made with
  | nil => exact .pure _ _
  | cons function rest ih =>
      refine .bind (confined_loadFunction interned typed before (refers 0 function rfl))
        fun ptr middle runs => ?_
      obtain ⟨loads, ⟨object, found, -⟩, -⟩ := loadFunction_ok interned typed before runs
      refine ih loads.interned loads.typed (fun other member => ?_) fun index other at_ => ?_
      · rcases List.mem_append.mp member with old | new
        · exact loads.extends_.hasKind (before other old)
        · rw [List.mem_singleton.mp new]
          exact ⟨_, found, rfl⟩
      · have later := refers (index + 1) other at_
        rwa [List.length_append, List.length_singleton, Nat.add_assoc, Nat.add_comm 1 index]

omit [Number N] in
theorem loadAll_length {functions : List (Function (Constant N) Text)} {all : List Ptr}
    (loads : loadAll platform made functions vm = .ok all after) :
    all.length = made.length + functions.length := by
  induction functions generalizing vm made with
  | nil =>
      obtain ⟨rfl, -⟩ := VmM.pure_ok.mp loads
      rfl
  | cons function rest ih =>
      obtain ⟨ptr, middle, -, loads⟩ := VmM.bind_ok.mp loads
      rw [ih loads, List.length_append, List.length_singleton, List.length_cons]
      omega

/-- A source that is accepted can be started. -/
theorem compile_starts {fuel : Nat} {source : Text} {functions : List (Function (Constant N) Text)}
    (sound : vm.Sound) (accepted : compile fuel source = .ok functions) :
    ∃ made root loaded started, loadAll platform [] functions vm = .ok (made ++ [root]) loaded ∧
      start platform root loaded = .ok () started := by
  obtain ⟨program, -, rfl⟩ := Program.of_compile accepted
  have refers (index : Nat) (function : Function (Constant N) Text)
      (at_ : (program.functions.map LoweredFunction.assemble)[index]? = some function) :
      Refers (([] : List Ptr).length + index) function.chunk.constants := by
    rw [List.getElem?_map, Option.map_eq_some_iff] at at_
    obtain ⟨lowered, at_, rfl⟩ := at_
    rw [List.length_nil, Nat.zero_add]
    exact program.lowers.numbered_program index lowered at_
  have confined : Confined (fun _ => False)
      (loadAll platform [] (program.functions.map LoweredFunction.assemble)) vm :=
    confined_loadAll sound.interned sound.typed (by simp) refers
  obtain ⟨all, loaded, loads⟩ := confined.succeeds
  have some_ : all ≠ [] := by
    intro none
    have length := loadAll_length loads
    rw [none] at length
    simp [Program.functions] at length
  refine ⟨all.dropLast, all.getLast some_, loaded, _, ?_, start_ok.mpr rfl⟩
  rw [List.dropLast_concat_getLast, loads]

/-- In every state of a session an instruction does what it does, or throws what it may throw;
a collection is completed, or meets an open upvalue whose slot is gone; and a source that is
accepted is loaded, and starts. -/
theorem session_defined {H : Type} {observe : VM N → H → H} {nothing observed : H}
    (reaches : Attains platform observe nothing vm observed) :
    (∀ error after, step platform vm = .error error after → error ≠ .undefined ∧
      ∃ fetched running, vm.fetch? = some fetched ∧
        vm.gcHeap.valueAt fetched.activation.closure = some (.closure running) ∧
        fetched.instr.Throws vm running error) ∧
    (∀ error, (∃ after, collect platform vm = .error error after) ↔
      error = .outOfRange ∧ ∃ ptr, vm.Kept ptr ∧ vm.GoneAt ptr) ∧
    ∀ fuel source functions, compile fuel source = .ok functions →
      ∃ made root loaded started, loadAll platform [] functions vm = .ok (made ++ [root]) loaded ∧
        start platform root loaded = .ok () started := by
  refine ⟨fun error after fails => ?_, fun error => collect_error reaches.sound.interned,
    fun fuel source functions accepted => compile_starts reaches.sound accepted⟩
  obtain ⟨fetched, running, fetches, live, throws⟩ :=
    step_confined reaches.sound reaches.standing reaches.declares error after fails
  exact ⟨throws.defined, fetched, running, fetches, live, throws⟩

/-- A function that makes a closure of its local is called for the second time. -/
theorem session_defined_again :
    let vm : VM Int := demonstrate Platform.above 60
      "fun f() { var a = 1; fun g() { return a; } return g; } f(); f();".toList 12
    step Platform.above vm = .error .badVariantAccess (final (step Platform.above) vm) ∧
      VmError.badVariantAccess ≠ .undefined ∧ ∃ fetched running, vm.fetch? = some fetched ∧
        vm.gcHeap.valueAt fetched.activation.closure = some (.closure running) ∧
        fetched.instr.Throws vm running .badVariantAccess := by
  intro vm
  obtain ⟨observed, reaches⟩ := attains_demonstrate (fun (_ : VM Int) => Nat.succ) 0
    (show (compile 60 "fun f() { var a = 1; fun g() { return a; } return g; } f(); f();".toList :
      Except Error (List (Function (Constant Int) Text))).isOk = true by decide +kernel)
    (show thrown (do
      construct Platform.above
      runFor Platform.above (functionsOf 60
        "fun f() { var a = 1; fun g() { return a; } return g; } f(); f();".toList) 12)
        ({} : VM Int) = none by decide +kernel)
  have fails : step Platform.above vm = .error .badVariantAccess (final (step Platform.above) vm) :=
    error_of_thrown (show thrown (step Platform.above) vm = some .badVariantAccess by decide +kernel)
  exact ⟨fails, (session_defined reaches).1 _ _ fails⟩

end Cpplox
