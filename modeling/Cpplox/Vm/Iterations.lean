import Cpplox.Vm.Typed

namespace Cpplox

open Data

/-! Runs of a number of iterations, which can be evaluated. -/

variable {N : Type} [Number N] {platform : Platform N} {vm after : VM N}

/-- A number of iterations of the loop. -/
def iterate (platform : Platform N) : Nat → VmM N Unit
  | 0 => return ()
  | count + 1 => do
      step platform
      iterate platform count

/-- The first iterations of a run of a compiled source. -/
def runFor (platform : Platform N) (functions : List (Function (Constant N) Text)) (count : Nat) :
    VmM N Unit := do
  match (← loadAll platform [] functions).getLast? with
  | some root => do
      start platform root
      iterate platform count
  | none => throw .undefined

section

variable {H : Type} {observe : VM N → H → H} {nothing observed : H}

theorem Attains.iterate {count : Nat} (reaches : Attains platform observe nothing vm observed)
    (runs : iterate platform count vm = .ok () after) :
    ∃ observed, Attains platform observe nothing after observed := by
  induction count generalizing vm observed with
  | zero =>
      obtain ⟨-, rfl⟩ := VmM.pure_ok.mp runs
      exact ⟨_, reaches⟩
  | succ count ih =>
      obtain ⟨done, middle, steps, runs⟩ := VmM.bind_ok.mp runs
      exact ih (reaches.step steps) runs

theorem Attains.runFor {fuel count : Nat} {source : Text} {functions : List (Function (Constant N) Text)}
    (reaches : Attains platform observe nothing vm observed) (idle : vm.callFrames = [])
    (accepted : compile fuel source = .ok functions)
    (runs : runFor platform functions count vm = .ok () after) :
    ∃ observed, Attains platform observe nothing after observed := by
  obtain ⟨all, loaded, loads, runs⟩ := VmM.bind_ok.mp runs
  cases last : all.getLast? with
  | none =>
      rw [last] at runs
      exact (VmM.throw_ok.mp runs).elim
  | some root =>
      rw [last] at runs
      obtain ⟨made, rfl⟩ := List.getLast?_eq_some_iff.mp last
      obtain ⟨done, started, starts, runs⟩ := VmM.bind_ok.mp runs
      exact (reaches.between (.run idle accepted loads starts)).iterate runs

end

/-- What an operation throws. -/
def thrown {A : Type} (operation : VmM N A) (vm : VM N) : Option VmError :=
  match operation vm with
  | .ok _ _ => none
  | .error error _ => some error

omit [Number N] in
theorem run_of_thrown {operation : VmM N Unit} (done : thrown operation vm = none) :
    operation vm = .ok () (final operation vm) := by
  unfold thrown at done
  cases runs : operation vm with
  | ok result later => rw [final_ok runs]
  | error error later =>
      rw [runs] at done
      cases done

omit [Number N] in
theorem error_of_thrown {A : Type} {operation : VmM N A} {error : VmError}
    (fails : thrown operation vm = some error) : operation vm = .error error (final operation vm) := by
  unfold thrown at fails
  cases runs : operation vm with
  | ok result later =>
      rw [runs] at fails
      cases fails
  | error other later =>
      rw [runs] at fails
      cases fails
      rw [final_error runs]

/-- The functions of a source. -/
def functionsOf (fuel : Nat) (source : Text) : List (Function (Constant N) Text) :=
  (compile fuel source).toOption.getD []

theorem compile_functionsOf {fuel : Nat} {source : Text}
    (accepted : (compile fuel source : Except Error (List (Function (Constant N) Text))).isOk = true) :
    compile fuel source = .ok (functionsOf fuel source : List (Function (Constant N) Text)) := by
  obtain ⟨functions, compiles⟩ := exists_ok accepted
  rw [functionsOf, compiles]
  rfl

/-- A new machine runs a source for some iterations. -/
def demonstrate (platform : Platform N) (fuel : Nat) (source : Text) (count : Nat) : VM N :=
  final (do
    construct platform
    runFor platform (functionsOf fuel source) count) {}

theorem attains_demonstrate {H : Type} (observe : VM N → H → H) (nothing : H) {fuel count : Nat}
    {source : Text}
    (accepted : (compile fuel source : Except Error (List (Function (Constant N) Text))).isOk = true)
    (done : thrown (do
      construct platform
      runFor platform (functionsOf fuel source) count) ({} : VM N) = none) :
    ∃ observed, Attains platform observe nothing (demonstrate platform fuel source count) observed := by
  obtain ⟨result, made, constructs, runs⟩ := VmM.bind_ok.mp (run_of_thrown done)
  have idle : made.callFrames = [] := by
    obtain ⟨name, named, interns, rfl⟩ := construct_ok constructs
    rcases intern_ok.mp interns with ⟨-, rfl⟩ | ⟨-, -, rfl⟩ <;> rfl
  exact (Attains.construct constructs).runFor idle (compile_functionsOf accepted) runs

end Cpplox
