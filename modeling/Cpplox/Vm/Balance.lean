import Cpplox.Bytecode.Discipline
import Cpplox.Scoping.Beginnings
import Cpplox.Vm.Calls

namespace Cpplox

open Data Structured Lower

/-! The balance of the stack: in the bytecode of a source, and over calls. -/

/-- Every path to an offset arrives with one height; no instruction takes what was there
on entry but a `return_`, which finds a value above it; and all locals that an instruction
refers to are below the height. -/
structure KeepsHeight (bytecode : List Nat) (entryHeight : Nat) : Prop where
  unique : ∀ offset height other, Reaches bytecode entryHeight offset height →
    Reaches bytecode entryHeight offset other → height = other
  decodes : ∀ offset height, Reaches bytecode entryHeight offset height →
    offset = bytecode.length ∨ ∃ instr size, decode (bytecode.drop offset) = some (instr, size)
  pops : ∀ offset height instr size, Reaches bytecode entryHeight offset height →
    decode (bytecode.drop offset) = some (instr, size) → instr.pops ≠ 0 →
    entryHeight + instr.pops ≤ height
  operands : ∀ offset height instr size, Reaches bytecode entryHeight offset height →
    decode (bytecode.drop offset) = some (instr, size) → ∀ index ∈ instr.localOperands, index < height

variable {N : Type}

/-- The only thing that may go wrong is a local captured by the function its own
initializer begins with. -/
theorem LoweredFunction.Verified.keepsHeight {function : LoweredFunction N}
    {functions : List (LoweredFunction N)} {entry : List TrackedLocal}
    {listing : Listing Emission JumpTag Context}
    (verified : function.Verified functions entry listing) (fits : function.Fits) :
    KeepsHeight function.assemble.chunk.bytecode function.entryHeight ↔ ¬ function.CapturesOwn := by
  have captures : function.CapturesOwn ↔ ∃ emission ∈ function.code.attained Emission.stops,
      emission.CapturesOwnLocal function.kind := by
    constructor
    · rintro ⟨kind, -, emission, member, captures⟩
      exact ⟨emission, member, kind, captures⟩
    · rintro ⟨emission, member, kind, captures⟩
      exact ⟨kind, rfl, emission, member, captures⟩
  rw [captures]
  constructor
  · rintro keeps ⟨emission, member, owns⟩
    exact (verified.operands_iff fits).mp keeps.operands emission member owns
  · intro free
    have disciplined := verified.disciplined fits
    exact ⟨disciplined.unique, disciplined.decodes, disciplined.pops,
      (verified.operands_iff fits).mpr fun emission member owns => free ⟨emission, member, owns⟩⟩

variable [Number N]

/-- Every function keeps its height, from the callee or the receiver and its arguments on,
the root script from nothing; and that has nothing on the stack between its declarations
and at its end. -/
def Balanced (decls : Decls) (code : LoweredCode) (l : Lower N) : Prop :=
  (∀ function ∈ l.functions,
    KeepsHeight function.assemble.chunk.bytecode (function.assemble.arity + 1)) ∧
  KeepsHeight (l.script code).assemble.chunk.bytecode 0 ∧
  (∀ height, Reaches (l.script code).assemble.chunk.bytecode 0
    (l.script code).assemble.chunk.bytecode.length height → height = 0) ∧
  ∀ earlier later, decls = earlier.append later → ∃ (first : LoweredCode) (middle : Lower N),
    Lowers {} (.decls earlier) first middle ∧
    ∀ height, Reaches (l.script code).assemble.chunk.bytecode 0 (first.extent layout) height →
      height = 0

/-- In every session a call that completes leaves one value in the place of the callee and
the arguments. -/
def Platform.CallsBalance (platform : Platform N) : Prop :=
  ∀ (vm called after : VM N) (frame : Frame) (callers : List Frame) (fetched : Fetched N)
    (argCount : Nat), Attains platform (fun _ _ => ()) () vm () →
    vm.callFrames = frame :: callers → vm.fetch? = some fetched →
    fetched.instr = .operand .call argCount → step platform vm = .ok () called →
    Above platform ({ frame with bytecodeIndex := frame.bytecodeIndex + fetched.size } :: callers)
      called after →
    after.callFrames =
      { frame with bytecodeIndex := frame.bytecodeIndex + fetched.size } :: callers →
    after.stack.length + argCount = vm.stack.length

theorem Platform.callsBalance (platform : Platform N) : platform.CallsBalance :=
  fun _ _ _ _ _ _ _ reaches frames fetches calls steps above returns =>
    call_completed reaches frames fetches calls steps above returns

/-- Apart from captures of locals by the functions their own initializers begin with, all
is balanced. -/
theorem Lower.Lowers.balanced {decls : Decls} {code : LoweredCode} {l : Lower N}
    (lowers : Lowers ({} : Lower N) (.decls decls) code l)
    (fits : ∀ function ∈ l.functions ++ [l.script code], function.Fits) :
    Balanced decls code l ↔ ∀ entry ∈ decls.beginnings true {}, ¬ entry.Premature := by
  have keeps (function : LoweredFunction N) (member : function ∈ l.functions ++ [l.script code]) :
      KeepsHeight function.assemble.chunk.bytecode function.entryHeight ↔ ¬ function.CapturesOwn := by
    obtain ⟨entry, listing, verified⟩ := (lowers.certified_program function member).verified
    exact verified.keepsHeight (fits function member)
  have entered (function : LoweredFunction N) (member : function ∈ l.functions) :
      function.entryHeight = function.assemble.arity + 1 :=
    if_neg (lowers.certified_functions function member).1
  have isRoot : l.script code ∈ l.functions ++ [l.script code] := by simp
  obtain ⟨entry, listing, script⟩ := (lowers.certified_program _ isRoot).verified
  obtain ⟨made, functions, premature⟩ := lowers.begins ready_program true False.elim
  have all : (∃ entry ∈ decls.beginnings true {}, entry.Premature) ↔
      Owns true code ∨ ∃ function ∈ l.functions, function.CapturesOwn := by
    rw [functions]
    exact premature
  have root : (l.script code).CapturesOwn ↔ Owns true code :=
    and_iff_right (show FunctionKind.script ≠ .expression by decide)
  constructor
  · rintro ⟨inner, outer, -, -⟩ entry member early
    rcases all.mp ⟨entry, member, early⟩ with owns | ⟨function, inside, captures⟩
    · exact (keeps _ isRoot).mp outer (root.mpr owns)
    · have balanced := inner function inside
      rw [← entered function inside] at balanced
      exact (keeps function (List.mem_append_left _ inside)).mp balanced captures
  · intro free
    have none : ¬ (Owns true code ∨ ∃ function ∈ l.functions, function.CapturesOwn) := by
      rw [← all]
      rintro ⟨entry, member, early⟩
      exact free entry member early
    refine ⟨fun function inside => ?_, (keeps _ isRoot).mpr fun owns => none (.inl (root.mp owns)),
      fun height reaches => (script.reaches_end (fits _ isRoot) reaches).2, fun earlier later split => ?_⟩
    · rw [← entered function inside]
      exact (keeps function (List.mem_append_left _ inside)).mpr fun captures =>
        none (.inr ⟨function, inside, captures⟩)
    · subst split
      exact lowers.height_between (fits _ isRoot)

/-- The stack is balanced exactly when no initializer of a local, where control may come in
a function with the callee or the receiver in slot 0, begins with a function expression that
uses the local. -/
theorem compile_balanced {fuel : Nat} {source : Text} {functions : List (Function (Constant N) Text)}
    (accepted : compile fuel source = .ok functions) (platform : Platform N) :
    ∃ (decls : Decls) (code : LoweredCode) (l : Lower N), parse fuel source = .ok decls ∧
      Lowers {} (.decls decls) code l ∧
      functions = (l.functions ++ [l.script code]).map LoweredFunction.assemble ∧
      (Balanced decls code l ∧ platform.CallsBalance ↔
        ∀ entry ∈ decls.beginnings true {}, ¬ entry.Premature) := by
  obtain ⟨decls, code, l, parses, lowers, assembles⟩ := compile_factors accepted
  refine ⟨decls, code, l, parses, lowers, assembles.made, ?_⟩
  rw [and_iff_left platform.callsBalance]
  exact lowers.balanced assembles.fits

def balancedSource : Text :=
  "fun f(a) { var b = fun (c) { return a; }; while (a) { var d = b; a = d; } return b; }
  { var e = f(f); var g = 1 + fun () { return g; }; }".toList

/-- The last function uses its own variable, but there is a value on the stack already. -/
theorem compile_balanced_behind : ∃ functions : List (Function (Constant Int) Text),
    compile 60 balancedSource = .ok functions ∧
    ∃ (decls : Decls) (code : LoweredCode) (l : Lower Int), parse 60 balancedSource = .ok decls ∧
      Lowers {} (.decls decls) code l ∧
      functions = (l.functions ++ [l.script code]).map LoweredFunction.assemble ∧
      (Balanced decls code l ∧ Platform.above.CallsBalance ↔
        ∀ entry ∈ decls.beginnings true {}, ¬ entry.Premature) := by
  have succeeds : (compile 60 balancedSource :
      Except Error (List (Function (Constant Int) Text))).isOk = true := by decide +kernel
  obtain ⟨functions, accepted⟩ := exists_ok succeeds
  exact ⟨functions, accepted, compile_balanced accepted Platform.above⟩

/-- The first instruction captures slot 0 of the empty stack. -/
theorem compile_not_balanced : ∃ (functions : List (Function (Constant Int) Text)) (decls : Decls)
    (code : LoweredCode) (l : Lower Int), compile 40 ownInitializerSource = .ok functions ∧
    parse 40 ownInitializerSource = .ok decls ∧ Lowers {} (.decls decls) code l ∧
    functions = (l.functions ++ [l.script code]).map LoweredFunction.assemble ∧
    ¬ Balanced decls code l := by
  have succeeds : (compile 40 ownInitializerSource :
      Except Error (List (Function (Constant Int) Text))).isOk = true := by decide +kernel
  have first : ((compile 40 ownInitializerSource :
      Except Error (List (Function (Constant Int) Text))).toOption.bind (·.getLast?)).bind
        (fun script => decode (script.chunk.bytecode.drop 0)) =
      some (.closure 0 [.upvalueIndex 0], 5) := by decide +kernel
  obtain ⟨functions, accepted⟩ := exists_ok succeeds
  obtain ⟨decls, code, l, parses, lowers, assembles⟩ := compile_factors accepted
  refine ⟨functions, decls, code, l, accepted, parses, lowers, assembles.made, fun balanced => ?_⟩
  rw [accepted, assembles.made] at first
  have found : decode ((l.script code).assemble.chunk.bytecode.drop 0) =
      some (.closure 0 [.upvalueIndex 0], 5) := by simpa [Except.toOption] using first
  exact absurd (balanced.2.1.operands 0 0 _ _ .refl found 0 (by decide)) (by decide)

end Cpplox
