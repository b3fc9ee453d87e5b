import Cpplox.Ast.FactorStatements
import Cpplox.Bytecode.Decoding
import Cpplox.Integers

namespace Cpplox

open Structured

/-! Well-formed bytecode: what `VM::run` relies on without a check. -/

namespace Instr

/-- Where an instruction at an offset may jump to. -/
def target? (offset : Nat) : Instr → Option Nat
  | jump .loop distance => if distance ≤ offset + 3 then some (offset + 3 - distance) else none
  | jump _ distance => some (offset + 3 + distance)
  | _ => none

/-- The upvalues of the function that an instruction refers to. -/
def upvalueOperands : Instr → List Nat
  | operand .getUpvalue index => [index]
  | operand .setUpvalue index => [index]
  | closure _ captures => captures.filterMap fun capture =>
      match capture with
      | .upUpvalueIndex index => some index
      | .upvalueIndex _ => none
  | _ => []

end Instr

namespace Function

variable {N : Type}

/-- A function never refers to an upvalue beyond a number of them. -/
def UpvaluesBelow (count : Nat) (function : Function (Constant N) Text) : Prop :=
  ∀ instrs, Decodes function.chunk.bytecode 0 instrs → ∀ offset instr, (offset, instr) ∈ instrs →
    ∀ index ∈ instr.upvalueOperands, index < count

/-- The constants an instruction refers to are there, of the kind it takes; a function is
closed over at least as many upvalues as it refers to. -/
def HasConstants (functions : List (Function (Constant N) Text)) (constants : List (Constant N)) :
    Instr → Prop
  | .operand opcode index =>
      match opcode with
      | .constant => (∃ value, constants[index]? = some (.number value)) ∨
          ∃ chars, constants[index]? = some (.string chars)
      | .getGlobal | .defineGlobal | .setGlobal | .getProperty | .setProperty | .getSuper
      | .class_ | .method => ∃ chars, constants[index]? = some (.string chars)
      | _ => True
  | .closure constant captures => ∃ position function,
      constants[constant]? = some (.function position) ∧ functions[position]? = some function ∧
        function.UpvaluesBelow captures.length
  | _ => True

/-- A function among the functions of a program. -/
structure WellFormed (functions : List (Function (Constant N) Text))
    (function : Function (Constant N) Text) (instrs : List (Nat × Instr)) : Prop where
  decodes : Decodes function.chunk.bytecode 0 instrs
  handled : ∀ offset instr, (offset, instr) ∈ instrs → instr.Fits
  targets : ∀ offset opcode distance, (offset, .jump opcode distance) ∈ instrs →
    ∃ target, (Instr.jump opcode distance).target? offset = some target ∧
      (target = function.chunk.bytecode.length ∨ ∃ instr, (target, instr) ∈ instrs)
  patched : ∀ offset opcode distance, (offset, .jump opcode distance) ∈ instrs → distance ≠ 0
  constants : ∀ offset instr, (offset, instr) ∈ instrs →
    HasConstants functions function.chunk.constants instr

/-- The last instruction is `return_`, and no jump goes beyond it. -/
structure Returns (function : Function (Constant N) Text) (instrs : List (Nat × Instr)) : Prop where
  last : ∃ front offset, instrs = front ++ [(offset, .simple .return_)]
  targets : ∀ offset instr target, (offset, instr) ∈ instrs → instr.target? offset = some target →
    target ≠ function.chunk.bytecode.length

end Function

namespace LoweredFunction

variable {N : Type} {function : LoweredFunction N} {functions : List (LoweredFunction N)}
  {entry : List TrackedLocal} {listing : Listing Emission JumpTag Context}

namespace Verified

/-- What the listing says of an instruction that does not jump. -/
theorem executes {offset : Nat} {context : Context} {emission : Emission}
    (verified : function.Verified functions entry listing)
    (found : EntryAt layout listing offset (context, .plain emission)) :
    ∃ slots after, context = .live slots ∧
      (function.surroundings functions).Executes slots emission after ∧
      Arrives layout (function.surroundings functions).typing function.exit listing
        (offset + emission.instr.size) after := by
  obtain ⟨after, ⟨slots, rfl, executes⟩, arrives⟩ := verified.verified _ _ _ found
  exact ⟨slots, after, rfl, executes, arrives⟩

/-- Where a context arrives there is an instruction, or the end of the root script. -/
theorem arrives_cases {offset : Nat} {slots : List Slot}
    (verified : function.Verified functions entry listing)
    (arrives : Arrives layout (function.surroundings functions).typing function.exit listing offset
      (.live slots)) :
    (offset = function.assemble.chunk.bytecode.length ∧ function.kind = .script ∧ slots = []) ∨
      ∃ written flat, EntryAt layout listing offset (.live written, flat) ∧
        Context.Le (.live slots) (.live written) := by
  obtain ⟨written, found, le⟩ := arrives
  rcases Listing.contextAt_cases found with ⟨rfl, rfl⟩ | ⟨earlier, flat, later, rfl, rfl⟩
  · refine .inl ⟨verified.length_bytecode.symm, ?_⟩
    unfold exit at le
    split at le
    next script =>
        refine ⟨script, ?_⟩
        cases le
        rfl
    next => cases le
  · cases written with
    | live written => exact .inr ⟨written, flat, ⟨earlier, later, rfl, rfl⟩, le⟩
    | ended => cases le

/-- A context that jumps is live, and arrives where it jumps to. -/
theorem jumps {offset distance : Nat} {context : Context} {opcode : Opcode} {flat : LoweredFlat}
    (verified : function.Verified functions entry listing)
    (found : EntryAt layout listing offset (context, flat))
    (instr : LoweredFlat.instr flat = .jump opcode distance) :
    ∃ slots target, context = .live slots ∧
      (Instr.jump opcode distance).target? offset = some target ∧
      Arrives layout (function.surroundings functions).typing function.exit listing target
        (.live slots) := by
  have steps := verified.verified _ _ _ found
  cases flat with
  | plain emission =>
      obtain ⟨slots, after, rfl, executes, -⟩ := verified.executes found
      have refers := executes.refers
      simp only [LoweredFlat.instr] at instr
      simp only [Surroundings.Refers, instr] at refers
  | jump tag other =>
      cases instr
      obtain ⟨⟨slots, rfl, -⟩, arrives⟩ := steps
      exact ⟨slots, _, rfl, rfl, arrives⟩
  | jumpIfFalse tag other =>
      cases instr
      obtain ⟨⟨slots, rfl, -⟩, -, arrives⟩ := steps
      exact ⟨slots, _, rfl, rfl, arrives⟩
  | loop tag other =>
      cases instr
      obtain ⟨⟨slots, rfl, -⟩, target, back, arrives⟩ := steps
      have size : layout.jumpSize = 3 := rfl
      refine ⟨slots, target, rfl, ?_, arrives⟩
      rw [Instr.target?, if_pos (by omega)]
      exact congrArg some (by omega)

end Verified

/-- The number of upvalues a function is closed over bounds those it refers to. -/
theorem Certified.upvaluesBelow (certified : function.Certified functions)
    (fits : function.Fits) : function.assemble.UpvaluesBelow function.captures.length := by
  obtain ⟨entry, listing, verified⟩ := certified.verified
  intro instrs decodes offset instr member index refers
  obtain rfl := decodes.unique (verified.decodes fits)
  obtain ⟨context, flat, found, rfl⟩ := mem_placed.mp member
  cases flat with
  | jump | jumpIfFalse | loop => cases refers
  | plain emission =>
      obtain ⟨slots, after, rfl, executes, -⟩ := verified.executes found
      have operands := executes.refers
      rw [LoweredFlat.instr] at refers
      unfold Surroundings.Refers at operands
      cases known : emission.instr with
      | simple | jump | unexpected => rw [known] at refers; cases refers
      | operand opcode other =>
          rw [known] at refers operands
          cases opcode <;> first
            | cases refers; done
            | obtain rfl := List.mem_singleton.mp refers; exact operands
      | closure constant captures =>
          rw [known] at refers operands
          obtain ⟨capture, inside, same⟩ := List.mem_filterMap.mp refers
          have captured := operands.2 capture inside
          cases capture with
          | upvalueIndex => cases same
          | upUpvalueIndex =>
              cases same
              exact captured

/-- What the code refers to is among the constants, and the functions in them are
certified as well. -/
theorem Verified.hasConstants (verified : function.Verified functions entry listing)
    (all : ∀ other ∈ functions, other.Certified functions ∧ other.Fits)
    {offset : Nat} {context : Context} {flat : LoweredFlat}
    (found : EntryAt layout listing offset (context, flat)) :
    Function.HasConstants (functions.map assemble) function.constants (LoweredFlat.instr flat) := by
  cases flat with
  | jump | jumpIfFalse | loop => trivial
  | plain emission =>
      obtain ⟨slots, after, rfl, executes, -⟩ := verified.executes found
      have operands := executes.refers
      rw [LoweredFlat.instr]
      unfold Surroundings.Refers at operands
      cases known : emission.instr with
      | simple | jump | unexpected => trivial
      | operand opcode index =>
          rw [known] at operands
          cases opcode <;> first
            | exact operands
            | exact ⟨_, operands.choose_spec.1⟩
            | trivial
      | closure constant captures =>
          rw [known] at operands
          obtain ⟨⟨position, other, constant, at_, rfl⟩, -⟩ := operands
          obtain ⟨certified, fits⟩ := all other (List.mem_of_getElem? at_)
          refine ⟨position, other.assemble, constant, ?_, certified.upvaluesBelow fits⟩
          have here : functions[position]? = some other := at_
          rw [List.getElem?_map, here]
          rfl

theorem Certified.wellFormed (certified : function.Certified functions) (fits : function.Fits)
    (all : ∀ other ∈ functions, other.Certified functions ∧ other.Fits) :
    ∃ instrs, function.assemble.WellFormed (functions.map assemble) instrs ∧
      (function.kind ≠ .script → function.assemble.Returns instrs) := by
  obtain ⟨entry, listing, verified⟩ := certified.verified
  refine ⟨_, ⟨verified.decodes fits, ?_, ?_, ?_, ?_⟩, fun notScript => ⟨?_, ?_⟩⟩
  · intro offset instr member
    obtain ⟨context, flat, found, rfl⟩ := mem_placed.mp member
    obtain ⟨earlier, later, split, -⟩ := verified.entry_flats found
    exact fits flat (by simp [split])
  · intro offset opcode distance member
    obtain ⟨context, flat, found, same⟩ := mem_placed.mp member
    obtain ⟨slots, target, rfl, goes, arrives⟩ := verified.jumps found same
    refine ⟨target, goes, ?_⟩
    rcases verified.arrives_cases arrives with ⟨atEnd, -⟩ | ⟨written, next, there, -⟩
    · exact .inl atEnd
    · exact .inr ⟨_, mem_placed.mpr ⟨_, next, there, rfl⟩⟩
  · intro offset opcode distance member
    obtain ⟨context, flat, found, same⟩ := mem_placed.mp member
    obtain ⟨earlier, later, split, -⟩ := verified.entry_flats found
    have distances := Code.Filled.distances layout certified.filled flat (by
      rw [show function.code.flatten layout = _ from split]
      simp)
    cases flat with
    | plain emission =>
        obtain ⟨slots, after, rfl, executes, -⟩ := verified.executes found
        have refers := executes.refers
        rw [LoweredFlat.instr] at same
        simp only [Surroundings.Refers, same] at refers
    | jump | jumpIfFalse | loop =>
        cases same
        exact Nat.ne_of_gt (distances distance rfl)
  · intro offset instr member
    obtain ⟨context, flat, found, rfl⟩ := mem_placed.mp member
    exact verified.hasConstants all found
  · obtain ⟨front, emission, split, returns⟩ := certified.returns notScript
    rw [verified.flats, split, placed_append]
    refine ⟨placed 0 front, 0 + extent layout front, ?_⟩
    simp [placed, LoweredFlat.instr, returns]
  · intro offset instr target member goes
    obtain ⟨context, flat, found, same⟩ := mem_placed.mp member
    cases instr with
    | jump opcode distance =>
        obtain ⟨slots, other, rfl, laterGoes, arrives⟩ := verified.jumps found same
        rw [goes] at laterGoes
        cases laterGoes
        rcases verified.arrives_cases arrives with ⟨-, script, -⟩ | ⟨written, next, there, -⟩
        · exact absurd script notScript
        · obtain ⟨earlier, later, split, rfl⟩ := there
          have positive := next.size_pos layout
          rw [verified.length_bytecode, split]
          simp only [Listing.extent_append, Listing.extent_cons]
          omega
    | simple | operand | closure | unexpected => cases goes

end LoweredFunction

variable {N : Type} [Number N]

/-- Everything the compiler makes of a source is well formed. -/
theorem compile_wellFormed {fuel : Nat} {source : Text}
    {functions : List (Function (Constant N) Text)}
    (accepted : compile fuel source = .ok functions) :
    ∃ inner root, functions = inner ++ [root] ∧ root.UpvaluesBelow 0 ∧
      (∃ instrs, root.WellFormed functions instrs) ∧
      ∀ function ∈ inner, ∃ instrs, function.WellFormed functions instrs ∧ function.Returns instrs := by
  obtain ⟨decls, code, l, -, lowers, assembles⟩ := compile_factors accepted
  have certified := lowers.certified_program
  have all : ∀ other ∈ l.functions ++ [l.script code],
      other.Certified (l.functions ++ [l.script code]) ∧ other.Fits :=
    fun other member => ⟨certified other member, assembles.fits other member⟩
  have root := all (l.script code) (by simp)
  refine ⟨l.functions.map LoweredFunction.assemble, (l.script code).assemble, ?_, ?_, ?_, ?_⟩
  · simp [assembles.made]
  · exact root.1.upvaluesBelow root.2
  · obtain ⟨instrs, wellFormed, -⟩ := root.1.wellFormed root.2 all
    exact ⟨instrs, assembles.made ▸ wellFormed⟩
  · intro function member
    obtain ⟨lowered, inside, rfl⟩ := List.mem_map.mp member
    obtain ⟨certified, fits⟩ := all lowered (List.mem_append_left _ inside)
    obtain ⟨instrs, wellFormed, returns⟩ := certified.wellFormed fits all
    exact ⟨instrs, assembles.made ▸ wellFormed, returns (lowers.certified_functions lowered inside).1⟩

theorem compile_wellFormed_closure : ∃ functions : List (Function (Constant Int) Text),
    compile 40 "fun f(a) { if (a) return fun () { return a; }; } print f(1)();".toList = .ok functions ∧
    ∃ inner root, functions = inner ++ [root] ∧ root.UpvaluesBelow 0 ∧
      (∃ instrs, root.WellFormed functions instrs) ∧
      ∀ function ∈ inner, ∃ instrs, function.WellFormed functions instrs ∧ function.Returns instrs := by
  have succeeds : (compile 40 "fun f(a) { if (a) return fun () { return a; }; } print f(1)();".toList :
      Except Error (List (Function (Constant Int) Text))).isOk = true := by decide +kernel
  obtain ⟨functions, accepted⟩ := exists_ok succeeds
  exact ⟨functions, accepted, compile_wellFormed accepted⟩

end Cpplox
