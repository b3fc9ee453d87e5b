import Cpplox.Bytecode.Heights
import Cpplox.Structured.Attained

namespace Cpplox

open Structured

/-! Which instructions of a function the paths through its bytecode come to. -/

/-- Control does not go on to the instruction after it. -/
def Emission.stops (emission : Emission) : Bool := !emission.instr.fallsThrough

theorem Emission.stops_eq_false {emission : Emission} :
    emission.stops = false ↔ emission.instr.fallsThrough = true := by
  simp [stops]

namespace LoweredFunction

variable {N : Type} {function : LoweredFunction N} {functions : List (LoweredFunction N)}
  {entry : List TrackedLocal} {listing : Listing Emission JumpTag Context} {offset height : Nat}

theorem decode_part {flat : LoweredFlat} (fits : function.Fits)
    (there : PartAt layout function.flats offset [flat]) :
    decode (function.assemble.chunk.bytecode.drop offset) =
      some (LoweredFlat.instr flat, flat.size layout) := by
  obtain ⟨earlier, later, split, rfl⟩ := there
  rw [assemble, split]
  exact decode_bytecodeOf (fits flat (by rw [split]; simp)) earlier later

/-- A path through the code is one through its bytecode. -/
theorem reaches_of_path (fits : function.Fits)
    (path : Path layout Emission.stops function.flats 0 offset) :
    ∃ height, Reaches function.assemble.chunk.bytecode function.entryHeight offset height := by
  induction path with
  | refl => exact ⟨_, .refl⟩
  | tail _ goes ih =>
      obtain ⟨height, reaches⟩ := ih
      cases goes with
      | falls there goes =>
          exact ⟨_, reaches.tail (.next (decode_part fits there) (Emission.stops_eq_false.mp goes))⟩
      | jump there => exact ⟨_, reaches.tail (.jump (decode_part fits there) rfl)⟩
      | passes there => exact ⟨_, reaches.tail (.next (decode_part fits there) rfl)⟩
      | jumpIfFalse there => exact ⟨_, reaches.tail (.jump (decode_part fits there) rfl)⟩
      | loop there back =>
          refine ⟨_, reaches.tail (.jump (decode_part fits there) ?_)⟩
          have size : layout.jumpSize = 3 := rfl
          rw [LoweredFlat.instr, Instr.target?, if_pos (by omega)]
          exact congrArg some (by omega)

theorem Verified.part (verified : function.Verified functions entry listing) {context : Context}
    {flat : LoweredFlat} (found : EntryAt layout listing offset (context, flat)) :
    PartAt layout function.flats offset [flat] := verified.entry_flats found

/-- A path through the bytecode is one through the code. -/
theorem Verified.path_of_reaches (verified : function.Verified functions entry listing)
    (fits : function.Fits) {place : Nat × Nat} (reaches : Relation.ReflTransGen
      (FlowsTo function.assemble.chunk.bytecode) (0, function.entryHeight) place) :
    Path layout Emission.stops function.flats 0 place.1 := by
  induction reaches with
  | refl => exact .refl
  | tail before flows ih =>
      obtain ⟨slots, -, arrives⟩ := verified.reaches_arrives fits before
      cases flows with
      | next found falls =>
          obtain ⟨written, flat, there, -, rfl, rfl⟩ := verified.arrives_decode fits arrives found
          cases flat with
          | plain emission => exact ih.tail (.falls (verified.part there) (Emission.stops_eq_false.mpr falls))
          | jumpIfFalse => exact ih.tail (.passes (verified.part there))
          | jump | loop => cases falls
      | jump found goes =>
          obtain ⟨written, flat, there, -, rfl, rfl⟩ := verified.arrives_decode fits arrives found
          cases flat with
          | plain emission =>
              obtain ⟨_, after, -, executes, -⟩ := verified.executes there
              have refers := executes.refers
              cases known : emission.instr with
              | jump => simp only [Surroundings.Refers, known] at refers
              | simple | operand | closure | unexpected =>
                  rw [LoweredFlat.instr, known] at goes
                  cases goes
          | jump =>
              obtain rfl := Option.some.inj goes
              exact ih.tail (.jump (verified.part there))
          | jumpIfFalse =>
              obtain rfl := Option.some.inj goes
              exact ih.tail (.jumpIfFalse (verified.part there))
          | loop tag distance =>
              have size : layout.jumpSize = 3 := rfl
              rw [LoweredFlat.instr, Instr.target?] at goes
              obtain ⟨bound, back⟩ := Option.ite_none_right_eq_some.mp goes
              obtain rfl := Option.some.inj back
              exact ih.tail (.loop (verified.part there) (by omega))

/-- An instruction is attained when a path comes to it. -/
theorem Verified.mem_attained {emission : Emission}
    (verified : function.Verified functions entry listing) (fits : function.Fits) :
    emission ∈ function.code.attained Emission.stops ↔ ∃ offset height,
      Reaches function.assemble.chunk.bytecode function.entryHeight offset height ∧
      PartAt layout function.flats offset [.plain emission] := by
  rw [Code.mem_attained]
  constructor
  · rintro ⟨offset, path, there⟩
    obtain ⟨height, reaches⟩ := reaches_of_path fits path
    exact ⟨offset, height, reaches, there⟩
  · rintro ⟨offset, height, reaches, there⟩
    exact ⟨offset, verified.path_of_reaches fits reaches, there⟩

/-- The locals that instructions refer to are below the height wherever a path comes to
them, but for those captured by their own initializers. -/
theorem Verified.operands_iff (verified : function.Verified functions entry listing)
    (fits : function.Fits) :
    (∀ offset height instr size,
      Reaches function.assemble.chunk.bytecode function.entryHeight offset height →
      decode (function.assemble.chunk.bytecode.drop offset) = some (instr, size) →
      ∀ index ∈ instr.localOperands, index < height) ↔
    ∀ emission ∈ function.code.attained Emission.stops, ¬ emission.CapturesOwnLocal function.kind := by
  constructor
  · intro below emission member
    obtain ⟨offset, height, reaches, there⟩ := (verified.mem_attained fits).mp member
    obtain ⟨earlier, later, split, begins⟩ := id there
    exact (verified.reaches_locals fits reaches split begins).mp
      (below _ _ _ _ reaches (decode_part fits there))
  · intro free offset height instr size reaches found
    obtain ⟨slots, -, arrives⟩ := verified.reaches_arrives fits reaches
    obtain ⟨written, flat, there, -, rfl, rfl⟩ := verified.arrives_decode fits arrives found
    cases flat with
    | jump | jumpIfFalse | loop => simp [LoweredFlat.instr, Instr.localOperands]
    | plain emission =>
        have part := verified.part there
        obtain ⟨earlier, later, split, begins⟩ := id part
        exact (verified.reaches_locals fits reaches split begins).mpr
          (free emission ((verified.mem_attained fits).mpr ⟨offset, height, reaches, part⟩))

end LoweredFunction

end Cpplox
