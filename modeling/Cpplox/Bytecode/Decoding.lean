import Cpplox.Ast.Emits
import Cpplox.Contexts.Certify
import Cpplox.Structured.Verify

namespace Cpplox

open Structured

/-! Assembled functions, read back from their bytes. -/

/-- The instructions of bytecode from an offset to its end, each with its offset. -/
inductive Decodes (bytecode : List Nat) : Nat → List (Nat × Instr) → Prop
  | atEnd : Decodes bytecode bytecode.length []
  | instr {offset size : Nat} {instr : Instr} {rest : List (Nat × Instr)} :
      decode (bytecode.drop offset) = some (instr, size) → Decodes bytecode (offset + size) rest →
      Decodes bytecode offset ((offset, instr) :: rest)

/-- There is one way to decode bytecode. -/
theorem Decodes.unique {bytecode : List Nat} {offset : Nat} {instrs others : List (Nat × Instr)}
    (one : Decodes bytecode offset instrs) (two : Decodes bytecode offset others) :
    instrs = others := by
  induction one generalizing others with
  | atEnd =>
      cases two with
      | atEnd => rfl
      | instr found _ =>
          rw [List.drop_length] at found
          cases found
  | instr found _ ih =>
      cases two with
      | atEnd =>
          rw [List.drop_length] at found
          cases found
      | instr laterFound rest =>
          rw [found] at laterFound
          cases laterFound
          rw [ih rest]

/-- The instructions of laid out code that begins at an offset. -/
def placed (offset : Nat) : List LoweredFlat → List (Nat × Instr)
  | [] => []
  | flat :: rest => (offset, LoweredFlat.instr flat) :: placed (offset + flat.size layout) rest

theorem drop_bytecodeOf (earlier later : List LoweredFlat) :
    (bytecodeOf (earlier ++ later)).drop (extent layout earlier) = bytecodeOf later := by
  rw [bytecodeOf_append, ← length_bytecodeOf, List.drop_left]

theorem decode_bytecodeOf {flat : LoweredFlat} (fits : (LoweredFlat.instr flat).Fits)
    (earlier later : List LoweredFlat) :
    decode ((bytecodeOf (earlier ++ flat :: later)).drop (extent layout earlier)) =
      some (LoweredFlat.instr flat, flat.size layout) := by
  rw [drop_bytecodeOf, bytecodeOf_cons, decode_encode fits, LoweredFlat.size_eq]

theorem decodes_placed (earlier later : List LoweredFlat)
    (fits : ∀ flat ∈ later, (LoweredFlat.instr flat).Fits) :
    Decodes (bytecodeOf (earlier ++ later)) (extent layout earlier)
      (placed (extent layout earlier) later) := by
  induction later generalizing earlier with
  | nil =>
      rw [List.append_nil, ← length_bytecodeOf]
      exact .atEnd
  | cons flat rest ih =>
      refine .instr (decode_bytecodeOf (fits flat List.mem_cons_self) earlier rest) ?_
      have extends_ : extent layout (earlier ++ [flat]) = extent layout earlier + flat.size layout := by
        simp
      rw [← extends_, show earlier ++ flat :: rest = (earlier ++ [flat]) ++ rest by simp]
      exact ih (earlier ++ [flat]) fun other member => fits other (List.mem_cons_of_mem _ member)

theorem placed_append (offset : Nat) (left right : List LoweredFlat) :
    placed offset (left ++ right) = placed offset left ++ placed (offset + extent layout left) right := by
  induction left generalizing offset with
  | nil => rfl
  | cons flat rest ih => simp [placed, ih, Nat.add_assoc]

variable {G : Type} {listing : Listing Emission JumpTag G} {offset : Nat} {instr : Instr}

theorem placed_entry {start position : Nat}
    (member : (position, instr) ∈ placed start listing.flats) :
    ∃ offset context flat, position = start + offset ∧
      EntryAt layout listing offset (context, flat) ∧ LoweredFlat.instr flat = instr := by
  induction listing generalizing start with
  | nil => cases member
  | cons entry rest ih =>
      obtain ⟨context, flat⟩ := entry
      rcases List.mem_cons.mp member with same | later
      · cases same
        exact ⟨0, context, flat, rfl, ⟨[], rest, rfl, rfl⟩, rfl⟩
      · obtain ⟨offset, found, other, rfl, ⟨earlier, after, split, begins⟩, same⟩ := ih later
        refine ⟨flat.size layout + offset, found, other, Nat.add_assoc _ _ _, ?_, same⟩
        exact ⟨(context, flat) :: earlier, after, by rw [split]; rfl, by simp [begins]⟩

/-- The decoded instructions are those of the listing. -/
theorem mem_placed : (offset, instr) ∈ placed 0 listing.flats ↔
    ∃ context flat, EntryAt layout listing offset (context, flat) ∧
      LoweredFlat.instr flat = instr := by
  constructor
  · intro member
    obtain ⟨_, context, flat, rfl, found, same⟩ := placed_entry member
    rw [Nat.zero_add]
    exact ⟨context, flat, found, same⟩
  · rintro ⟨context, flat, ⟨earlier, later, rfl, rfl⟩, rfl⟩
    have split : Listing.flats (earlier ++ (context, flat) :: later) =
        Listing.flats earlier ++ flat :: Listing.flats later := by simp [Listing.flats]
    rw [split, placed_append, Nat.zero_add]
    exact List.mem_append_right _ List.mem_cons_self

variable {N : Type} {function : LoweredFunction N} {functions : List (LoweredFunction N)}

namespace LoweredFunction

/-- A listing of a function with the slots in front of every instruction. -/
structure Verified (function : LoweredFunction N) (functions : List (LoweredFunction N))
    (entry : List TrackedLocal) (listing : Listing Emission JumpTag Context) : Prop where
  initialized : ∀ tracked ∈ entry, tracked.initialized = true
  height : ((function.surroundings functions).slots 0 entry).length = function.entryHeight
  flats : listing.flats = function.flats
  verified : Structured.Verified layout (function.surroundings functions).typing listing function.exit
  enters : Arrives layout (function.surroundings functions).typing function.exit listing 0
    (.live ((function.surroundings functions).slots 0 entry))

theorem Certified.verified (certified : function.Certified functions) :
    ∃ entry listing, function.Verified functions entry listing := by
  obtain ⟨entry, initialized, height, typed⟩ := certified.typed
  obtain ⟨listing, listed⟩ := typed.listed
  exact ⟨entry, listing, initialized, height, listed.flats, listed.verified, listed.enters⟩

namespace Verified

variable {entry : List TrackedLocal} {listing : Listing Emission JumpTag Context}
  {context : Context} {flat : LoweredFlat}

theorem entry_flats (verified : function.Verified functions entry listing)
    (found : EntryAt layout listing offset (context, flat)) :
    ∃ earlier later, function.flats = earlier ++ flat :: later ∧
      extent layout earlier = offset := by
  obtain ⟨earlier, later, rfl, rfl⟩ := found
  exact ⟨Listing.flats earlier, Listing.flats later, by simp [← verified.flats, Listing.flats], rfl⟩

/-- What the virtual machine reads at an entry of the listing. -/
theorem decode_entry (verified : function.Verified functions entry listing) (fits : function.Fits)
    (found : EntryAt layout listing offset (context, flat)) :
    decode (function.assemble.chunk.bytecode.drop offset) =
      some (LoweredFlat.instr flat, flat.size layout) := by
  obtain ⟨earlier, later, split, rfl⟩ := verified.entry_flats found
  rw [assemble, split]
  exact decode_bytecodeOf (fits flat (by rw [split]; simp)) earlier later

theorem token_entry (verified : function.Verified functions entry listing)
    (found : EntryAt layout listing offset (context, flat)) :
    function.assemble.chunk.sourceMapTokens[offset]? = some (LoweredFlat.token flat) := by
  obtain ⟨earlier, later, split, rfl⟩ := verified.entry_flats found
  have positive : 0 < (LoweredFlat.instr flat).size := Instr.size_pos _
  rw [assemble, split, sourceMapOf_append, ← length_sourceMapOf,
    List.getElem?_append_right (Nat.le_refl _), Nat.sub_self, sourceMapOf_cons,
    List.getElem?_append_left (by simpa using positive)]
  simp [positive]

theorem length_bytecode (verified : function.Verified functions entry listing) :
    function.assemble.chunk.bytecode.length = listing.extent layout := by
  rw [assemble, Listing.extent, verified.flats]
  exact length_bytecodeOf _

theorem decodes (verified : function.Verified functions entry listing) (fits : function.Fits) :
    Decodes function.assemble.chunk.bytecode 0 (placed 0 listing.flats) := by
  have decodes := decodes_placed [] function.flats fits
  rw [verified.flats]
  exact decodes

end Verified

end LoweredFunction

end Cpplox
