import Cpplox.Bytecode.WellFormed
import Mathlib.Logic.Relation

namespace Cpplox

open Structured

/-! Stack heights along the paths of control flow through bytecode. -/

namespace Instr

/-- Control goes on to the next instruction. -/
def fallsThrough : Instr → Bool
  | simple .return_ | jump .jump _ | jump .loop _ => false
  | _ => true

/-- The locals of the current activation that an instruction refers to. -/
def localOperands : Instr → List Nat
  | operand .getLocal index => [index]
  | operand .setLocal index => [index]
  | closure _ captures => captures.filterMap fun capture =>
      match capture with
      | .upvalueIndex index => some index
      | .upUpvalueIndex _ => none
  | _ => []

end Instr

/-- A step of control flow, from an offset and the height there. -/
inductive FlowsTo (bytecode : List Nat) : Nat × Nat → Nat × Nat → Prop
  | next {offset height size : Nat} {instr : Instr} :
      decode (bytecode.drop offset) = some (instr, size) → instr.fallsThrough = true →
      FlowsTo bytecode (offset, height) (offset + size, height - instr.pops + instr.pushes)
  | jump {offset height size target : Nat} {instr : Instr} :
      decode (bytecode.drop offset) = some (instr, size) → instr.target? offset = some target →
      FlowsTo bytecode (offset, height) (target, height)

/-- There is a path from the beginning to an offset, with a height there. -/
def Reaches (bytecode : List Nat) (entryHeight offset height : Nat) : Prop :=
  Relation.ReflTransGen (FlowsTo bytecode) (0, entryHeight) (offset, height)

theorem Context.Le.length {slots others : List Slot} (le : Context.Le (.live slots) (.live others)) :
    others.length = slots.length := by
  cases le <;> rfl

namespace LoweredFunction

variable {N : Type} {function : LoweredFunction N} {functions : List (LoweredFunction N)}
  {entry : List TrackedLocal} {listing : Listing Emission JumpTag Context} {offset height : Nat}

namespace Verified

/-- Where a context arrives and there is something to decode, it is an instruction of the
listing. -/
theorem arrives_decode {slots : List Slot} {instr : Instr} {size : Nat}
    (verified : function.Verified functions entry listing) (fits : function.Fits)
    (arrives : Arrives layout (function.surroundings functions).typing function.exit listing offset
      (.live slots))
    (found : decode (function.assemble.chunk.bytecode.drop offset) = some (instr, size)) :
    ∃ written flat, EntryAt layout listing offset (.live written, flat) ∧
      Context.Le (.live slots) (.live written) ∧ LoweredFlat.instr flat = instr ∧
      flat.size layout = size := by
  rcases verified.arrives_cases arrives with ⟨rfl, -⟩ | ⟨written, flat, there, le⟩
  · rw [List.drop_length] at found
    cases found
  · rw [verified.decode_entry fits there] at found
    cases found
    exact ⟨written, flat, there, le, rfl, rfl⟩

/-- What is on the stack after an instruction that does not end the activation. -/
theorem falls {context : Context} {flat : LoweredFlat}
    (verified : function.Verified functions entry listing)
    (found : EntryAt layout listing offset (context, flat))
    (falls : (LoweredFlat.instr flat).fallsThrough = true) :
    ∃ slots after, context = .live slots ∧
      after.length = slots.length - (LoweredFlat.instr flat).pops + (LoweredFlat.instr flat).pushes ∧
      Arrives layout (function.surroundings functions).typing function.exit listing
        (offset + flat.size layout) (.live after) := by
  have steps := verified.verified _ _ _ found
  cases flat with
  | jump | loop => cases falls
  | jumpIfFalse tag distance =>
      obtain ⟨⟨slots, rfl, -⟩, arrives, -⟩ := steps
      exact ⟨slots, slots, rfl, rfl, arrives⟩
  | plain emission =>
      obtain ⟨slots, after, rfl, executes, arrives⟩ := verified.executes found
      obtain ⟨taken, rest, rfl, count, -, -, rfl | ⟨returns, -⟩⟩ := executes.effect
      · refine ⟨_, _, rfl, ?_, arrives⟩
        rw [LoweredFlat.instr, ← count]
        simp only [List.length_append, List.length_replicate]
        omega
      · rw [LoweredFlat.instr, returns] at falls
        cases falls

/-- The context where a path arrives has the height of the path. -/
theorem reaches_arrives (verified : function.Verified functions entry listing) (fits : function.Fits)
    {place : Nat × Nat} (reaches : Relation.ReflTransGen
      (FlowsTo function.assemble.chunk.bytecode) (0, function.entryHeight) place) :
    ∃ slots, slots.length = place.2 ∧
      Arrives layout (function.surroundings functions).typing function.exit listing place.1
        (.live slots) := by
  induction reaches with
  | refl => exact ⟨_, verified.height, verified.enters⟩
  | tail _ flows ih =>
      obtain ⟨slots, length, arrives⟩ := ih
      cases flows with
      | next found falls =>
          obtain ⟨written, flat, there, le, rfl, rfl⟩ := verified.arrives_decode fits arrives found
          obtain ⟨_, after, same, height, next⟩ := verified.falls there falls
          cases same
          rw [le.length, length] at height
          exact ⟨after, height, next⟩
      | jump found goes =>
          obtain ⟨written, flat, there, le, rfl, rfl⟩ := verified.arrives_decode fits arrives found
          cases known : LoweredFlat.instr flat with
          | jump opcode distance =>
              obtain ⟨_, target, same, laterGoes, next⟩ := verified.jumps there known
              cases same
              rw [known, laterGoes] at goes
              cases goes
              exact ⟨written, le.length.trans length, next⟩
          | simple | operand | closure | unexpected =>
              rw [known] at goes
              cases goes

/-- Two paths to one offset have one height. -/
theorem reaches_unique (verified : function.Verified functions entry listing) (fits : function.Fits)
    {other : Nat}
    (one : Reaches function.assemble.chunk.bytecode function.entryHeight offset height)
    (two : Reaches function.assemble.chunk.bytecode function.entryHeight offset other) :
    height = other := by
  obtain ⟨slots, rfl, written, found, le⟩ := verified.reaches_arrives fits one
  obtain ⟨laterSlots, rfl, laterWritten, laterFound, laterLe⟩ := verified.reaches_arrives fits two
  rw [found] at laterFound
  cases laterFound
  cases written with
  | live written => exact le.length.symm.trans laterLe.length
  | ended => cases le

/-- No instruction takes what was there on entry, but `return_` may. -/
theorem reaches_pops (verified : function.Verified functions entry listing) (fits : function.Fits)
    {instr : Instr} {size : Nat}
    (reaches : Reaches function.assemble.chunk.bytecode function.entryHeight offset height)
    (found : decode (function.assemble.chunk.bytecode.drop offset) = some (instr, size))
    (takes : instr.pops ≠ 0) : function.entryHeight + instr.pops ≤ height := by
  obtain ⟨slots, rfl, arrives⟩ := verified.reaches_arrives fits reaches
  obtain ⟨written, flat, there, le, rfl, rfl⟩ := verified.arrives_decode fits arrives found
  cases flat with
  | jump | jumpIfFalse | loop => exact absurd rfl takes
  | plain emission =>
      obtain ⟨_, after, same, executes, -⟩ := verified.executes there
      cases same
      obtain ⟨taken, rest, rfl, count, tall, -⟩ := executes.effect
      have length := le.length
      rw [List.length_append, count] at length
      rw [LoweredFlat.instr]
      change function.entryHeight ≤ rest.length at tall
      omega

end Verified

end LoweredFunction

/-- A closure at the very beginning of the initializer of a local captures that local, in
a function whose slots are counted from the callee or the receiver. -/
def Emission.CapturesOwnLocal (kind : FunctionKind) (emission : Emission) : Prop :=
  kind ≠ .expression ∧ emission.leading = true ∧ ∃ constant captures index,
    emission.instr = .closure constant captures ∧ .upvalueIndex index ∈ captures ∧
      emission.waitsFor index = true

namespace LoweredFunction

variable {N : Type} {function : LoweredFunction N} {functions : List (LoweredFunction N)}
  {entry : List TrackedLocal} {listing : Listing Emission JumpTag Context} {offset height : Nat}

namespace Verified

theorem entry_of_flats (verified : function.Verified functions entry listing)
    {earlier later : List LoweredFlat} {flat : LoweredFlat}
    (split : function.flats = earlier ++ flat :: later)
    (begins : extent layout earlier = offset) :
    ∃ context, EntryAt layout listing offset (context, flat) := by
  rw [← verified.flats] at split
  obtain ⟨before, rest, rfl, rfl, tail⟩ := List.map_eq_append_iff.mp split
  obtain ⟨⟨context, _⟩, after, rfl, rfl, rfl⟩ := List.map_eq_cons_iff.mp tail
  exact ⟨context, before, after, rfl, begins⟩

/-- Where a path arrives at an instruction the context has the height of the path. -/
theorem reaches_entry (verified : function.Verified functions entry listing) (fits : function.Fits)
    {context : Context} {flat : LoweredFlat}
    (reaches : Reaches function.assemble.chunk.bytecode function.entryHeight offset height)
    (found : EntryAt layout listing offset (context, flat)) :
    ∃ slots, context = .live slots ∧ slots.length = height := by
  obtain ⟨slots, rfl, written, here, le⟩ := verified.reaches_arrives fits reaches
  rw [found.contextAt] at here
  cases here
  cases context with
  | live slots => exact ⟨slots, rfl, le.length⟩
  | ended => cases le

/-- The locals an instruction refers to are on the stack, but for a local captured by its
own initializer, which is about to be. -/
theorem reaches_locals (verified : function.Verified functions entry listing) (fits : function.Fits)
    (reaches : Reaches function.assemble.chunk.bytecode function.entryHeight offset height)
    {earlier later : List LoweredFlat} {emission : Emission}
    (split : function.flats = earlier ++ .plain emission :: later)
    (begins : extent layout earlier = offset) :
    (∀ index ∈ emission.instr.localOperands, index < height) ↔
      ¬ emission.CapturesOwnLocal function.kind := by
  obtain ⟨context, found⟩ := verified.entry_of_flats split begins
  obtain ⟨slots, rfl, rfl⟩ := verified.reaches_entry fits reaches found
  obtain ⟨_, after, same, executes, -⟩ := verified.executes found
  cases same
  have refers := executes.refers
  unfold Surroundings.Refers at refers
  cases known : emission.instr with
  | simple | jump | unexpected =>
      simp [Instr.localOperands, Emission.CapturesOwnLocal, known]
  | operand opcode index =>
      rw [known] at refers
      have none : ¬ emission.CapturesOwnLocal function.kind := by
        rintro ⟨-, -, constant, captures, _, closes, -⟩
        rw [known] at closes
        cases closes
      refine iff_of_true (fun index member => ?_) none
      cases opcode <;> first
        | cases member; done
        | obtain rfl := List.mem_singleton.mp member; exact refers.1
  | closure constant captures =>
      rw [known] at refers
      constructor
      · rintro below ⟨kind, leading, _, _, index, closes, member, waits⟩
        rw [known] at closes
        cases closes
        have captured := refers.2 _ member
        have own := captured.2.1.mpr ⟨kind, leading, waits⟩
        have bound := below index (List.mem_filterMap.mpr ⟨_, member, rfl⟩)
        omega
      · intro free index member
        obtain ⟨capture, inside, same⟩ := List.mem_filterMap.mp member
        cases capture with
        | upUpvalueIndex => cases same
        | upvalueIndex =>
            cases same
            have captured := refers.2 _ inside
            refine Nat.lt_of_le_of_ne captured.1 fun own => ?_
            obtain ⟨kind, leading, waits⟩ := captured.2.1.mp own
            exact free ⟨kind, leading, _, _, _, known, inside, waits⟩

end Verified

end LoweredFunction

namespace Lower

variable {N : Type} [Number N] {l final : Lower N} {code : LoweredCode} {decls earlier later : Decls}

/-- Declarations are lowered one after the other. -/
theorem Lowers.split_decls (lowers : Lowers l (.decls (earlier.append later)) code final) :
    ∃ first middle second, Lowers l (.decls earlier) first middle ∧
      Lowers middle (.decls later) second final ∧
      code.flatten layout = first.flatten layout ++ second.flatten layout := by
  generalize all : Node.decls (earlier.append later) = node at lowers
  induction lowers generalizing earlier with
  | declsNil =>
      cases earlier with
      | nil =>
          obtain rfl : Decls.nil = later := Node.decls.inj all |>.symm
          exact ⟨.nil, _, .nil, .declsNil, .declsNil, rfl⟩
      | cons => cases all
  | declsCons head tail _ ih =>
      cases earlier with
      | nil =>
          obtain rfl := Node.decls.inj all
          exact ⟨.nil, _, _, .declsNil, .declsCons head tail, rfl⟩
      | cons first rest =>
          cases all
          obtain ⟨code₁, middle, code₂, before, after, flats⟩ := ih rfl
          refine ⟨_, middle, code₂, .declsCons head before, after, ?_⟩
          simp only [Code.flatten, flats, List.append_assoc]
  | _ => cases all

/-- The script has nothing on the stack between two declarations. -/
theorem Lowers.verified_between
    (lowers : Lowers ({} : Lower N) (.decls (earlier.append later)) code l) :
    ∃ first middle, Lowers ({} : Lower N) (.decls earlier) first middle ∧
      ∃ listing, (l.script code).Verified (l.functions ++ [l.script code]) [] listing ∧
        Arrives layout ((l.script code).surroundings (l.functions ++ [l.script code])).typing
          (l.script code).exit listing (first.extent layout) (.live []) := by
  obtain ⟨first, middle, second, before, after, flats⟩ := lowers.split_decls
  refine ⟨first, middle, before, ?_⟩
  let around := (l.script code).surroundings (l.functions ++ [l.script code])
  have ready : (Node.decls earlier).Ready ({} : Lower N) := ready_program
  obtain ⟨declared, grows, declares, linked⟩ := before.outcome ready
  have ready₁ := grows.ready declares linked ready
  obtain ⟨more, laterGrows, laterDeclares, -⟩ := after.outcome ready₁
  have nothing : more = [] := laterDeclares.top grows.scopeDepth
  subst nothing
  have covers := lowers.covers_script
  have covers₁ : around.Covers middle ([] ++ []) := covers.before laterGrows
  have one : around.Flows 0 [] first 0 [] :=
    before.flows ready around [] [] covers₁ rfl (Nat.zero_le _)
  have empty : middle.back.trackedLocals = [] := (before.outcome_program).1
  have two : around.Flows 0 [] second 0 [] :=
    after.flows ready₁ around [] [] covers (by rw [empty]) (Nat.zero_le _)
  obtain ⟨left, left_listed⟩ : ∃ left, Listed layout around.typing _ first _ left := one.listed
  obtain ⟨right, right_listed⟩ : ∃ right, Listed layout around.typing _ second _ right := two.listed
  have both := listed_seq left_listed right_listed
  have same : (l.script code).flats = (Code.seq first second).flatten layout := flats
  refine ⟨left ++ right, ⟨by simp, rfl, ?_, both.verified, both.enters⟩, ?_⟩
  · rw [both.flats, same]
  · have splits : left ++ right = left ++ (right ++ []) := by simp
    have ends : Arrives layout around.typing (l.script code).exit (left ++ right)
        (left.extent layout + right.extent layout) (.live []) := arrives_at_end (by simp)
    rw [← left_listed.extent]
    exact right_listed.arrives splits rfl ends

end Lower

end Cpplox
