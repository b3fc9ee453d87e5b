import Cpplox.Compiler.Progress
import Cpplox.Data.Matched
import Cpplox.Tracking.Chains

namespace Cpplox

open Data

/-! What single actions of the compiler do to what is tracked. -/

variable {N α β : Type}

/-- A tracked local but for whether it is captured. -/
structure Declared where
  name : Text
  depth : Nat
  initialized : Bool

def TrackedLocal.declared (tracked : TrackedLocal) : Declared :=
  ⟨tracked.name, tracked.depth, tracked.initialized⟩

/-- The locals of a function, the latest first. -/
def FunctionChunk.declared {C : Type} (function : FunctionChunk C) : List Declared :=
  function.trackedLocals.map (·.declared)

/-- The scopes of the functions being compiled. -/
structure Outline where
  scopeDepth : Nat
  back : List Declared
  enclosing : List (List Declared)

def Compiler.outline (compiler : Compiler N) : Outline :=
  ⟨compiler.scopeDepth, compiler.back.declared, compiler.enclosing.map (·.declared)⟩

/-- What is tracked in a function is the same. -/
structure FunctionChunk.Tracked {C : Type} (old new : FunctionChunk C) : Prop where
  locals : new.trackedLocals = old.trackedLocals
  upvalues : new.trackedUpvalues = old.trackedUpvalues

/-- Nothing that is tracked changes. -/
structure Compiler.Still (before after : Compiler N) : Prop where
  scopeDepth : after.scopeDepth = before.scopeDepth
  back : before.back.Tracked after.back
  enclosing : after.enclosing = before.enclosing

/-- A variable of a function further out is captured. -/
structure Compiler.Captured (before after : Compiler N) : Prop where
  tracks : ∃ name index back, trackUpvalue name before.back before.enclosing =
    some (index, back, after.enclosing) ∧ back.Tracked after.back
  scopeDepth : after.scopeDepth = before.scopeDepth

/-- What the compiler may do to what it tracks, in one action. -/
inductive Compiler.Moves (before after : Compiler N) : Prop where
  | still : before.back.Tracked after.back → after.enclosing = before.enclosing →
      Moves before after
  | captures : before.Captured after → Moves before after
  | declares (tracked : TrackedLocal) : tracked.isCaptured = false →
      after.back.trackedLocals = tracked :: before.back.trackedLocals →
      after.back.trackedUpvalues = before.back.trackedUpvalues →
      after.enclosing = before.enclosing → Moves before after
  | drops (tracked : TrackedLocal) :
      before.back.trackedLocals = tracked :: after.back.trackedLocals →
      after.back.trackedUpvalues = before.back.trackedUpvalues →
      after.enclosing = before.enclosing → Moves before after
  | initializes (tracked : TrackedLocal) (rest : List TrackedLocal) :
      before.back.trackedLocals = tracked :: rest →
      after.back.trackedLocals = { tracked with initialized := true } :: rest →
      after.back.trackedUpvalues = before.back.trackedUpvalues →
      after.enclosing = before.enclosing → Moves before after
  | enters : after.back.trackedLocals = [] → after.back.trackedUpvalues = [] →
      after.enclosing = before.back :: before.enclosing → Moves before after
  | leaves : before.enclosing = after.back :: after.enclosing → Moves before after

namespace Compiler

variable {before middle after : Compiler N}

/-- No two capture entries of a function are equal. -/
def Distinct (compiler : Compiler N) : Prop :=
  ∀ function ∈ compiler.back :: compiler.enclosing, function.Distinct

theorem Still.refl (compiler : Compiler N) : compiler.Still compiler := ⟨rfl, ⟨rfl, rfl⟩, rfl⟩

theorem Still.trans (first : before.Still middle) (second : middle.Still after) :
    before.Still after :=
  ⟨second.scopeDepth.trans first.scopeDepth,
    ⟨second.back.locals.trans first.back.locals, second.back.upvalues.trans first.back.upvalues⟩,
    second.enclosing.trans first.enclosing⟩

theorem Still.outline (still : before.Still after) : after.outline = before.outline := by
  simp only [Compiler.outline, FunctionChunk.declared, still.scopeDepth, still.back.locals,
    still.enclosing]

theorem Captured.still (captures : before.Captured middle) (still : middle.Still after) :
    before.Captured after := by
  obtain ⟨⟨name, index, back, tracks, same⟩, scopeDepth⟩ := captures
  refine ⟨⟨name, index, back, still.enclosing ▸ tracks, ?_⟩, still.scopeDepth.trans scopeDepth⟩
  exact ⟨still.back.locals.trans same.locals, still.back.upvalues.trans same.upvalues⟩

theorem declared_of_keeps {C : Type} {old new : FunctionChunk C} (keeps : old.Keeps new) :
    new.declared = old.declared := by
  refine matched_map (matched_mono keeps.locals fun tracked marked _ same => ?_)
  obtain ⟨name, depth, initialized, -⟩ := same
  simp only [TrackedLocal.declared, name, depth, initialized]

theorem Captured.outline (captures : before.Captured after) : after.outline = before.outline := by
  obtain ⟨⟨name, index, back, tracks, same⟩, scopeDepth⟩ := captures
  have keeps := trackUpvalue_keeps tracks
  have declared : (back :: after.enclosing).map (·.declared) =
      (before.back :: before.enclosing).map (·.declared) :=
    matched_map (matched_mono keeps fun _ _ _ => declared_of_keeps)
  obtain ⟨here, others⟩ := List.cons_eq_cons.mp declared
  have same : after.back.declared = back.declared := congrArg (List.map _) same.locals
  simp only [Compiler.outline, scopeDepth, same, here, others]

theorem Moves.distinct (moves : before.Moves after) (distinct : before.Distinct) :
    after.Distinct := by
  obtain ⟨here, others⟩ := List.forall_mem_cons.mp distinct
  cases moves with
  | still same enclosing =>
      refine List.forall_mem_cons.mpr ⟨?_, enclosing ▸ others⟩
      rwa [FunctionChunk.Distinct, same.upvalues]
  | captures captures =>
      obtain ⟨name, index, back, tracks, same⟩ := captures.tracks
      obtain ⟨inner, outer⟩ := List.forall_mem_cons.mp (trackUpvalue_distinct tracks distinct)
      refine List.forall_mem_cons.mpr ⟨?_, outer⟩
      rwa [FunctionChunk.Distinct, same.upvalues]
  | declares _ _ _ upvalues enclosing | drops _ _ upvalues enclosing
  | initializes _ _ _ _ upvalues enclosing =>
      refine List.forall_mem_cons.mpr ⟨?_, enclosing ▸ others⟩
      rwa [FunctionChunk.Distinct, upvalues]
  | enters _ upvalues enclosing =>
      refine List.forall_mem_cons.mpr ⟨?_, enclosing ▸ distinct⟩
      rw [FunctionChunk.Distinct, upvalues]
      exact List.nodup_nil
  | leaves enclosing =>
      rwa [enclosing] at others

end Compiler

/-- The action changes nothing that is tracked. -/
def Stills (action : CompileM N α) : Prop :=
  ∀ before value after, action.run before = .ok (value, after) → before.Still after

/-- At most, the action captures a variable. -/
def MayCapture (action : CompileM N α) : Prop :=
  ∀ before value after, action.run before = .ok (value, after) →
    before.Still after ∨ before.Captured after

namespace Stills

variable {before after : Compiler N}

theorem pure (value : α) : Stills (pure value : CompileM N α) := by
  intro before _ after runs
  cases runs
  exact .refl _

theorem get : Stills (get : CompileM N (Compiler N)) := by
  intro before _ after runs
  cases runs
  exact .refl _

theorem throw {error : Error} : Stills (throw error : CompileM N α) :=
  fun _ _ _ runs => by cases runs

theorem lift {action : Except Error α} : Stills (liftM action : CompileM N α) := by
  intro before value after runs
  cases action with
  | error error => cases runs
  | ok made =>
      cases runs
      exact .refl _

theorem bind {first : CompileM N α} {rest : α → CompileM N β} (one : Stills first)
    (two : ∀ value, Stills (rest value)) : Stills (first >>= rest) := by
  intro before _ after runs
  obtain ⟨value, middle, runsFirst, runsRest⟩ := run_bind_ok.mp runs
  exact (one _ _ _ runsFirst).trans (two _ _ _ _ runsRest)

theorem optionally {action : CompileM N Unit} (stills : Stills action) (condition : Bool) :
    Stills (optionally condition action) := by
  cases condition with
  | true => exact stills
  | false => exact .pure ()

theorem mayCapture {action : CompileM N α} (stills : Stills action) : MayCapture action :=
  fun _ _ _ runs => .inl (stills _ _ _ runs)

end Stills

theorem stills_next : Stills (next : CompileM N Token) := by
  refine fun before token after runs => ?_
  obtain ⟨_, _, gets, runs⟩ := run_bind_ok.mp runs
  cases gets
  obtain ⟨iter, -, runs⟩ := run_lift_bind_ok.mp runs
  cases runs
  exact ⟨rfl, ⟨rfl, rfl⟩, rfl⟩

theorem stills_expectNext (type : TokenType) : Stills (expectNext type : CompileM N Token) :=
  stills_next.bind fun _ => Stills.lift.bind fun _ => .pure _

theorem stills_expectCurrent (type : TokenType) : Stills (expectCurrent type : CompileM N Token) :=
  (Stills.get.bind fun _ => .pure _).bind fun _ => Stills.lift.bind fun _ => stills_next

theorem stills_advanceIfMatch (type : TokenType) : Stills (advanceIfMatch type : CompileM N Bool) := by
  refine (Stills.get.bind fun _ => .pure _).bind fun token => ?_
  split
  · exact stills_next.bind fun _ => .pure _
  · exact .pure _

theorem stills_emitWith (emission : Chunk.Compiled N → Except Error (Chunk.Compiled N)) :
    Stills (emitWith emission) := by
  intro before _ after runs
  obtain ⟨chunk, -, rfl⟩ := emitWith_run runs
  exact ⟨rfl, ⟨rfl, rfl⟩, rfl⟩

theorem stills_emitAll (opcodes : List Opcode) (token : SourceMapToken Text) :
    Stills (emitAll opcodes token : CompileM N Unit) := by
  induction opcodes with
  | nil => exact .pure ()
  | cons opcode rest ih => exact (stills_emitWith _).bind fun _ => ih

theorem stills_emitJump (opcode : Opcode) (token : SourceMapToken Text) :
    Stills (emitJump opcode token : CompileM N Nat) := by
  intro before _ after runs
  cases runs
  exact ⟨rfl, ⟨rfl, rfl⟩, rfl⟩

theorem stills_makeFunction (function : Function (Constant N) Text) :
    Stills (makeFunction function : CompileM N Nat) := by
  intro before _ after runs
  cases runs
  exact ⟨rfl, ⟨rfl, rfl⟩, rfl⟩

theorem stills_ensureOtherClass (className superclassName : Token) :
    Stills (Control.ensureOtherClass className superclassName : CompileM N Unit) := by
  rw [Control.ensureOtherClass]
  split
  · exact .throw
  · exact .pure ()

theorem stills_emitDefaultReturnValue (token : SourceMapToken Text) :
    Stills (emitDefaultReturnValue token : CompileM N Unit) := by
  refine Stills.get.bind fun compiler => ?_
  split
  · exact stills_emitWith _
  · exact stills_emitWith _

section

variable [Number N]

theorem stills_emitFunction (name : Text) (compiled : Nat × FunctionChunk (Chunk.Compiled N))
    (token : SourceMapToken Text) : Stills (emitFunction name compiled token) :=
  (stills_makeFunction _).bind fun _ => stills_emitWith _

theorem stills_defineGlobalAtTop (name : Text) (token : SourceMapToken Text) :
    Stills (defineGlobalAtTop name token : CompileM N Unit) :=
  Stills.get.bind fun _ => (stills_emitWith _).optionally _

theorem stills_emitName (opcode : Opcode) (name : Text) (token : SourceMapToken Text) :
    Stills (emitName opcode name token : CompileM N Unit) := stills_emitWith _

theorem stills_emitPropertyPath (names : List Token) :
    Stills (emitPropertyPath names : CompileM N Unit) := by
  induction names with
  | nil => exact .pure ()
  | cons name rest ih =>
      cases rest with
      | nil => exact stills_emitName _ _ _
      | cons => exact (stills_emitName _ _ _).bind fun _ => ih

theorem mayCapture_emitGetterSetter (localOpcode upvalueOpcode globalOpcode : Opcode)
    (token : SourceMapToken Text) :
    MayCapture (emitGetterSetter localOpcode upvalueOpcode globalOpcode token : CompileM N Unit) := by
  intro before done after runs
  rw [emitGetterSetter, run_get_bind] at runs
  split at runs
  · split at runs
    · exact .inl (stills_emitWith _ _ _ _ runs)
    · cases runs
  · split at runs
    next index back enclosing tracks =>
        obtain ⟨_, middle, sets, runs⟩ := run_bind_ok.mp runs
        cases sets
        have captured : before.Captured { before with back, enclosing } :=
          ⟨⟨_, index, back, tracks, rfl, rfl⟩, rfl⟩
        exact .inr (captured.still (stills_emitWith _ _ _ _ runs))
    next => exact .inl (stills_emitWith _ _ _ _ runs)

theorem mayCapture_emitGetter (token : SourceMapToken Text) :
    MayCapture (emitGetter token : CompileM N Unit) := mayCapture_emitGetterSetter _ _ _ token

theorem mayCapture_emitAssignment (target equalToken : Token) (names : List Token) :
    MayCapture (emitAssignment target equalToken names : CompileM N Unit) := by
  unfold emitAssignment
  split
  · split
    · exact Stills.throw.mayCapture
    · exact mayCapture_emitGetterSetter _ _ _ _
  · intro before _ after runs
    obtain ⟨_, middle, gets, runs⟩ := run_bind_ok.mp runs
    have still := stills_emitPropertyPath _ _ _ _ runs
    exact (mayCapture_emitGetter _ _ _ _ gets).imp (·.trans still) (·.still still)

end

end Cpplox
