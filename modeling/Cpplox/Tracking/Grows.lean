import Cpplox.Ast.LowerSteps
import Cpplox.Tracking.Captures

namespace Cpplox

open Structured Data

/-! What lowering does to the tracked locals and upvalues. -/

namespace Lower

variable {N : Type}

/-- Lowering only adds: `declared` are the locals on top of the old ones. -/
structure Grows (l : Lower N) (declared : List TrackedLocal) (after : Lower N) : Prop where
  functions : l.functions <+: after.functions
  scopeDepth : after.scopeDepth = l.scopeDepth
  back : ∃ rest, after.back.trackedLocals = declared ++ rest ∧
    l.back.Extends { after.back with trackedLocals := rest }
  enclosing : List.Forall₂ FunctionChunk.Extends l.enclosing after.enclosing

/-- Only the latest local may wait for its value, and a placeholder is never captured. -/
structure Tracks (l : Lower N) : Prop where
  depths : ∀ tracked ∈ l.back.trackedLocals, tracked.depth ≤ l.scopeDepth
  initialized : ∀ tracked ∈ l.back.trackedLocals.tail, tracked.initialized = true
  nameless : ∀ tracked ∈ l.back.trackedLocals, tracked.name = [] → tracked.isCaptured = false
  linked : Linked l.back l.enclosing

/-- No local waits for its value. -/
def Settled (l : Lower N) : Prop := ∀ tracked ∈ l.back.trackedLocals, tracked.initialized = true

/-- What a declaration may leave on top of the locals. -/
structure Declares (l : Lower N) (declared : List TrackedLocal) : Prop where
  depth : ∀ tracked ∈ declared, tracked.depth = l.scopeDepth
  initialized : ∀ tracked ∈ declared, tracked.initialized = true
  nameless : ∀ tracked ∈ declared, tracked.name = [] → tracked.isCaptured = false
  top : l.scopeDepth = 0 → declared = []

theorem Declares.nil (l : Lower N) : l.Declares [] :=
  ⟨by simp, by simp, by simp, fun _ => rfl⟩

variable {l l₁ l₂ after : Lower N} {declared more : List TrackedLocal}

theorem Grows.refl (l : Lower N) : l.Grows [] l :=
  ⟨List.prefix_rfl, rfl, ⟨_, rfl, .refl _⟩, FunctionChunk.Extends.all_refl _⟩

theorem Grows.trans (first : l.Grows declared l₁) (second : l₁.Grows more l₂) :
    ∃ earlier, l.Grows (more ++ earlier) l₂ ∧ Captures declared earlier := by
  obtain ⟨rest, split, extends_⟩ := first.back
  obtain ⟨rest₁, split₁, extends₁⟩ := second.back
  have locals : Captures (declared ++ rest) rest₁ := split ▸ extends₁.locals
  obtain ⟨earlier, rest₂, rfl, above, below⟩ := locals.split
  refine ⟨earlier, ⟨first.functions.trans second.functions,
    second.scopeDepth.trans first.scopeDepth, ⟨rest₂, by simp [split₁], ?_⟩,
    FunctionChunk.Extends.all_trans first.enclosing second.enclosing⟩, above⟩
  exact extends_.trans ⟨extends₁.chunk, below, extends₁.upvalues, extends₁.isClassInitMethod⟩

theorem Grows.steady (first : l.Grows [] l₁) (second : l₁.Grows more l₂) : l.Grows more l₂ := by
  obtain ⟨earlier, grows, same⟩ := first.trans second
  cases same
  simpa using grows

theorem Grows.then_steady (first : l.Grows declared l₁) (second : l₁.Grows [] l₂) :
    ∃ later, l.Grows later l₂ ∧ Captures declared later := by
  simpa using first.trans second

theorem Grows.length_locals (grows : l.Grows [] after) :
    after.back.trackedLocals.length = l.back.trackedLocals.length := by
  obtain ⟨rest, split, extends_⟩ := grows.back
  rw [split, List.nil_append]
  exact extends_.locals.length

/-- Locals that were declared stay declared when they are captured. -/
theorem Declares.captures (declares : l.Declares declared) (captures : Captures declared more) :
    l.Declares more where
  depth tracked member := by
    obtain ⟨before, earlier, same⟩ := captures.mem member
    exact same.depth.trans (declares.depth before earlier)
  initialized tracked member := by
    obtain ⟨before, earlier, same⟩ := captures.mem member
    exact same.initialized.trans (declares.initialized before earlier)
  nameless tracked member unnamed := by
    obtain ⟨before, earlier, same⟩ := captures.mem member
    have old : before.name = [] := same.name ▸ unnamed
    exact (same.nameless old).trans (declares.nameless before earlier old)
  top top := by
    cases declares.top top
    cases captures
    rfl

theorem Declares.append (first : l.Declares declared) (second : l.Declares more) :
    l.Declares (more ++ declared) where
  depth tracked member := (List.mem_append.mp member).elim (second.depth _) (first.depth _)
  initialized tracked member :=
    (List.mem_append.mp member).elim (second.initialized _) (first.initialized _)
  nameless tracked member :=
    (List.mem_append.mp member).elim (second.nameless _) (first.nameless _)
  top top := by simp [first.top top, second.top top]

theorem Declares.of_scopeDepth (declares : l.Declares declared)
    (same : after.scopeDepth = l.scopeDepth) : after.Declares declared :=
  ⟨fun tracked member => (declares.depth tracked member).trans same.symm, declares.initialized,
    declares.nameless, fun top => declares.top (same ▸ top)⟩

/-- Growing keeps the tracking in order. -/
theorem Grows.tracks (grows : l.Grows declared after) (declares : l.Declares declared)
    (tracks : l.Tracks) (settled : declared ≠ [] → l.Settled) (linked : Linked after.back after.enclosing) :
    after.Tracks := by
  obtain ⟨rest, split, extends_⟩ := grows.back
  have old : ∀ tracked ∈ rest, ∃ before ∈ l.back.trackedLocals, before.Marked tracked :=
    fun tracked member => extends_.locals.mem member
  refine ⟨?_, ?_, ?_, linked⟩
  · intro tracked member
    rw [grows.scopeDepth]
    rw [split] at member
    rcases List.mem_append.mp member with new | kept
    · exact Nat.le_of_eq (declares.depth tracked new)
    · obtain ⟨before, earlier, same⟩ := old tracked kept
      exact same.depth ▸ tracks.depths before earlier
  · intro tracked member
    rw [split] at member
    cases declared with
    | nil =>
        have locals := extends_.locals
        simp only [List.nil_append] at member locals
        cases known : l.back.trackedLocals with
        | nil => rw [known] at locals; cases locals; cases member
        | cons head others =>
            rw [known] at locals
            cases locals with
            | cons _ tails =>
                obtain ⟨before, earlier, same⟩ := Captures.mem tails member
                have inTail : before ∈ l.back.trackedLocals.tail := by rw [known]; exact earlier
                exact same.initialized.trans (tracks.initialized before inTail)
    | cons head others =>
        rcases List.mem_append.mp member with new | kept
        · exact declares.initialized tracked (List.mem_cons_of_mem _ new)
        · obtain ⟨before, earlier, same⟩ := old tracked kept
          exact same.initialized.trans (settled (by simp) before earlier)
  · intro tracked member unnamed
    rw [split] at member
    rcases List.mem_append.mp member with new | kept
    · exact declares.nameless tracked new unnamed
    · obtain ⟨before, earlier, same⟩ := old tracked kept
      have nameless : before.name = [] := same.name ▸ unnamed
      exact (same.nameless nameless).trans (tracks.nameless before earlier nameless)

theorem Grows.settled (grows : l.Grows declared after) (declares : l.Declares declared)
    (settled : l.Settled) : after.Settled := by
  obtain ⟨rest, split, extends_⟩ := grows.back
  intro tracked member
  rw [split] at member
  rcases List.mem_append.mp member with new | kept
  · exact declares.initialized tracked new
  · obtain ⟨before, earlier, same⟩ := extends_.locals.mem kept
    exact same.initialized.trans (settled before earlier)

/-- A step that declares nothing. -/
structure Steady (l after : Lower N) : Prop where
  grows : l.Grows [] after
  linked : Linked l.back l.enclosing → Linked after.back after.enclosing

theorem Steady.refl (l : Lower N) : l.Steady l := ⟨.refl l, id⟩

theorem Steady.trans (first : l.Steady l₁) (second : l₁.Steady l₂) : l.Steady l₂ :=
  ⟨first.grows.steady second.grows, fun linked => second.linked (first.linked linked)⟩

theorem Steady.tracks (steady : l.Steady after) (tracks : l.Tracks) : after.Tracks :=
  steady.grows.tracks (.nil l) tracks (fun declares => absurd rfl declares)
    (steady.linked tracks.linked)

theorem Steady.settled (steady : l.Steady after) (settled : l.Settled) : after.Settled :=
  steady.grows.settled (.nil l) settled

theorem Steady.ready (steady : l.Steady after) (ready : l.Tracks ∧ l.Settled) :
    after.Tracks ∧ after.Settled :=
  ⟨steady.tracks ready.1, steady.settled ready.2⟩

theorem Grows.ready (grows : l.Grows declared after) (declares : l.Declares declared)
    (linked : Linked after.back after.enclosing) (ready : l.Tracks ∧ l.Settled) :
    after.Tracks ∧ after.Settled :=
  ⟨grows.tracks declares ready.1 (fun _ => ready.2) linked, grows.settled declares ready.2⟩

theorem steady_withConstants {constants : List (Constant N)} (longer : l.back.chunk <+: constants) :
    l.Steady (l.withConstants constants) where
  grows := ⟨List.prefix_rfl, rfl, ⟨_, rfl, longer, Captures.refl _, List.prefix_rfl, rfl⟩,
    FunctionChunk.Extends.all_refl _⟩
  linked linked := linked.back rfl

/-- Newly tracked locals lie on top of the old ones. -/
theorem grows_withLocals (l : Lower N) (declared : List TrackedLocal) :
    l.Grows declared (l.withLocals (declared ++ l.back.trackedLocals)) :=
  ⟨List.prefix_rfl, rfl, ⟨_, rfl, List.prefix_rfl, Captures.refl _, List.prefix_rfl, rfl⟩,
    FunctionChunk.Extends.all_refl _⟩

variable {code : LoweredCode} {token : SourceMapToken Text} {opcode : Opcode}
  {occurrence : Option Text}

theorem emitIndex_steady {index : Nat}
    (runs : (emitIndex opcode index token occurrence).run l = some (code, after)) : l.Steady after := by
  obtain ⟨-, rfl⟩ := emitIndex_some runs
  exact .refl _

theorem emitDefaultReturnValue_steady
    (runs : (emitDefaultReturnValue token).run l = some (code, after)) : l.Steady after := by
  obtain ⟨rfl, -⟩ := emitDefaultReturnValue_some runs
  exact .refl _

variable [Number N]

theorem steady_withConstant (l : Lower N) (value : Constant N) : l.Steady (l.withConstant value) :=
  steady_withConstants (insertConstant_longer _ _)

theorem emitWithConstant_steady {value : Constant N}
    (runs : (emitWithConstant opcode value token occurrence).run l = some (code, after)) :
    l.Steady after := by
  obtain ⟨-, rfl⟩ := emitWithConstant_some runs
  exact steady_withConstant l value

theorem emitGetterSetter_steady {localOpcode upvalueOpcode globalOpcode : Opcode}
    (runs : (emitGetterSetter localOpcode upvalueOpcode globalOpcode token).run l =
      some (code, after)) : l.Steady after := by
  obtain ⟨named, accesses⟩ := emitGetterSetter_some runs
  cases accesses with
  | local_ => exact .refl _
  | upvalue missing tracks =>
      refine ⟨?_, fun linked => trackUpvalue_linked named linked tracks⟩
      obtain ⟨back, -, -, enclosing⟩ := trackUpvalue_extends named tracks
      exact ⟨List.prefix_rfl, rfl, ⟨_, rfl, back⟩, enclosing⟩
  | global => exact steady_withConstant l _

theorem FollowsPath.steady {names : List Token} (follows : FollowsPath l names code after) :
    l.Steady after := by
  induction follows with
  | last runs => exact emitWithConstant_steady runs
  | step runs _ ih => exact (emitWithConstant_steady runs).trans ih

theorem emitAssignment_steady {target : Token} {names : List Token}
    (runs : (emitAssignment target names).run l = some (code, after)) : l.Steady after := by
  rcases emitAssignment_some runs with ⟨-, sets⟩ | ⟨_, _, _, gets, follows, -⟩
  · exact emitGetterSetter_steady sets
  · exact (emitGetterSetter_steady gets).trans follows.steady

theorem steady_withFunction (l : Lower N) (function : LoweredFunction N) :
    l.Steady (l.withFunction function) := by
  have adds : l.Steady { l with functions := l.functions ++ [function] } :=
    ⟨⟨List.prefix_append _ _, rfl, ⟨_, rfl, .refl _⟩, FunctionChunk.Extends.all_refl _⟩, id⟩
  exact adds.trans (steady_withConstant _ _)

theorem emitFunction_steady {function : LoweredFunction N} {leading : Bool}
    (runs : (emitFunction function token leading).run l = some (code, after)) : l.Steady after := by
  obtain ⟨rfl, -⟩ := emitFunction_some runs
  exact steady_withFunction l function

theorem defineGlobalAtTop_steady {name : Text}
    (runs : (defineGlobalAtTop name token).run l = some (code, after)) : l.Steady after := by
  rcases defineGlobalAtTop_some runs with ⟨-, emits⟩ | ⟨-, -, rfl⟩
  · exact emitWithConstant_steady emits
  · exact .refl _

end Lower

end Cpplox
