import Cpplox.Tracking.History

namespace Cpplox

open Data Routine

/-! What the compiler tracks about locals, and what it emits for them where their scope ends. -/

variable {N α : Type} [Number N] {outline : Outline} {entry last exit : Compiler N}

variable (N) in
/-- A state that the compiler reaches on a source. -/
def Control.Reaches (source : Text) (config : Config (Compiler N) Error (Proc.Result N) Unit) : Prop :=
  ∃ tokenIter, TokenIterator.ofSource source = .ok tokenIter ∧
    Steps Control.body (Control.compile tokenIter) config

/-- What the exit of a scope emits for a local. -/
def TrackedLocal.exitOpcode (tracked : TrackedLocal) : Opcode :=
  if tracked.isCaptured then .closeUpvalue else .pop

def Chunk.emitExits (chunk : Chunk.Compiled N) (token : SourceMapToken Text)
    (declared : List TrackedLocal) : Chunk.Compiled N :=
  declared.foldl (fun chunk tracked => chunk.emit tracked.exitOpcode token) chunk

/-- What is popped of the locals, and what for. -/
structure ClosesScope (token : SourceMapToken Text) (declared : List TrackedLocal)
    (last exit : Compiler N) : Prop where
  runs : (popTopScopeDepth token).run last = .ok ((), exit)
  locals : last.back.trackedLocals = declared ++ exit.back.trackedLocals
  chunk : exit.back.chunk = last.back.chunk.emitExits token declared

def Proc.isFunction : Proc → Bool
  | function _ _ _ => true
  | _ => false

/-- A local was declared in a run; it is captured if, since then, a function inside has come
to refer to it directly. -/
def CapturedSince (level place : Nat) (isCaptured : Bool)
    (first last : Config (Compiler N) Error (Proc.Result N) α) : Prop :=
  ∃ before birth, Steps Control.body first before ∧ Step Control.body before birth ∧
    before.state.localAt? level place = none ∧ Lives level place birth last ∧
    (isCaptured = true ↔ ∃ middle, Lives level place birth middle ∧
      Lives level place middle last ∧ middle.state.Refers level place)

/-- What is left of a scope when its end is reached, and what the exit makes of it. -/
def ExitsScope (entry exit : Compiler N) (first : Config (Compiler N) Error (Proc.Result N) α) : Prop :=
  ∃ token declared closing last, Steps Control.body first ⟨closing, last⟩ ∧
    ClosesScope token declared last exit ∧
    (∀ tracked ∈ declared, tracked.depth = entry.scopeDepth + 1) ∧
    ∀ place tracked, slot? last.back.trackedLocals place = some tracked →
      entry.back.trackedLocals.length ≤ place →
        CapturedSince entry.enclosing.length place tracked.isCaptured first ⟨closing, last⟩

theorem Control.Reaches.tracks {source : Text} {config : Config (Compiler N) Error (Proc.Result N) Unit}
    (reaches : Control.Reaches N source config) : Tracks config := by
  obtain ⟨tokenIter, -, steps⟩ := reaches
  have start : Tracks (Control.compile (N := N) tokenIter) := by
    refine ⟨⟨?_, ?_⟩, ?_, trivial, fun _ _ holds _ => ⟨holds, trivial⟩⟩
    · exact List.forall_mem_singleton.mpr (.nil 0)
    · exact List.forall_mem_singleton.mpr List.nodup_nil
    · exact ⟨nofun, fun _ _ => rfl, fun _ => nofun, nofun⟩
  exact start.steps steps

section

variable {source : Text} {procedure : Proc} {rest : procedure.Result N → Control N Unit}
  (reaches : Control.Reaches N source ⟨.call procedure rest, entry⟩)

include reaches

theorem Control.Reaches.called : (tracking N).holds entry ∧ entry.outline.Allows procedure :=
  ⟨reaches.tracks.1, reaches.tracks.2.1⟩

theorem Control.Reaches.inside : Tracks ⟨Control.body procedure, entry⟩ :=
  (tracking_kept.body _ _ reaches.called.1 reaches.called.2).mono (fun _ => id) fun _ _ _ => trivial

theorem Control.Reaches.ensures {value : procedure.Result N}
    (steps : Steps Control.body ⟨Control.body procedure, entry⟩ ⟨.done value, exit⟩) :
    (tracking N).ensures procedure entry value exit :=
  (tracking_kept.ensures reaches.called.1 reaches.called.2 steps).2

/-- The locals that the run of a scope declares. -/
theorem capturedSince {last : Compiler N} {closing : Control N (procedure.Result N)}
    {place : Nat} {tracked : TrackedLocal}
    (steps : Steps Control.body ⟨Control.body procedure, entry⟩ ⟨closing, last⟩)
    (same : last.enclosing.length = entry.enclosing.length)
    (found : slot? last.back.trackedLocals place = some tracked)
    (declared : entry.back.trackedLocals.length ≤ place) :
    CapturedSince entry.enclosing.length place tracked.isCaptured
      ⟨Control.body procedure, entry⟩ ⟨closing, last⟩ := by
  have absent : entry.localAt? entry.enclosing.length place = none := by
    rw [Compiler.localAt?_back, slot?_none declared]
  have is : last.localAt? entry.enclosing.length place = some tracked := by
    rw [← same, Compiler.localAt?_back, found]
  obtain ⟨before, birth, first, until_, declares, absent, born, lives⟩ :=
    exists_birth steps absent is
  refine ⟨before, birth, until_, declares, absent, lives, ?_⟩
  have earlier := reaches.inside.steps until_
  have tracks := (earlier.step declares).2
  obtain ⟨fresh, unlisted⟩ := earlier.born declares absent born
  exact tracks.captured_iff lives born fresh unlisted is

theorem Control.Reaches.exits {closing : α → Control N (procedure.Result N)}
    {token : α → SourceMapToken Text} (leaves : Leaves procedure.declares entry.outline exit)
    (closes : ∃ value declared last, Steps Control.body ⟨Control.body procedure, entry⟩
        ⟨closing value, last⟩ ∧ ClosesScope (token value) declared last exit ∧
      exit.enclosing = last.enclosing ∧
      ∀ tracked ∈ declared, tracked.depth = entry.outline.scopeDepth + 1) :
    ExitsScope entry exit ⟨Control.body procedure, entry⟩ := by
  obtain ⟨value, declared, last, steps, closes, enclosing, depth⟩ := closes
  refine ⟨token value, declared, closing value, last, steps, closes, depth, fun place tracked =>
    capturedSince reaches steps ?_⟩
  obtain ⟨_, same, -⟩ := leaves
  have length := congrArg (List.length ∘ Outline.enclosing) same
  simpa [Compiler.outline, Outline.declare, enclosing] using length

end

/-- A variable is captured through every function in between: the entry that is returned
leads to the local in the nearest function that has one of the name, every earlier entry
stays where it was, and no function ever lists an entry twice.  When no function around has
the name, there is no index and nothing to change. -/
theorem capture_chains (C : Type) (name : Text) (inner : FunctionChunk C)
    (enclosing : List (FunctionChunk C)) :
    (trackUpvalue name inner enclosing = none ↔ ∀ outer ∈ enclosing, ¬ outer.HasLocal name) ∧
    (∀ index laterInner laterEnclosing, trackUpvalue name inner enclosing = some (index, laterInner, laterEnclosing) →
      (∃ level tracked, Leads laterInner laterEnclosing index level tracked ∧ tracked.name = name ∧
        tracked.isCaptured = true ∧
        ∀ nearer outer, nearer < level → enclosing[nearer]? = some outer → ¬ outer.HasLocal name) ∧
      List.Forall₂ FunctionChunk.Keeps (inner :: enclosing) (laterInner :: laterEnclosing) ∧
      ((∀ function ∈ inner :: enclosing, function.Distinct) →
        ∀ function ∈ laterInner :: laterEnclosing, function.Distinct)) ∧
    ∀ source config, Control.Reaches N source config → config.state.Distinct :=
  ⟨trackUpvalue_eq_none, fun _ _ _ tracks =>
    ⟨trackUpvalue_leads tracks, trackUpvalue_keeps tracks, trackUpvalue_distinct tracks⟩,
    fun _ _ reaches => reaches.tracks.holds.2⟩

end Cpplox
