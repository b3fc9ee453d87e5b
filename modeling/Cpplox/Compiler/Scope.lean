import Cpplox.Chunk

namespace Cpplox

/-! What the compiler tracks about the functions it is inside of.

The vectors `tracked_locals` and `function_chunks` are kept back first: the head of
the list is `back()`.  An index into `tracked_locals` counts from `begin()`, so the
element at the head of `local :: rest` has index `rest.length`. -/

structure TrackedLocal where
  name : Text
  depth : Nat := 0
  initialized : Bool := true
  isCaptured : Bool := false
deriving DecidableEq, Repr

/-- Generic in what is emitted into. -/
structure FunctionChunk (C : Type) where
  chunk : C
  trackedLocals : List TrackedLocal := []
  trackedUpvalues : List TrackedUpvalue := []
  isClassInitMethod : Bool := false

/-- The same tracking for something else that is emitted into. -/
def FunctionChunk.map {C D : Type} (f : C → D) (function : FunctionChunk C) : FunctionChunk D where
  chunk := f function.chunk
  trackedLocals := function.trackedLocals
  trackedUpvalues := function.trackedUpvalues
  isClassInitMethod := function.isClassInitMethod

/-- The search from `crbegin()`: the latest local of that name and its index. -/
def findLocal : List TrackedLocal → Text → Option (Nat × TrackedLocal)
  | [], _ => none
  | tracked :: rest, name =>
      if tracked.name = name then some (rest.length, tracked) else findLocal rest name

/-- The search from `begin()`: the index of the earliest local of that name. -/
def findLocalFromBegin : List TrackedLocal → Text → Option Nat
  | [], _ => none
  | tracked :: rest, name =>
      match findLocalFromBegin rest name with
      | some index => some index
      | none => if tracked.name = name then some rest.length else none

/-- Sets `is_captured` on the local at an index. -/
def markCaptured : List TrackedLocal → Nat → List TrackedLocal
  | [], _ => []
  | tracked :: rest, index =>
      if index = rest.length then { tracked with isCaptured := true } :: rest
      else tracked :: markCaptured rest index

/-- Reuses an equal entry or appends a new one. -/
def insertUpvalue (upvalues : List TrackedUpvalue) (upvalue : TrackedUpvalue) :
    Nat × List TrackedUpvalue :=
  match upvalues.findIdx? (· = upvalue) with
  | some index => (index, upvalues)
  | none => (upvalues.length, upvalues ++ [upvalue])

/-- `track_upvalue` walks outward to the nearest enclosing function with a local of
that name and back inward, leaving one entry at each level; here the way back is
the return from the recursion. -/
def trackUpvalue (name : Text) : FunctionChunk C → List (FunctionChunk C) →
    Option (Nat × FunctionChunk C × List (FunctionChunk C))
  | _, [] => none
  | inner, outer :: rest =>
      match findLocalFromBegin outer.trackedLocals name with
      | some localIndex =>
          let (index, upvalues) := insertUpvalue inner.trackedUpvalues (.upvalueIndex localIndex)
          some (index, { inner with trackedUpvalues := upvalues },
            { outer with trackedLocals := markCaptured outer.trackedLocals localIndex } :: rest)
      | none =>
          match trackUpvalue name outer rest with
          | none => none
          | some (outerIndex, outer, rest) =>
              let (index, upvalues) :=
                insertUpvalue inner.trackedUpvalues (.upUpvalueIndex outerIndex)
              some (index, { inner with trackedUpvalues := upvalues }, outer :: rest)

/-- Tracking an upvalue does not look at what is emitted. -/
theorem trackUpvalue_map {C D : Type} (f : C → D) (name : Text) (inner : FunctionChunk C)
    (enclosing : List (FunctionChunk C)) :
    trackUpvalue name (inner.map f) (enclosing.map (·.map f)) =
      (trackUpvalue name inner enclosing).map fun (index, inner, enclosing) =>
        (index, inner.map f, enclosing.map (·.map f)) := by
  induction enclosing generalizing inner with
  | nil => rfl
  | cons outer rest ih =>
      simp only [List.map_cons, trackUpvalue, ih outer]
      have locals : (outer.map f).trackedLocals = outer.trackedLocals := rfl
      rw [locals]
      cases findLocalFromBegin outer.trackedLocals name with
      | some localIndex => rfl
      | none => cases trackUpvalue name outer rest <;> rfl

theorem trackUpvalue_chunks {C : Type} {name : Text} {inner laterInner : FunctionChunk C}
    {enclosing laterEnclosing : List (FunctionChunk C)} {index : Nat}
    (tracks : trackUpvalue name inner enclosing = some (index, laterInner, laterEnclosing)) :
    laterInner.chunk = inner.chunk ∧ laterEnclosing.map (·.chunk) = enclosing.map (·.chunk) := by
  induction enclosing generalizing inner laterInner laterEnclosing index with
  | nil => cases tracks
  | cons outer rest ih =>
      simp only [trackUpvalue] at tracks
      cases found : findLocalFromBegin outer.trackedLocals name with
      | some localIndex =>
          rw [found] at tracks
          cases tracks
          exact ⟨rfl, rfl⟩
      | none =>
          rw [found] at tracks
          cases deeper : trackUpvalue name outer rest with
          | none => rw [deeper] at tracks; cases tracks
          | some result =>
              obtain ⟨outerIndex, laterOuter, laterRest⟩ := result
              rw [deeper] at tracks
              cases tracks
              obtain ⟨same, others⟩ := ih deeper
              exact ⟨rfl, by simp [same, others]⟩

/-- Whether this scope already has a local of that name. -/
def isRedeclared (locals : List TrackedLocal) (depth : Nat) (name : Text) : Bool :=
  locals.any fun tracked => tracked.depth = depth && tracked.name = name

/-- A function object: its name, arity and chunk. -/
structure Function (K L : Type) where
  name : L
  arity : Nat
  chunk : Chunk K L

def thisName : Text := "this".toList
def superName : Text := "super".toList
def initName : Text := "init".toList

end Cpplox
