import Cpplox.Scoping.Occurrences
import Cpplox.Tracking.Lowers

namespace Cpplox

open Data

/-! What the compiler's two searches find. -/

def namesOf (locals : List TrackedLocal) : List Text := locals.map (·.name)

@[simp] theorem length_namesOf (locals : List TrackedLocal) :
    (namesOf locals).length = locals.length := by
  simp [namesOf]

theorem latest_namesOf (locals : List TrackedLocal) (name : Text) :
    latest (namesOf locals) name = (findLocal locals name).map (·.1) := by
  induction locals with
  | nil => rfl
  | cons tracked rest ih =>
      have tail : namesOf (tracked :: rest) = tracked.name :: namesOf rest := rfl
      rw [tail, latest, findLocal, length_namesOf]
      split
      · rfl
      · exact ih

theorem earliest_namesOf (locals : List TrackedLocal) (name : Text) :
    earliest (namesOf locals) name = findLocalFromBegin locals name := by
  induction locals with
  | nil => rfl
  | cons tracked rest ih =>
      have tail : namesOf (tracked :: rest) = tracked.name :: namesOf rest := rfl
      rw [tail, earliest, findLocalFromBegin, length_namesOf]
      exact ih ▸ rfl

theorem namesOf_captures {old new : List TrackedLocal} (captures : Captures old new) :
    namesOf new = namesOf old := by
  induction captures with
  | nil => rfl
  | cons marked _ ih => exact congrArg₂ List.cons marked.name ih

section Upvalues

variable {K : Type} {name : Text} {inner laterInner : FunctionChunk (List K)}
  {enclosing laterEnclosing : List (FunctionChunk (List K))} {index : Nat}

def outerNames (enclosing : List (FunctionChunk (List K))) : List (List Text) :=
  enclosing.map fun function => namesOf function.trackedLocals

/-- An upvalue goes back to the earliest variable of its name in the nearest function. -/
theorem trackUpvalue_follow
    (tracks : trackUpvalue name inner enclosing = some (index, laterInner, laterEnclosing)) :
    followUpvalue (Lower.scopeOf laterInner :: laterEnclosing.map Lower.scopeOf) index =
      (nearest earliest (outerNames enclosing) name).map deeper := by
  induction enclosing generalizing inner laterInner laterEnclosing index with
  | nil => cases tracks
  | cons outer rest ih =>
      obtain ⟨upvalue, rfl, rfl, ways⟩ := trackUpvalue_cases tracks
      have there := (insertUpvalue_spec inner.trackedUpvalues upvalue).2.1
      rw [followUpvalue, Lower.scopeOf, there]
      have names : outerNames (outer :: rest) = namesOf outer.trackedLocals :: outerNames rest := rfl
      rw [names, nearest, earliest_namesOf]
      rcases ways with ⟨outer, rest, localIndex, split, rfl, found, rfl⟩ |
        ⟨outer, rest, outerIndex, laterOuter, laterRest, split, rfl, missing, further, rfl⟩
      · cases split
        rw [found]
        rfl
      · cases split
        rw [missing]
        exact congrArg (Option.map deeper) (ih further)

theorem trackUpvalue_none (untracked : trackUpvalue name inner enclosing = none) :
    nearest earliest (outerNames enclosing) name = none := by
  induction enclosing generalizing inner with
  | nil => rfl
  | cons outer rest ih =>
      have names : outerNames (outer :: rest) = namesOf outer.trackedLocals :: outerNames rest := rfl
      rw [trackUpvalue] at untracked
      split at untracked
      next => cases untracked
      next missing =>
          rw [names, nearest, earliest_namesOf, missing]
          split at untracked
          next further => rw [ih further]; rfl
          next => cases untracked

theorem trackUpvalue_isSome
    (tracks : trackUpvalue name inner enclosing = some (index, laterInner, laterEnclosing)) :
    (nearest earliest (outerNames enclosing) name).isSome = true := by
  induction enclosing generalizing inner laterInner laterEnclosing index with
  | nil => cases tracks
  | cons outer rest ih =>
      have names : outerNames (outer :: rest) = namesOf outer.trackedLocals :: outerNames rest := rfl
      rw [names, nearest, earliest_namesOf]
      obtain ⟨_, -, -, ⟨outer, rest, localIndex, split, -, found, -⟩ |
        ⟨outer, rest, outerIndex, laterOuter, laterRest, split, -, missing, further, -⟩⟩ :=
          trackUpvalue_cases tracks
      · cases split
        rw [found]
        rfl
      · cases split
        rw [missing]
        simpa using ih further

end Upvalues

namespace Lower

variable {N : Type} {l after : Lower N}

/-- The declarations around the point that lowering has come to. -/
def visible (l : Lower N) : Visible :=
  ⟨namesOf l.back.trackedLocals, outerNames l.enclosing, l.scopeDepth⟩

theorem names_scopes (l : Lower N) :
    l.scopes.map (fun scope => scope.locals.map (·.name)) = l.visible.functions := by
  simp [scopes, scopeOf, visible, Visible.functions, namesOf, outerNames]

theorem outerNames_extends {K : Type} {old new : List (FunctionChunk (List K))}
    (extends_ : List.Forall₂ FunctionChunk.Extends old new) : outerNames new = outerNames old := by
  induction extends_ with
  | nil => rfl
  | cons same _ ih => exact congrArg₂ List.cons (namesOf_captures same.locals) ih

theorem Grows.visible {declared : List TrackedLocal} (grows : l.Grows declared after) :
    after.visible = { l.visible with inner := namesOf declared ++ l.visible.inner } := by
  obtain ⟨rest, split, extends_⟩ := grows.back
  have locals : namesOf after.back.trackedLocals =
      namesOf declared ++ namesOf l.back.trackedLocals := by
    rw [split, namesOf, List.map_append]
    exact congrArg (namesOf declared ++ ·) (namesOf_captures extends_.locals)
  simp only [Lower.visible, locals, outerNames_extends grows.enclosing, grows.scopeDepth]

theorem Steady.visible (steady : l.Steady after) : after.visible = l.visible := by
  rw [steady.grows.visible]
  rfl

end Lower

/-- The variable an instruction refers to. -/
def Emission.place? (emission : Emission) : Option (Nat × Nat) :=
  match emission.instr with
  | .operand .getLocal index | .operand .setLocal index => some (0, index)
  | .operand .getUpvalue index | .operand .setUpvalue index => followUpvalue emission.scopes index
  | _ => none

/-- The variable the compiler's two searches come to. -/
def Occurrence.found (occurrence : Occurrence) : Option (Nat × Nat) :=
  match occurrence.functions with
  | [] => none
  | inner :: outer =>
      match latest inner occurrence.token.lexeme with
      | some index => some (0, index)
      | none => (nearest earliest outer occurrence.token.lexeme).map deeper

/-- It is the innermost declaration unless the name is ambiguous. -/
theorem Occurrence.found_eq_nearest (occurrence : Occurrence) :
    occurrence.found = nearest latest occurrence.functions occurrence.token.lexeme ↔
      ¬ occurrence.Ambiguous := by
  obtain ⟨token, functions⟩ := occurrence
  cases functions with
  | nil => simp [found, nearest, Ambiguous]
  | cons inner outer =>
      simp only [found, nearest, Ambiguous]
      cases late : latest inner token.lexeme with
      | some index =>
          have present : times inner token.lexeme ≠ 0 := fun none => by
            rw [latest_none.mpr none] at late
            cases late
          simp [present]
      | none =>
          rw [and_iff_right (latest_none.mp late), ← nearest_latest_eq_earliest, eq_comm]
          exact (Option.map_injective deeper_injective).eq_iff

/-- The instruction at an occurrence, and the variable it refers to. -/
structure Emission.Resolves (emission : Emission) (occurrence : Occurrence) : Prop where
  isAt : emission.IsAt occurrence
  found : emission.place? = occurrence.found
  instr : emission.place?.isSome = true ∨ emission.place? = none ∧
    ∃ index, emission.instr = .operand .getGlobal index ∨ emission.instr = .operand .setGlobal index

/-- When it refers to the innermost declaration. -/
theorem Emission.Resolves.place {emission : Emission} {occurrence : Occurrence}
    (resolves : emission.Resolves occurrence) :
    emission.place? = nearest latest occurrence.functions occurrence.token.lexeme ↔
      ¬ occurrence.Ambiguous := by
  rw [resolves.found, occurrence.found_eq_nearest]

namespace Lower

variable {N : Type} [Number N] {l after : Lower N} {code : LoweredCode} {token : SourceMapToken Text}

theorem emitGetterSetter_resolves {localOpcode upvalueOpcode globalOpcode : Opcode}
    (localIs : localOpcode = .getLocal ∨ localOpcode = .setLocal)
    (upvalueIs : upvalueOpcode = .getUpvalue ∨ upvalueOpcode = .setUpvalue)
    (globalIs : globalOpcode = .getGlobal ∨ globalOpcode = .setGlobal)
    (runs : (emitGetterSetter localOpcode upvalueOpcode globalOpcode token).run l =
      some (code, after)) :
    ∃ emission : Emission, code = .plain emission ∧
      emission.Resolves (l.visible.occurrence token) := by
  have steady := emitGetterSetter_steady runs
  obtain ⟨named, accesses⟩ := emitGetterSetter_some runs
  have names : after.scopes.map (fun scope => scope.locals.map (·.name)) =
      (l.visible.occurrence token).functions := by
    rw [names_scopes, steady.visible]
    rfl
  have late := latest_namesOf l.back.trackedLocals token.lexeme
  have searches : (l.visible.occurrence token).found =
      match latest (namesOf l.back.trackedLocals) token.lexeme with
      | some index => some (0, index)
      | none => (nearest earliest (outerNames l.enclosing) token.lexeme).map deeper := rfl
  cases accesses with
  | @local_ index tracked found initialized =>
      rw [found] at late
      have place : ∀ emission : Emission, emission.instr = .operand localOpcode index →
          emission.place? = some (0, index) := by
        intro emission is
        rcases localIs with rfl | rfl <;> simp [Emission.place?, is]
      refine ⟨_, rfl, ⟨⟨rfl, rfl, names⟩, ?_, .inl (by rw [place _ rfl]; rfl)⟩⟩
      rw [place _ rfl, searches, late]
      rfl
  | @upvalue index back enclosing missing found =>
      rw [missing] at late
      have place : ∀ emission : Emission, emission.instr = .operand upvalueOpcode index →
          emission.place? = followUpvalue emission.scopes index := by
        intro emission is
        rcases upvalueIs with rfl | rfl <;> simp [Emission.place?, is]
      have follow := trackUpvalue_follow found
      have isSome := trackUpvalue_isSome found
      refine ⟨_, rfl, ⟨⟨rfl, rfl, names⟩, ?_, .inl ?_⟩⟩
      · rw [place _ rfl, searches, late]
        exact follow
      · rw [place _ rfl]
        change (followUpvalue (scopeOf back :: enclosing.map scopeOf) index).isSome = true
        rw [follow, Option.isSome_map]
        exact isSome
  | global missing untracked =>
      rw [missing] at late
      have early := trackUpvalue_none untracked
      have place : ∀ emission : Emission, ∀ index, emission.instr = .operand globalOpcode index →
          emission.place? = none := by
        intro emission index is
        rcases globalIs with rfl | rfl <;> simp [Emission.place?, is]
      let index := (insertConstant l.back.chunk (.string token.lexeme)).1
      refine ⟨_, rfl, ⟨⟨rfl, rfl, names⟩, ?_, .inr ⟨place _ _ rfl, index, ?_⟩⟩⟩
      · rw [place _ _ rfl, searches, late]
        simp [early]
      · rcases globalIs with rfl | rfl
        · exact .inl rfl
        · exact .inr rfl

end Lower

end Cpplox
