import Cpplox.Contexts.Numbering
import Cpplox.Semantics.Evaluate

namespace Cpplox

open Structured Data Lower

/-! Where the lowered code finds the variables of the evaluator. -/

variable {N : Type} {name : Text} {index : Nat} {tracked : TrackedLocal}
  {locals rest declared : List TrackedLocal} {entries : List (Text × Datum N)}

theorem lookup_of_findLocal (named : entries.map (·.1) = locals.map (·.name))
    (found : findLocal locals name = some (index, tracked)) :
    ∃ value, lookup entries name = some value ∧ slot? (entries.map (·.2)) index = some value := by
  induction locals generalizing entries with
  | nil => cases found
  | cons head others ih =>
      cases entries with
      | nil => simp at named
      | cons entry rest =>
          obtain ⟨key, value⟩ := entry
          simp only [List.map_cons, List.cons.injEq] at named
          obtain ⟨rfl, named⟩ := named
          have length : others.length = rest.length := by simpa using (congrArg List.length named).symm
          rw [findLocal] at found
          simp only [lookup_cons, List.map_cons, slot?_cons, List.length_map]
          split at found
          next same =>
              cases found
              exact ⟨value, by simp [same, length]⟩
          next different =>
              obtain ⟨other, known, there⟩ := ih named found
              have below := slot?_lt there
              rw [List.length_map] at below
              exact ⟨other, by simp [different, known, there, Nat.ne_of_lt below]⟩

theorem lookup_none_of_findLocal (named : entries.map (·.1) = locals.map (·.name))
    (missing : findLocal locals name = none) : lookup entries name = none := by
  induction locals generalizing entries with
  | nil =>
      rw [List.map_nil, List.map_eq_nil_iff] at named
      rw [named]
      rfl
  | cons head others ih =>
      cases entries with
      | nil => rfl
      | cons entry rest =>
          obtain ⟨key, value⟩ := entry
          simp only [List.map_cons, List.cons.injEq] at named
          obtain ⟨rfl, named⟩ := named
          rw [findLocal] at missing
          split at missing
          next => cases missing
          next different => simp [lookup_cons, different, ih named missing]

/-- The names stay when a variable is assigned. -/
theorem assign_of_findLocal (named : entries.map (·.1) = locals.map (·.name))
    (found : findLocal locals name = some (index, tracked)) (value : Datum N) :
    (assign entries name value).map (·.1) = entries.map (·.1) ∧
      (assign entries name value).map (·.2) = setSlot (entries.map (·.2)) index value := by
  induction locals generalizing entries with
  | nil => cases found
  | cons head others ih =>
      cases entries with
      | nil => simp at named
      | cons entry rest =>
          obtain ⟨key, old⟩ := entry
          simp only [List.map_cons, List.cons.injEq] at named
          obtain ⟨rfl, named⟩ := named
          have length : others.length = rest.length := by simpa using (congrArg List.length named).symm
          rw [findLocal] at found
          simp only [assign, List.map_cons, setSlot, List.length_map]
          split at found
          next same =>
              cases found
              simp [same, length]
          next different =>
              obtain ⟨keys, values⟩ := ih named found
              obtain ⟨other, -, there⟩ := lookup_of_findLocal named found
              have below := slot?_lt there
              rw [List.length_map] at below
              simp [different, keys, values, Nat.ne_of_lt below]

namespace Lower

/-- The tracked locals that are in place. -/
def placed (l : Lower N) : List TrackedLocal := l.back.trackedLocals.filter (·.initialized)

variable {l l₁ after : Lower N}

/-- An initialized local is found among those in place, with the same index. -/
theorem findLocal_placed (tracks : l.Tracks)
    (found : findLocal l.back.trackedLocals name = some (index, tracked))
    (initialized : tracked.initialized = true) : findLocal l.placed name = some (index, tracked) := by
  have settled := tracks.initialized
  unfold placed
  cases known : l.back.trackedLocals with
  | nil =>
      rw [known] at found
      cases found
  | cons head others =>
      rw [known] at found settled
      have all : others.filter (·.initialized) = others := List.filter_eq_self.mpr settled
      cases waits : head.initialized with
      | true => simpa [waits, all] using found
      | false =>
          rw [findLocal] at found
          split at found
          next =>
              cases found
              rw [waits] at initialized
              cases initialized
          next => simpa [waits, all] using found

theorem findLocal_placed_none (missing : findLocal l.back.trackedLocals name = none) :
    findLocal l.placed name = none := by
  unfold placed
  generalize l.back.trackedLocals = all at missing
  induction all with
  | nil => rfl
  | cons head others ih =>
      rw [findLocal] at missing
      split at missing
      next => cases missing
      next different =>
          rw [List.filter_cons]
          split
          · simp [findLocal, different, ih missing]
          · exact ih missing

theorem Captures.placed {marked : List TrackedLocal} (captures : Captures locals marked) :
    (marked.filter (·.initialized)).map (·.name) = (locals.filter (·.initialized)).map (·.name) := by
  induction captures with
  | nil => rfl
  | cons marks _ ih =>
      have same := marks.initialized
      simp only [List.filter_cons, same]
      split <;> simp [marks.name, ih]

/-- What was declared lies on what was in place. -/
theorem Grows.placed (grows : l.Grows declared after) (declares : l₁.Declares declared) :
    after.placed.map (·.name) = declared.map (·.name) ++ l.placed.map (·.name) := by
  obtain ⟨rest, split, extends_⟩ := grows.back
  have all : declared.filter (·.initialized) = declared :=
    List.filter_eq_self.mpr declares.initialized
  rw [Lower.placed, split, List.filter_append, all, List.map_append]
  exact congrArg _ (Captures.placed extends_.locals)

theorem Steady.placed (steady : l.Steady after) : after.placed.map (·.name) = l.placed.map (·.name) :=
  steady.grows.placed (.nil l)

end Lower

/-- The variables of the scopes are those in place. -/
def State.Named (state : State N) (l : Lower N) : Prop :=
  state.locals.map (·.1) = l.placed.map (·.name)

def State.store (temporaries : List (Datum N)) (state : State N) : Store N where
  stack := temporaries ++ state.locals.map (·.2)
  globals := state.globals
  output := state.output

/-- What is left to a program when there is no result. -/
def Agrees (state : State N) (store : Store N) : Prop :=
  store.globals = state.globals ∧ store.output = state.output

/-- The store is that of the state, with values above the variables. -/
def Reflects (l : Lower N) (temporaries : List (Datum N)) (state : State N) (store : Store N) : Prop :=
  store = state.store temporaries ∧ state.Named l

variable {l after : Lower N} {state : State N} {temporaries : List (Datum N)}

theorem Reflects.agrees {store : Store N} (reflects : Reflects l temporaries state store) :
    Agrees state store := by
  obtain ⟨rfl, -⟩ := reflects
  exact ⟨rfl, rfl⟩

section

variable {value old : Datum N}

theorem State.read_local (known : lookup state.locals name = some value) :
    state.read name = some value := by
  simp [State.read, known]

theorem State.read_global (unknown : lookup state.locals name = none) :
    state.read name = state.globals name := by
  simp [State.read, unknown]

theorem State.write_local (known : lookup state.locals name = some old) :
    state.write name value = some { state with locals := assign state.locals name value } := by
  simp [State.write, known]

theorem State.write_global (unknown : lookup state.locals name = none)
    (defined : state.globals name = some old) : state.write name value =
      some { state with globals := Function.update state.globals name (some value) } := by
  simp [State.write, unknown, defined]

theorem State.write_none (unknown : lookup state.locals name = none)
    (undefined : state.globals name = none) : state.write name value = none := by
  simp [State.write, unknown, undefined]

end

theorem State.agrees (state : State N) (temporaries : List (Datum N)) :
    Agrees state (state.store temporaries) := ⟨rfl, rfl⟩

theorem State.Named.steady (named : state.Named l) (steady : l.Steady after) : state.Named after :=
  named.trans steady.placed.symm

end Cpplox
