import Cpplox.Tracking.Reached

namespace Cpplox

open Data Routine

/-! Which locals have been captured: those that a function inside refers to. -/

section

variable {C : Type} {name : Text} {inner outer laterInner laterOuter : FunctionChunk C}
  {enclosing laterEnclosing rest laterRest : List (FunctionChunk C)} {level place : Nat}

/-- The function refers directly to a local of the function around it. -/
def FunctionChunk.RefersTo (nested : FunctionChunk C) (place : Nat) : Prop :=
  .upvalueIndex place ∈ nested.trackedUpvalues

/-- The locals of `outer` that get captured are those that `inner` comes to refer to. -/
def Flags (inner outer laterInner laterOuter : FunctionChunk C) : Prop :=
  ∀ place tracked laterTracked, slot? outer.trackedLocals place = some tracked →
    slot? laterOuter.trackedLocals place = some laterTracked →
    (inner.RefersTo place → tracked.isCaptured = true) →
      (laterTracked.isCaptured = true ↔ tracked.isCaptured = true ∨ laterInner.RefersTo place)

/-- Each function with the one around it. -/
inductive Flagged : FunctionChunk C → List (FunctionChunk C) → FunctionChunk C →
    List (FunctionChunk C) → Prop where
  | nil {inner laterInner : FunctionChunk C} : Flagged inner [] laterInner []
  | cons {inner outer laterInner laterOuter : FunctionChunk C} {rest laterRest : List (FunctionChunk C)} :
      Flags inner outer laterInner laterOuter → Flagged outer rest laterOuter laterRest →
      Flagged inner (outer :: rest) laterInner (laterOuter :: laterRest)

theorem flags_same (upvalues : laterInner.trackedUpvalues = inner.trackedUpvalues)
    (locals : laterOuter.trackedLocals = outer.trackedLocals) : Flags inner outer laterInner laterOuter := by
  intro place tracked laterTracked was is recorded
  rw [locals, was] at is
  cases is
  rw [FunctionChunk.RefersTo, upvalues]
  exact ⟨.inl, fun either => either.elim id recorded⟩

theorem Flagged.same (enclosing : List (FunctionChunk C))
    (upvalues : laterInner.trackedUpvalues = inner.trackedUpvalues) :
    Flagged inner enclosing laterInner enclosing := by
  induction enclosing generalizing inner laterInner with
  | nil => exact .nil
  | cons outer rest ih => exact .cons (flags_same upvalues rfl) (ih rfl)

theorem Flagged.length (flagged : Flagged inner enclosing laterInner laterEnclosing) :
    laterEnclosing.length = enclosing.length := by
  induction flagged with
  | nil => rfl
  | cons _ _ ih => simp only [List.length_cons, ih]

/-- What happened to a function that another one is in. -/
theorem Flagged.at_ (flagged : Flagged inner enclosing laterInner laterEnclosing)
    (was : slot? (inner :: enclosing) level = some outer)
    (is : slot? (laterInner :: laterEnclosing) level = some laterOuter) (nested : level < enclosing.length) :
    ∃ old new, slot? (inner :: enclosing) (level + 1) = some old ∧
      slot? (laterInner :: laterEnclosing) (level + 1) = some new ∧ Flags old outer new laterOuter := by
  induction flagged with
  | nil => exact absurd nested (Nat.not_lt_zero _)
  | @cons inner one laterInner two rest laterRest flags further ih =>
      have length := further.length
      rw [slot?_cons, if_neg (Nat.ne_of_lt nested)] at was
      rw [slot?_cons, if_neg (by rw [List.length_cons, length]; exact Nat.ne_of_lt nested)] at is
      by_cases here : level = rest.length
      · subst here
        rw [slot?_cons, if_pos rfl] at was
        rw [slot?_cons, if_pos length.symm] at is
        cases was
        cases is
        refine ⟨inner, laterInner, ?_, ?_, flags⟩
        · rw [slot?_cons, List.length_cons, if_pos rfl]
        · rw [slot?_cons, List.length_cons, length, if_pos rfl]
      · have below : level < rest.length := by
          rw [List.length_cons] at nested
          omega
        obtain ⟨old, new, before, after, flags⟩ := ih was is below
        refine ⟨old, new, ?_, ?_, flags⟩
        · rw [slot?_cons, if_neg (by rw [List.length_cons]; omega)]
          exact before
        · rw [slot?_cons, if_neg (by rw [List.length_cons, length]; omega)]
          exact after

theorem markCaptured_slot_ne {locals : List TrackedLocal} {index : Nat} (other : place ≠ index) :
    slot? (markCaptured locals index) place = slot? locals place := by
  induction locals with
  | nil => rfl
  | cons head rest ih =>
      rw [markCaptured]
      split
      next same => rw [slot?_cons, slot?_cons, if_neg (same ▸ other), if_neg (same ▸ other)]
      next => rw [slot?_cons, slot?_cons, length_markCaptured, ih]

theorem trackUpvalue_locals {index : Nat}
    (tracks : trackUpvalue name inner enclosing = some (index, laterInner, laterEnclosing)) :
    laterInner.trackedLocals = inner.trackedLocals := by
  obtain ⟨_, -, rfl, -⟩ := trackUpvalue_cases tracks
  rfl

/-- The one local that gets captured is the one that the new entry refers to. -/
theorem trackUpvalue_flagged {index : Nat}
    (tracks : trackUpvalue name inner enclosing = some (index, laterInner, laterEnclosing)) :
    Flagged inner enclosing laterInner laterEnclosing := by
  induction enclosing generalizing inner laterInner laterEnclosing index with
  | nil => cases tracks
  | cons outer rest ih =>
      obtain ⟨upvalue, -, rfl, ways⟩ := trackUpvalue_cases tracks
      rcases ways with ⟨_, _, found, split, rfl, -, rfl⟩ |
        ⟨_, _, outerIndex, laterOuter, laterRest, split, rfl, -, further, rfl⟩
      · cases split
        refine .cons (fun place tracked laterTracked was is recorded => ?_) (.same rest rfl)
        simp only [FunctionChunk.RefersTo, mem_insertUpvalue, TrackedUpvalue.upvalueIndex.injEq]
        by_cases same : place = found
        · subst same
          rw [markCaptured_slot was] at is
          cases is
          exact ⟨fun _ => .inr (.inr rfl), fun _ => rfl⟩
        · rw [markCaptured_slot_ne same, was] at is
          cases is
          exact ⟨.inl, fun either => either.elim id fun listed =>
            recorded (listed.resolve_right same)⟩
      · cases split
        refine .cons (fun place tracked laterTracked was is recorded => ?_) (ih further)
        rw [trackUpvalue_locals further, was] at is
        cases is
        simp only [FunctionChunk.RefersTo, mem_insertUpvalue, reduceCtorEq, or_false]
        exact ⟨.inl, fun either => either.elim id recorded⟩

end

namespace Compiler

variable {N : Type} {before after : Compiler N} {level place : Nat} {tracked laterTracked : TrackedLocal}

/-- `function_chunks`, the latest first. -/
def functions (compiler : Compiler N) : List (FunctionChunk (Chunk.Compiled N)) :=
  compiler.back :: compiler.enclosing

/-- A local of the function that is nested `level` deep. -/
def localAt? (compiler : Compiler N) (level place : Nat) : Option TrackedLocal :=
  (slot? compiler.functions level).bind fun function => slot? function.trackedLocals place

/-- A function inside of that function refers directly to the local. -/
def Refers (compiler : Compiler N) (level place : Nat) : Prop :=
  ∃ nested, slot? compiler.functions (level + 1) = some nested ∧ nested.RefersTo place

theorem localAt?_some : before.localAt? level place = some tracked ↔ ∃ function,
    slot? before.functions level = some function ∧
      slot? function.trackedLocals place = some tracked := by
  rw [localAt?, Option.bind_eq_some_iff]

/-- The locals of the function being compiled. -/
theorem localAt?_back (compiler : Compiler N) (place : Nat) :
    compiler.localAt? compiler.enclosing.length place = slot? compiler.back.trackedLocals place := by
  rw [localAt?, functions, slot?_cons, if_pos rfl]
  rfl

theorem localAt?_enclosing (compiler : Compiler N) (inside : level < compiler.enclosing.length) :
    compiler.localAt? level place =
      (slot? compiler.enclosing level).bind fun function => slot? function.trackedLocals place := by
  rw [localAt?, functions, slot?_cons, if_neg (Nat.ne_of_lt inside)]

theorem not_refers_back (compiler : Compiler N) (place : Nat) :
    ¬ compiler.Refers compiler.enclosing.length place := by
  rintro ⟨nested, found, -⟩
  exact absurd (slot?_lt found) (Nat.lt_irrefl _)

theorem level_le (found : before.localAt? level place = some tracked) :
    level ≤ before.enclosing.length := by
  obtain ⟨_, there, -⟩ := localAt?_some.mp found
  exact Nat.lt_succ_iff.mp (slot?_lt there)

/-- What an action does that leaves the functions as they are nested. -/
structure Flagging (before after : Compiler N) : Prop where
  flagged : Flagged before.back before.enclosing after.back after.enclosing
  back : ∀ place tracked laterTracked, slot? before.back.trackedLocals place = some tracked →
    slot? after.back.trackedLocals place = some laterTracked →
      laterTracked.isCaptured = tracked.isCaptured

theorem Flagging.captured (flagging : before.Flagging after)
    (was : before.localAt? level place = some tracked)
    (is : after.localAt? level place = some laterTracked)
    (recorded : before.Refers level place → tracked.isCaptured = true) :
    laterTracked.isCaptured = true ↔ tracked.isCaptured = true ∨ after.Refers level place := by
  have length := flagging.flagged.length
  rcases Nat.lt_or_eq_of_le (level_le was) with inside | rfl
  · obtain ⟨outer, found, was⟩ := localAt?_some.mp was
    obtain ⟨laterOuter, laterFound, is⟩ := localAt?_some.mp is
    obtain ⟨old, new, here, there, flags⟩ := flagging.flagged.at_ found laterFound inside
    rw [flags place tracked laterTracked was is fun refers => recorded ⟨old, here, refers⟩]
    refine or_congr_right ⟨fun refers => ⟨new, there, refers⟩, ?_⟩
    rintro ⟨other, same, refers⟩
    cases there.symm.trans same
    exact refers
  · rw [localAt?_back] at was
    rw [← length, localAt?_back] at is
    rw [flagging.back place tracked laterTracked was is, ← length]
    exact ⟨.inl, fun either => either.elim id fun refers => absurd refers (after.not_refers_back _)⟩

/-- The functions that an action leaves as they are, inside or out. -/
theorem captured_same (functions : ∀ function, slot? after.functions level = some function →
      slot? before.functions level = some function)
    (refers : after.Refers level place → before.Refers level place)
    (was : before.localAt? level place = some tracked)
    (is : after.localAt? level place = some laterTracked)
    (recorded : before.Refers level place → tracked.isCaptured = true) :
    laterTracked.isCaptured = true ↔ tracked.isCaptured = true ∨ after.Refers level place := by
  obtain ⟨function, found, is⟩ := localAt?_some.mp is
  rw [localAt?, functions function found, Option.bind_some] at was
  cases was.symm.trans is
  exact ⟨.inl, fun either => either.elim id fun listed => recorded (refers listed)⟩

theorem Flagging.of_same (enclosing : after.enclosing = before.enclosing)
    (upvalues : after.back.trackedUpvalues = before.back.trackedUpvalues)
    (back : ∀ place tracked laterTracked, slot? before.back.trackedLocals place = some tracked →
      slot? after.back.trackedLocals place = some laterTracked →
        laterTracked.isCaptured = tracked.isCaptured) : before.Flagging after :=
  ⟨enclosing ▸ .same before.enclosing upvalues, back⟩

/-- An action captures a local when a function inside starts to refer to it. -/
theorem Moves.captured (moves : before.Moves after)
    (was : before.localAt? level place = some tracked)
    (is : after.localAt? level place = some laterTracked)
    (recorded : before.Refers level place → tracked.isCaptured = true) :
    laterTracked.isCaptured = true ↔ tracked.isCaptured = true ∨ after.Refers level place := by
  cases moves with
  | still same enclosing =>
      refine (Flagging.of_same enclosing same.upvalues fun place old new was is => ?_).captured
        was is recorded
      rw [same.locals, was] at is
      exact congrArg TrackedLocal.isCaptured (Option.some.inj is.symm)
  | captures captures =>
      obtain ⟨name, index, back, tracks, same⟩ := captures.tracks
      have flagged := trackUpvalue_flagged tracks
      refine Flagging.captured ⟨?_, fun place old new was is => ?_⟩ was is recorded
      · generalize after.enclosing = enclosing at flagged
        generalize before.enclosing = earlier at flagged
        cases flagged with
        | nil => exact .nil
        | cons flags further =>
            refine .cons (fun place old new was is recorded => ?_) further
            rw [FunctionChunk.RefersTo, same.upvalues]
            exact flags place old new was is recorded
      · rw [same.locals, trackUpvalue_locals tracks, was] at is
        exact congrArg TrackedLocal.isCaptured (Option.some.inj is.symm)
  | declares declared _ locals upvalues enclosing =>
      refine (Flagging.of_same enclosing upvalues fun place old new was is => ?_).captured
        was is recorded
      rw [locals, slot?_cons, if_neg (Nat.ne_of_lt (slot?_lt was)), was] at is
      exact congrArg TrackedLocal.isCaptured (Option.some.inj is.symm)
  | drops dropped locals upvalues enclosing =>
      refine (Flagging.of_same enclosing upvalues fun place old new was is => ?_).captured
        was is recorded
      rw [locals, slot?_cons, if_neg (Nat.ne_of_lt (slot?_lt is)), is] at was
      exact congrArg TrackedLocal.isCaptured (Option.some.inj was)
  | initializes last rest locals laterLocals upvalues enclosing =>
      refine (Flagging.of_same enclosing upvalues fun place old new was is => ?_).captured
        was is recorded
      rw [locals, slot?_cons] at was
      rw [laterLocals, slot?_cons] at is
      split at was
      next here =>
          rw [if_pos here] at is
          cases was
          cases is
          rfl
      next other =>
          rw [if_neg other, was] at is
          exact congrArg TrackedLocal.isCaptured (Option.some.inj is.symm)
  | enters _ upvalues enclosing =>
      have inside := level_le was
      refine captured_same (fun function found => ?_) ?_ was is recorded
      · rw [functions, enclosing, slot?_cons, List.length_cons, if_neg (by omega)] at found
        exact found
      · rintro ⟨nested, found, refers⟩
        rw [functions, enclosing, slot?_cons, List.length_cons] at found
        split at found
        · cases found
          rw [FunctionChunk.RefersTo, upvalues] at refers
          cases refers
        · exact ⟨nested, found, refers⟩
  | leaves enclosing =>
      have found {level : Nat} {function : FunctionChunk (Chunk.Compiled N)}
          (found : slot? after.functions level = some function) :
          slot? before.functions level = some function := by
        have inside := slot?_lt found
        rw [functions, List.length_cons] at inside
        rw [functions, slot?_cons, enclosing, List.length_cons, if_neg (by omega)]
        exact found
      exact captured_same (fun _ => found) (fun ⟨nested, there, refers⟩ => ⟨nested, found there, refers⟩)
        was is recorded

theorem localAt?_congr (same : after.functions.map (·.declared) = before.functions.map (·.declared))
    (absent : before.localAt? level place = none) : after.localAt? level place = none := by
  have declared (compiler : Compiler N) : (compiler.localAt? level place).map (·.declared) =
      (slot? (compiler.functions.map (·.declared)) level).bind (slot? · place) := by
    rw [slot?_map, localAt?]
    cases slot? compiler.functions level with
    | none => rfl
    | some function => exact (slot?_map _ _ _).symm
  have equal := declared after
  rw [same, ← declared before, absent] at equal
  exact Option.map_eq_none_iff.mp equal

/-- A local appears when an action declares it. -/
theorem Moves.born (moves : before.Moves after) (absent : before.localAt? level place = none)
    (is : after.localAt? level place = some tracked) :
    tracked.isCaptured = false ∧ ¬ after.Refers level place := by
  have same (functions : after.functions.map (·.declared) = before.functions.map (·.declared)) :
      tracked.isCaptured = false ∧ ¬ after.Refers level place := by
    cases is.symm.trans (localAt?_congr functions absent)
  have older (found : ∀ function, slot? after.functions level = some function →
      slot? before.functions level = some function) :
      tracked.isCaptured = false ∧ ¬ after.Refers level place := by
    obtain ⟨function, there, listed⟩ := localAt?_some.mp is
    cases absent.symm.trans (localAt?_some.mpr ⟨function, found function there, listed⟩)
  have further (enclosing : after.enclosing = before.enclosing)
      (inside : level < after.enclosing.length) :
      tracked.isCaptured = false ∧ ¬ after.Refers level place := by
    rw [localAt?_enclosing after inside, enclosing] at is
    cases absent.symm.trans ((localAt?_enclosing before (enclosing ▸ inside)).trans is)
  cases moves with
  | still tracked enclosing =>
      refine same ?_
      simp only [functions, List.map_cons, FunctionChunk.declared, tracked.locals, enclosing]
  | captures captures =>
      have outlined := captures.outline
      rw [Compiler.outline, Compiler.outline, Outline.mk.injEq] at outlined
      exact same (List.cons_eq_cons.mpr outlined.2)
  | declares declared fresh locals upvalues enclosing =>
      rcases Nat.lt_or_eq_of_le (level_le is) with inside | rfl
      · exact further enclosing inside
      · refine ⟨?_, after.not_refers_back _⟩
        rw [enclosing, localAt?_back] at absent
        rw [localAt?_back, locals, slot?_cons] at is
        split at is
        · cases is
          exact fresh
        · cases absent.symm.trans is
  | drops dropped locals upvalues enclosing =>
      rcases Nat.lt_or_eq_of_le (level_le is) with inside | rfl
      · exact further enclosing inside
      · rw [localAt?_back] at is
        rw [enclosing, localAt?_back, locals, slot?_cons, if_neg (Nat.ne_of_lt (slot?_lt is)), is]
          at absent
        cases absent
  | initializes last rest locals laterLocals upvalues enclosing =>
      rcases Nat.lt_or_eq_of_le (level_le is) with inside | rfl
      · exact further enclosing inside
      · rw [localAt?_back, laterLocals, slot?_cons] at is
        rw [enclosing, localAt?_back, locals, slot?_cons] at absent
        split at absent
        · cases absent
        next other =>
            rw [if_neg other, absent] at is
            cases is
  | enters locals upvalues enclosing =>
      refine older fun function found => ?_
      obtain ⟨other, there, listed⟩ := localAt?_some.mp is
      cases there.symm.trans found
      rw [functions, enclosing, slot?_cons] at found
      split at found
      · cases found
        rw [locals] at listed
        cases listed
      · exact found
  | leaves enclosing =>
      refine older fun function found => ?_
      have inside := slot?_lt found
      rw [functions, List.length_cons] at inside
      rw [functions, slot?_cons, enclosing, List.length_cons, if_neg (by omega)]
      exact found

end Compiler

section

variable {N α : Type} [Number N] {level place : Nat} {tracked laterTracked : TrackedLocal}
  {first before middle after birth last : Config (Compiler N) Error (Proc.Result N) α}

/-- A run while a local stays. -/
def Lives (level place : Nat) (first last : Config (Compiler N) Error (Proc.Result N) α) : Prop :=
  Relation.ReflTransGen (fun before after => Step Control.body before after ∧
    (after.state.localAt? level place).isSome = true) first last

theorem Lives.steps (lives : Lives level place first last) : Steps Control.body first last :=
  Relation.ReflTransGen.mono (fun _ _ => And.left) _ _ lives

theorem Lives.some (lives : Lives level place first last)
    (was : first.state.localAt? level place = some tracked) :
    ∃ now, last.state.localAt? level place = .some now := by
  cases lives with
  | refl => exact ⟨tracked, was⟩
  | tail _ step => exact Option.isSome_iff_exists.mp step.2

/-- A local that was not there has been declared in between. -/
theorem exists_birth (steps : Steps Control.body first last)
    (absent : first.state.localAt? level place = none)
    (is : last.state.localAt? level place = some tracked) :
    ∃ before birth fresh, Steps Control.body first before ∧ Step Control.body before birth ∧
      before.state.localAt? level place = none ∧ birth.state.localAt? level place = some fresh ∧
      Lives level place birth last := by
  induction steps generalizing tracked with
  | refl => cases absent.symm.trans is
  | @tail middle last steps step ih =>
      cases there : middle.state.localAt? level place with
      | none => exact ⟨middle, last, tracked, steps, step, there, is, .refl⟩
      | some earlier =>
          obtain ⟨before, birth, fresh, until_, declares, absent, born, lives⟩ := ih there
          exact ⟨before, birth, fresh, until_, declares, absent, born,
            lives.tail ⟨step, Option.isSome_iff_exists.mpr ⟨tracked, is⟩⟩⟩

/-- The states of a run of the compiler. -/
def Tracks (config : Config (Compiler N) Error (Proc.Result N) α) : Prop :=
  config.routine.Meets (tracking N) (fun _ => True) (fun _ _ => True) config.state

theorem Tracks.step (tracks : Tracks before) (step : Step Control.body before after) :
    (after.state = before.state ∨ before.state.Moves after.state) ∧ Tracks after :=
  tracking_kept.step (fun _ _ _ _ => trivial) tracks step

theorem Tracks.steps (tracks : Tracks before) (steps : Steps Control.body before after) :
    Tracks after := (tracking_kept.steps (fun _ _ _ _ => trivial) tracks steps).2

theorem Tracks.captured (tracks : Tracks before) (step : Step Control.body before after)
    (was : before.state.localAt? level place = some tracked)
    (is : after.state.localAt? level place = some laterTracked)
    (recorded : before.state.Refers level place → tracked.isCaptured = true) :
    laterTracked.isCaptured = true ↔ tracked.isCaptured = true ∨ after.state.Refers level place := by
  obtain ⟨same | moves, -⟩ := tracks.step step
  · rw [same] at is ⊢
    cases was.symm.trans is
    exact ⟨.inl, fun either => either.elim id recorded⟩
  · exact moves.captured was is recorded

theorem Tracks.born (tracks : Tracks before) (step : Step Control.body before birth)
    (absent : before.state.localAt? level place = none)
    (is : birth.state.localAt? level place = some tracked) :
    tracked.isCaptured = false ∧ ¬ birth.state.Refers level place := by
  obtain ⟨same | moves, -⟩ := tracks.step step
  · rw [same] at is
    cases absent.symm.trans is
  · exact moves.born absent is

/-- A captured local stays captured. -/
theorem Tracks.stays (tracks : Tracks first) (lives : Lives level place first last)
    (was : first.state.localAt? level place = some tracked) (captured : tracked.isCaptured = true)
    (is : last.state.localAt? level place = some laterTracked) : laterTracked.isCaptured = true := by
  induction lives generalizing laterTracked with
  | refl =>
      cases was.symm.trans is
      exact captured
  | @tail middle last lives step ih =>
      obtain ⟨now, there⟩ := Lives.some lives was
      have earlier := ih there
      exact ((tracks.steps (Lives.steps lives)).captured step.1 there is fun _ => earlier).mpr (.inl earlier)

/-- A local that a function inside refers to has been captured. -/
theorem Tracks.recorded (tracks : Tracks birth) (lives : Lives level place birth last)
    (was : birth.state.localAt? level place = some tracked)
    (unlisted : ¬ birth.state.Refers level place)
    (is : last.state.localAt? level place = some laterTracked) (refers : last.state.Refers level place) :
    laterTracked.isCaptured = true := by
  induction lives generalizing laterTracked with
  | refl => exact absurd refers unlisted
  | @tail middle last lives step ih =>
      obtain ⟨now, there⟩ := Lives.some lives was
      exact ((tracks.steps (Lives.steps lives)).captured step.1 there is (ih there)).mpr (.inr refers)

/-- Since it was declared, a local is captured exactly when a function inside has come to
refer to it directly. -/
theorem Tracks.captured_iff (tracks : Tracks birth) (lives : Lives level place birth last)
    (was : birth.state.localAt? level place = some tracked) (fresh : tracked.isCaptured = false)
    (unlisted : ¬ birth.state.Refers level place)
    (is : last.state.localAt? level place = some laterTracked) :
    laterTracked.isCaptured = true ↔ ∃ middle, Lives level place birth middle ∧
      Lives level place middle last ∧ middle.state.Refers level place := by
  constructor
  · intro captured
    induction lives generalizing laterTracked with
    | refl =>
        cases was.symm.trans is
        cases fresh.symm.trans captured
    | @tail middle last lives step ih =>
        obtain ⟨now, there⟩ := Lives.some lives was
        have recorded := tracks.recorded lives was unlisted there
        rcases ((tracks.steps (Lives.steps lives)).captured step.1 there is recorded).mp captured with
          earlier | refers
        · obtain ⟨since, one, two, refers⟩ := ih there earlier
          exact ⟨since, one, two.tail step, refers⟩
        · exact ⟨last, lives.tail step, .refl, refers⟩
  · rintro ⟨middle, one, two, refers⟩
    obtain ⟨now, there⟩ := one.some was
    have captured := tracks.recorded one was unlisted there refers
    exact (tracks.steps one.steps).stays two there captured is

end

end Cpplox
