import Cpplox.Data.Enacts
import Cpplox.Structured.Code

namespace Structured

open Cpplox.Data

/-! What structured code does, and machines that run it as it is laid out. -/

/-- What plain instructions do to a state, and what conditional jumps find in it. -/
structure Actions (I P E : Type) where
  plain : I → EStateM (Stop E) P Unit
  test : P → Option Bool

variable {I T M P S E : Type}

/-- A state without a condition is stuck. -/
def Actions.condition (actions : Actions I P E) : EStateM (Stop E) P Bool := do
  match actions.test (← get) with
  | some result => return result
  | none => throw .stuck

/-- The increment of a loop comes after its body, wherever it is laid out. -/
def Code.does (actions : Actions I P E) (fuel : Nat) : Code I T M → EStateM (Stop E) P Unit
  | nil => return ()
  | plain instr => actions.plain instr
  | mark _ => return ()
  | seq first second => do
      first.does actions fuel
      second.does actions fuel
  | skipIfFalse _ body => do
      if ← actions.condition then body.does actions fuel else return ()
  | skipIfTrue _ body => do
      if ← actions.condition then return () else body.does actions fuel
  | branch _ whenTrue whenFalse => do
      if ← actions.condition then whenTrue.does actions fuel else whenFalse.does actions fuel
  | whileLoop _ condition body =>
      whileTrue (do
        condition.does actions fuel
        actions.condition) (body.does actions fuel) fuel
  | forLoop _ condition increment body =>
      whileTrue (do
        condition.does actions fuel
        actions.condition) (do
        body.does actions fuel
        increment.does actions fuel) fuel

/-- A part of what is laid out begins at an offset. -/
def PartAt (layout : Layout I) (flats : List (Flat I T)) (offset : Nat) (part : List (Flat I T)) : Prop :=
  ∃ earlier later, flats = earlier ++ (part ++ later) ∧ extent layout earlier = offset

variable {layout : Layout I} {flats left right : List (Flat I T)} {flat : Flat I T} {offset : Nat}

theorem PartAt.append (there : PartAt layout flats offset (left ++ right)) :
    PartAt layout flats offset left ∧ PartAt layout flats (offset + extent layout left) right := by
  obtain ⟨earlier, later, rfl, rfl⟩ := there
  exact ⟨⟨earlier, right ++ later, by simp, rfl⟩, earlier ++ left, later, by simp, by simp⟩

theorem PartAt.cons (there : PartAt layout flats offset (flat :: right)) :
    PartAt layout flats offset [flat] ∧ PartAt layout flats (offset + flat.size layout) right := by
  have together : PartAt layout flats offset ([flat] ++ right) := there
  simpa using together.append

/-- What a machine does at each instruction; `stands` says that it is at an offset, and
in which state the code is. -/
structure Implements (layout : Layout I) (actions : Actions I P E) (machine : Disturbed S P E)
    (flats : List (Flat I T)) (stands : Nat → P → S → Prop) : Prop where
  stable : ∀ offset inner, machine.Stable (stands offset inner)
  plain : ∀ fuel offset instr inner state, PartAt layout flats offset [.plain instr] →
    stands offset inner state →
    machine.Enacts fuel (actions.plain instr inner) (fun _ => stands (offset + layout.size instr)) state
  jump : ∀ offset tag distance inner state, PartAt layout flats offset [.jump tag distance] →
    stands offset inner state → ∃ after, machine.next state = some after ∧
      stands (offset + layout.jumpSize + distance) inner after
  jumpIfFalse : ∀ offset tag distance inner state result,
    PartAt layout flats offset [.jumpIfFalse tag distance] → stands offset inner state →
    actions.test inner = some result → ∃ after, machine.next state = some after ∧
      stands (offset + layout.jumpSize + if result then 0 else distance) inner after
  loop : ∀ offset tag distance target inner state, PartAt layout flats offset [.loop tag distance] →
    stands offset inner state → target + distance = offset + layout.jumpSize →
    ∃ after, machine.next state = some after ∧ stands target inner after

namespace Implements

variable {actions : Actions I P E} {machine : Disturbed S P E} {stands : Nat → P → S → Prop}
  {fuel place : Nat} {inner : P} {state : S}

theorem leads (implements : Implements layout actions machine flats stands)
    (steps : ∀ later, stands offset inner later →
      ∃ after, machine.next later = some after ∧ stands place inner after)
    (here : stands offset inner state) : machine.Leads (stands place inner) state := by
  refine .of_step (implements.stable offset inner) here fun later there => ?_
  obtain ⟨after, next, arrives⟩ := steps later there
  exact ⟨after, next, .of_stable (implements.stable place inner) arrives⟩

/-- The machine is at an offset where a condition has this result. -/
def Tested (actions : Actions I P E) (stands : Nat → P → S → Prop) (offset : Nat) (result : Bool)
    (inner : P) (state : S) : Prop :=
  stands offset inner state ∧ actions.test inner = some result

theorem stable_tested {result : Bool} (implements : Implements layout actions machine flats stands) :
    machine.Stable (Tested actions stands offset result inner) :=
  fun _ later disturbs tested => ⟨implements.stable _ _ _ later disturbs tested.1, tested.2⟩

theorem condition (implements : Implements layout actions machine flats stands)
    (here : stands offset inner state) :
    machine.Enacts fuel (actions.condition inner) (Tested actions stands offset) state := by
  have unfold : actions.condition inner = (match actions.test inner with
    | some result => pure result
    | none => throw .stuck : EStateM (Stop E) P Bool) inner := rfl
  rw [unfold]
  cases found : actions.test inner with
  | none => trivial
  | some result => exact Disturbed.Leads.of_stable implements.stable_tested ⟨here, found⟩

/-- The conditional jump at such an offset. -/
theorem tests {tag : T} {distance : Nat} {result : Bool}
    (implements : Implements layout actions machine flats stands)
    (there : PartAt layout flats offset [.jumpIfFalse tag distance])
    (tested : Tested actions stands offset result inner state)
    (goes : offset + layout.jumpSize + (if result then 0 else distance) = place) :
    machine.Leads (stands place inner) state := by
  obtain ⟨here, found⟩ := tested
  exact implements.leads (fun later laterThere =>
    goes ▸ implements.jumpIfFalse _ _ _ _ later _ there laterThere found) here

theorem jumps {tag : T} {distance : Nat} (implements : Implements layout actions machine flats stands)
    (there : PartAt layout flats offset [.jump tag distance]) (here : stands offset inner state)
    (goes : offset + layout.jumpSize + distance = place) : machine.Leads (stands place inner) state :=
  implements.leads (fun later laterThere => goes ▸ implements.jump _ _ _ _ later there laterThere) here

theorem loops {tag : T} {distance : Nat} (implements : Implements layout actions machine flats stands)
    (there : PartAt layout flats offset [.loop tag distance]) (here : stands offset inner state)
    (goes : place + distance = offset + layout.jumpSize) : machine.Leads (stands place inner) state :=
  implements.leads (fun later laterThere => implements.loop _ _ _ _ _ later there laterThere goes) here

/-- The machine does what the code does. -/
theorem enacts (implements : Implements layout actions machine flats stands) {code : Code I T M}
    (there : PartAt layout flats offset (code.flatten layout)) (here : stands offset inner state) :
    machine.Enacts fuel (code.does actions fuel inner)
      (fun _ => stands (offset + code.extent layout)) state := by
  induction code generalizing offset inner state with
  | nil | mark => exact .of_stable (implements.stable _ _) here
  | plain instr =>
      have total : (Code.plain instr : Code I T M).extent layout = layout.size instr := by
        simp [Code.extent, Code.flatten, Flat.size]
      rw [total]
      exact implements.plain fuel _ _ _ _ there here
  | seq first second ihFirst ihSecond =>
      obtain ⟨one, two⟩ := there.append
      have total : (Code.seq first second).extent layout = first.extent layout + second.extent layout := by
        simp [Code.extent, Code.flatten]
      rw [total, ← Nat.add_assoc]
      exact .bind (ihFirst one here) fun _ inner later arrives => ihSecond two arrives
  | skipIfFalse tag body ih =>
      obtain ⟨jumps, inside⟩ := there.cons
      have total : (Code.skipIfFalse tag body).extent layout = layout.jumpSize + body.extent layout := by
        simp [Code.extent, Code.flatten, Flat.size]
      rw [total, ← Nat.add_assoc]
      refine .bind (implements.condition here) fun result inner later tested => ?_
      cases result with
      | true => exact .after (implements.tests jumps tested rfl) fun later arrives => ih inside arrives
      | false => exact implements.tests jumps tested rfl
  | skipIfTrue tag body ih =>
      obtain ⟨jumps, rest⟩ := there.cons
      obtain ⟨passes, inside⟩ := rest.cons
      have total : (Code.skipIfTrue tag body).extent layout =
          layout.jumpSize + layout.jumpSize + body.extent layout := by
        simp [Code.extent, Code.flatten, Flat.size, Nat.add_assoc]
      rw [total, ← Nat.add_assoc, ← Nat.add_assoc]
      refine .bind (implements.condition here) fun result inner later tested => ?_
      cases result with
      | true =>
          exact .trans (implements.tests jumps tested rfl) fun later arrives =>
            implements.jumps passes arrives rfl
      | false => exact .after (implements.tests jumps tested rfl) fun later arrives => ih inside arrives
  | branch tag whenTrue whenFalse ihTrue ihFalse =>
      obtain ⟨jumps, rest⟩ := there.cons
      obtain ⟨yes, rest⟩ := rest.append
      obtain ⟨passes, no⟩ := rest.cons
      have total : (Code.branch tag whenTrue whenFalse).extent layout =
          layout.jumpSize + whenTrue.extent layout + layout.jumpSize + whenFalse.extent layout := by
        simp [Code.extent, Code.flatten, Flat.size, Nat.add_assoc]
      rw [total, ← Nat.add_assoc, ← Nat.add_assoc, ← Nat.add_assoc]
      refine .bind (implements.condition here) fun result inner later tested => ?_
      cases result with
      | true =>
          refine .after (implements.tests jumps tested rfl) fun later arrives => ?_
          exact .then_ (ihTrue yes arrives) fun _ inner later arrives =>
            implements.jumps passes arrives rfl
      | false =>
          exact .after (implements.tests jumps tested (Nat.add_assoc _ _ _).symm)
            fun later arrives => ihFalse no arrives
  | whileLoop tag condition body ihCondition ihBody =>
      obtain ⟨conditionAt, rest⟩ := there.append
      obtain ⟨exits, rest⟩ := rest.cons
      obtain ⟨bodyAt, again⟩ := rest.append
      have total : (Code.whileLoop tag condition body).extent layout =
          condition.extent layout + layout.jumpSize + (body.extent layout + layout.jumpSize) := by
        simp [Code.extent, Code.flatten, Flat.size, Nat.add_assoc]
      rw [total, ← Nat.add_assoc, ← Nat.add_assoc]
      have test (inner : P) (state : S) (here : stands offset inner state) :
          machine.Enacts fuel ((do condition.does actions fuel; actions.condition) inner)
            (Tested actions stands (offset + condition.extent layout)) state :=
        .bind (ihCondition conditionAt here) fun _ _ _ arrives => implements.condition arrives
      have enters (inner : P) (state : S)
          (tested : Tested actions stands (offset + condition.extent layout) true inner state) :
          ∃ after, machine.next state = some after ∧
            stands (offset + condition.extent layout + layout.jumpSize) inner after :=
        implements.jumpIfFalse _ _ _ _ _ _ exits tested.1 tested.2
      have repeats (inner : P) (state : S)
          (here : stands (offset + condition.extent layout + layout.jumpSize) inner state) :
          machine.Enacts fuel (body.does actions fuel inner) (fun _ => stands offset) state :=
        .then_ (ihBody bodyAt here) fun _ _ _ arrives => implements.loops again arrives (by
          simp only [Flat.size]
          omega)
      exact .whileTrue test (fun _ => implements.stable_tested) enters repeats
        (fun _ _ tested => implements.tests exits tested (by simp [Code.extent]; omega))
        fuel (Nat.le_refl fuel) here
  | forLoop tag condition increment body ihCondition ihIncrement ihBody =>
      obtain ⟨conditionAt, rest⟩ := there.append
      obtain ⟨exits, rest⟩ := rest.cons
      obtain ⟨passes, rest⟩ := rest.cons
      obtain ⟨incrementAt, rest⟩ := rest.append
      obtain ⟨back, rest⟩ := rest.cons
      obtain ⟨bodyAt, again⟩ := rest.append
      have same : offset + condition.extent layout + layout.jumpSize + layout.jumpSize +
          (increment.extent layout + layout.jumpSize) =
          offset + condition.extent layout + layout.jumpSize + layout.jumpSize +
            increment.extent layout + layout.jumpSize := (Nat.add_assoc _ _ _).symm
      have total : (Code.forLoop tag condition increment body).extent layout =
          condition.extent layout + layout.jumpSize + (layout.jumpSize + increment.extent layout +
            layout.jumpSize + body.extent layout + layout.jumpSize) := by
        simp [Code.extent, Code.flatten, Flat.size, Nat.add_assoc]
      rw [total, ← Nat.add_assoc, ← Nat.add_assoc]
      have test (inner : P) (state : S) (here : stands offset inner state) :
          machine.Enacts fuel ((do condition.does actions fuel; actions.condition) inner)
            (Tested actions stands (offset + condition.extent layout)) state :=
        .bind (ihCondition conditionAt here) fun _ _ _ arrives => implements.condition arrives
      have enters (inner : P) (state : S)
          (tested : Tested actions stands (offset + condition.extent layout) true inner state) :
          ∃ after, machine.next state = some after ∧
            stands (offset + condition.extent layout + layout.jumpSize) inner after :=
        implements.jumpIfFalse _ _ _ _ _ _ exits tested.1 tested.2
      have repeats (inner : P) (state : S)
          (here : stands (offset + condition.extent layout + layout.jumpSize) inner state) :
          machine.Enacts fuel ((do body.does actions fuel; increment.does actions fuel) inner)
            (fun _ => stands offset) state := by
        refine .after (implements.jumps passes here same) fun later arrives => ?_
        -- the body goes back to the increment, and the increment to the condition
        refine .bind (.then_ (ihBody bodyAt arrives) fun _ inner later arrives =>
          implements.loops again arrives ?_) fun _ inner later arrives =>
          .then_ (ihIncrement incrementAt arrives) fun _ inner later arrives =>
            implements.loops back arrives ?_
        · simp only [Flat.size]
          omega
        · simp only [Flat.size]
          omega
      exact .whileTrue test (fun _ => implements.stable_tested) enters repeats
        (fun _ _ tested => implements.tests exits tested (by simp [Code.extent]; omega))
        fuel (Nat.le_refl fuel) here

end Implements

end Structured
