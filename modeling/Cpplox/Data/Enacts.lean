import Cpplox.Data.Simulates
import Mathlib.Logic.Relation
import Mathlib.Tactic.Common

namespace Cpplox.Data

/-! Machines that are disturbed between their steps, and the programs they enact. -/

open Relation

/-- What may happen to a state between two steps, the next state, and where the machine
stops with an error while the program it enacts is in a state `T`. -/
structure Disturbed (S T E : Type) where
  disturbs : S → S → Prop
  next : S → Option S
  fails : E → T → S → Prop

namespace Disturbed

variable {S T E A B : Type}

/-- Whatever disturbs it, the machine makes step after step and gets to such a state. -/
inductive Leads (machine : Disturbed S T E) (post : S → Prop) : S → Prop
  | now {state : S} : (∀ later, ReflTransGen machine.disturbs state later → post later) →
      Leads machine post state
  | step {state : S} :
      (∀ later, ReflTransGen machine.disturbs state later → ∃ after, machine.next later = some after) →
      (∀ later after, ReflTransGen machine.disturbs state later → machine.next later = some after →
        Leads machine post after) → Leads machine post state

/-- Whatever disturbs it, the machine makes at least this many steps. -/
def Lasts (machine : Disturbed S T E) : Nat → S → Prop
  | 0, _ => True
  | count + 1, state => ∀ later, ReflTransGen machine.disturbs state later →
      ∃ after, machine.next later = some after ∧ machine.Lasts count after

/-- A property that is not disturbed. -/
def Stable (machine : Disturbed S T E) (property : S → Prop) : Prop :=
  ∀ state later, machine.disturbs state later → property state → property later

/-- The machine does what a program does: it gets to where the program has its result, or
stops where the program fails; and it runs as long as the program has fuel. -/
def Enacts (machine : Disturbed S T E) (fuel : Nat) (result : EStateM.Result (Stop E) T A)
    (post : A → T → S → Prop) (state : S) : Prop :=
  match result with
  | .ok value inner => machine.Leads (post value inner) state
  | .error (.failed error) inner => machine.Leads (machine.fails error inner) state
  | .error .outOfFuel _ => machine.Lasts fuel state
  | .error .stuck _ => True

/-- One step does what a program does. -/
def Performs (machine : Disturbed S T E) (result : EStateM.Result (Stop E) T A)
    (post : A → T → S → Prop) (state : S) : Prop :=
  match result with
  | .ok value inner => ∃ after, machine.next state = some after ∧ post value inner after
  | .error (.failed error) inner => machine.fails error inner state
  | .error .outOfFuel _ => False
  | .error .stuck _ => True

variable {machine : Disturbed S T E}

theorem Stable.all {property : S → Prop} (stable : machine.Stable property) {state later : S}
    (disturbed : ReflTransGen machine.disturbs state later) (holds : property state) :
    property later := by
  induction disturbed with
  | refl => exact holds
  | tail _ disturbs ih => exact stable _ _ disturbs ih

namespace Leads

variable {mid post property : S → Prop} {state : S}

theorem of_stable (stable : machine.Stable post) (holds : post state) : machine.Leads post state :=
  .now fun _ disturbed => stable.all disturbed holds

theorem trans (first : machine.Leads mid state)
    (second : ∀ later, mid later → machine.Leads post later) : machine.Leads post state := by
  induction first with
  | now holds => exact second _ (holds _ .refl)
  | step steps _ ih => exact .step steps ih

theorem mono (leads : machine.Leads mid state) (implies : ∀ later, mid later → post later) :
    machine.Leads post state := by
  induction leads with
  | now holds => exact .now fun later disturbed => implies later (holds later disturbed)
  | step steps _ ih => exact .step steps ih

/-- A step from wherever a stable property holds. -/
theorem of_step (stable : machine.Stable property) (holds : property state)
    (steps : ∀ later, property later →
      ∃ after, machine.next later = some after ∧ machine.Leads post after) :
    machine.Leads post state := by
  refine .step (fun later disturbed => ?_) fun later after disturbed next => ?_
  · obtain ⟨after, next, -⟩ := steps later (stable.all disturbed holds)
    exact ⟨after, next⟩
  · obtain ⟨other, laterNext, leads⟩ := steps later (stable.all disturbed holds)
    rw [laterNext] at next
    cases next
    exact leads

end Leads

namespace Lasts

variable {count : Nat} {property : S → Prop} {state : S}

theorem fewer (lasts : machine.Lasts (count + 1) state) : machine.Lasts count state := by
  induction count generalizing state with
  | zero => trivial
  | succ count ih =>
      intro later disturbed
      obtain ⟨after, next, rest⟩ := lasts later disturbed
      exact ⟨after, next, ih rest⟩

theorem mono {less : Nat} (lasts : machine.Lasts count state) (fewer : less ≤ count) :
    machine.Lasts less state := by
  induction fewer with
  | refl => exact lasts
  | step _ ih => exact ih lasts.fewer

theorem of_leads {mid : S → Prop} (leads : machine.Leads mid state)
    (lasts : ∀ later, mid later → machine.Lasts count later) : machine.Lasts count state := by
  induction leads with
  | now holds => exact lasts _ (holds _ .refl)
  | step steps _ ih =>
      refine fewer fun later disturbed => ?_
      obtain ⟨after, next⟩ := steps later disturbed
      exact ⟨after, next, ih later after disturbed next⟩

theorem of_step (stable : machine.Stable property) (holds : property state)
    (steps : ∀ later, property later →
      ∃ after, machine.next later = some after ∧ machine.Lasts count after) :
    machine.Lasts (count + 1) state :=
  fun later disturbed => steps later (stable.all disturbed holds)

end Lasts

namespace Enacts

variable {fuel less : Nat} {mid : A → T → S → Prop} {post other : B → T → S → Prop}
  {first : EStateM (Stop E) T A} {rest : A → EStateM (Stop E) T B} {inner : T} {state : S}

/-- What the machine does first, on the way to a program. -/
theorem after {result : EStateM.Result (Stop E) T B} {reached : S → Prop}
    (leads : machine.Leads reached state)
    (enacts : ∀ later, reached later → machine.Enacts fuel result post later) :
    machine.Enacts fuel result post state := by
  cases result with
  | ok value inner => exact leads.trans enacts
  | error stop inner =>
      cases stop with
      | failed error => exact leads.trans enacts
      | outOfFuel => exact .of_leads leads enacts
      | stuck => trivial

theorem bind (one : machine.Enacts fuel (first inner) mid state)
    (two : ∀ value inner later, mid value inner later →
      machine.Enacts fuel (rest value inner) post later) :
    machine.Enacts fuel ((first >>= rest) inner) post state := by
  change machine.Enacts fuel (EStateM.bind first rest inner) post state
  unfold EStateM.bind
  cases runs : first inner with
  | ok value middle =>
      rw [runs] at one
      exact after one fun later holds => two value middle later holds
  | error stop middle =>
      rw [runs] at one
      cases stop <;> exact one

/-- What the machine does last. -/
theorem then_ {result : EStateM.Result (Stop E) T B} (enacts : machine.Enacts fuel result post state)
    (leads : ∀ value inner later, post value inner later → machine.Leads (other value inner) later) :
    machine.Enacts fuel result other state := by
  cases result with
  | ok value inner => exact Leads.trans enacts (leads value inner)
  | error stop inner => cases stop <;> exact enacts

theorem mono {result : EStateM.Result (Stop E) T B} (enacts : machine.Enacts fuel result post state)
    (implies : ∀ value inner later, post value inner later → other value inner later) :
    machine.Enacts fuel result other state := by
  cases result with
  | ok value inner => exact Leads.mono enacts (implies value inner)
  | error stop inner => cases stop <;> exact enacts

theorem fewer {result : EStateM.Result (Stop E) T B} (enacts : machine.Enacts fuel result post state)
    (bound : less ≤ fuel) : machine.Enacts less result post state := by
  cases result with
  | ok value inner => exact enacts
  | error stop inner =>
      cases stop with
      | failed error => exact enacts
      | outOfFuel => exact Lasts.mono enacts bound
      | stuck => trivial

/-- A step from wherever a stable property holds. -/
theorem of_step {result : EStateM.Result (Stop E) T B} {property : S → Prop}
    (stable : machine.Stable property) (holds : property state)
    (steps : ∀ later, property later →
      ∃ after, machine.next later = some after ∧ machine.Enacts fuel result post after) :
    machine.Enacts (fuel + 1) result post state := by
  cases result with
  | ok value inner => exact Leads.of_step stable holds steps
  | error stop inner =>
      cases stop with
      | failed error => exact Leads.of_step stable holds steps
      | outOfFuel => exact Lasts.of_step stable holds steps
      | stuck => trivial

/-- A program that is done in one step, from wherever a stable property holds. -/
theorem of_performs {result : EStateM.Result (Stop E) T B} {property : S → Prop}
    (stable : machine.Stable property) (holds : property state)
    (performs : ∀ later, property later → machine.Performs result post later)
    (stays : ∀ value inner, machine.Stable (post value inner)) :
    machine.Enacts fuel result post state := by
  cases result with
  | ok value inner =>
      refine Leads.of_step stable holds fun later there => ?_
      obtain ⟨after, next, reached⟩ := performs later there
      exact ⟨after, next, .of_stable (stays value inner) reached⟩
  | error stop inner =>
      cases stop with
      | failed error => exact .now fun later disturbed => performs later (stable.all disturbed holds)
      | outOfFuel => exact (performs state holds).elim
      | stuck => trivial

end Enacts

variable {fuel : Nat} {test : EStateM (Stop E) T Bool} {body : EStateM (Stop E) T Unit}
  {invariant inside : T → S → Prop} {tested : Bool → T → S → Prop} {post : Unit → T → S → Prop}

/-- A machine enacts a loop when an iteration takes it at least one step. -/
theorem Enacts.whileTrue
    (tests : ∀ inner state, invariant inner state → machine.Enacts fuel (test inner) tested state)
    (stable : ∀ inner, machine.Stable (tested true inner))
    (enters : ∀ inner state, tested true inner state →
      ∃ after, machine.next state = some after ∧ inside inner after)
    (repeats : ∀ inner state, inside inner state →
      machine.Enacts fuel (body inner) (fun _ => invariant) state)
    (leaves : ∀ inner state, tested false inner state → machine.Leads (post () inner) state)
    {inner : T} {state : S} (count : Nat) (bound : count ≤ fuel) (holds : invariant inner state) :
    machine.Enacts count (whileTrue test body count inner) post state := by
  induction count generalizing inner state with
  | zero => exact trivial
  | succ count ih =>
      refine .bind ((tests inner state holds).fewer bound) fun value inner later tested => ?_
      cases value with
      | false => exact leaves inner later tested
      | true =>
          refine .of_step (stable inner) tested fun again here => ?_
          obtain ⟨after, next, entered⟩ := enters inner again here
          exact ⟨after, next, .bind ((repeats inner after entered).fewer (Nat.le_of_succ_le bound))
            fun _ inner again holds => ih (Nat.le_of_succ_le bound) holds⟩

end Disturbed

end Cpplox.Data
