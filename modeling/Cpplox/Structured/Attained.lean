import Cpplox.Structured.Enacts
import Cpplox.Structured.Verify
import Mathlib.Logic.Relation

namespace Structured

/-! Which instructions of structured code control may come to. -/

open Relation

variable {I T M : Type} {layout : Layout I} {stops : I → Bool} {flats : List (Flat I T)}
  {offset start : Nat} {code : Code I T M} {instr : I}

/-- Control that enters code may leave it at its end; `stops` holds of the instructions
that do not go on to the next one. -/
def Code.falls (stops : I → Bool) : Code I T M → Bool
  | nil | mark _ => true
  | plain instr => !stops instr
  | seq first second => first.falls stops && second.falls stops
  | skipIfFalse _ _ | skipIfTrue _ _ => true
  | branch _ whenTrue whenFalse => whenTrue.falls stops || whenFalse.falls stops
  | whileLoop _ condition _ | forLoop _ condition _ _ => condition.falls stops

/-- The plain instructions that control may come to when it enters code. -/
def Code.attained (stops : I → Bool) : Code I T M → List I
  | nil | mark _ => []
  | plain instr => [instr]
  | seq first second =>
      first.attained stops ++ if first.falls stops then second.attained stops else []
  | skipIfFalse _ body | skipIfTrue _ body => body.attained stops
  | branch _ whenTrue whenFalse => whenTrue.attained stops ++ whenFalse.attained stops
  | whileLoop _ condition body =>
      condition.attained stops ++ if condition.falls stops then body.attained stops else []
  | forLoop _ condition increment body =>
      condition.attained stops ++ if condition.falls stops then
        body.attained stops ++ if body.falls stops then increment.attained stops else []
      else []

theorem Code.falls_of_plains (goes : ∀ instr ∈ code.plains, stops instr = false) :
    code.falls stops = true := by
  induction code with
  | nil | mark | skipIfFalse | skipIfTrue => rfl
  | plain instr => simpa [Code.falls, Code.plains] using goes
  | seq first second ihFirst ihSecond =>
      obtain ⟨one, two⟩ := List.forall_mem_append.mp goes
      exact Bool.and_eq_true_iff.mpr ⟨ihFirst one, ihSecond two⟩
  | branch tag whenTrue whenFalse ihTrue =>
      exact Bool.or_eq_true_iff.mpr (.inl (ihTrue (List.forall_mem_append.mp goes).1))
  | whileLoop tag condition body ihCondition | forLoop tag condition increment body ihCondition =>
      exact ihCondition (List.forall_mem_append.mp goes).1

theorem Code.attained_subset : code.attained stops ⊆ code.plains := by
  intro instr member
  induction code with
  | nil | mark => cases member
  | plain => exact member
  | seq first second ihFirst ihSecond =>
      rcases List.mem_append.mp member with early | late
      · exact List.mem_append_left _ (ihFirst early)
      · exact List.mem_append_right _ (ihSecond (List.mem_ite_nil_right.mp late).2)
  | skipIfFalse tag body ih | skipIfTrue tag body ih => exact ih member
  | branch tag whenTrue whenFalse ihTrue ihFalse =>
      exact List.mem_append.mpr ((List.mem_append.mp member).imp ihTrue ihFalse)
  | whileLoop tag condition body ihCondition ihBody =>
      rcases List.mem_append.mp member with early | late
      · exact List.mem_append_left _ (ihCondition early)
      · exact List.mem_append_right _ (ihBody (List.mem_ite_nil_right.mp late).2)
  | forLoop tag condition increment body ihCondition ihIncrement ihBody =>
      rcases List.mem_append.mp member with early | late
      · exact List.mem_append_left _ (ihCondition early)
      · refine List.mem_append_right _ (List.mem_append.mpr ?_)
        rcases List.mem_append.mp (List.mem_ite_nil_right.mp late).2 with inside | stepping
        · exact .inr (ihBody inside)
        · exact .inl (ihIncrement (List.mem_ite_nil_right.mp stepping).2)

/-- A step of control through what is laid out. -/
inductive Goes (layout : Layout I) (stops : I → Bool) (flats : List (Flat I T)) : Nat → Nat → Prop
  | falls {offset : Nat} {instr : I} : PartAt layout flats offset [.plain instr] →
      stops instr = false → Goes layout stops flats offset (offset + layout.size instr)
  | jump {offset distance : Nat} {tag : T} : PartAt layout flats offset [.jump tag distance] →
      Goes layout stops flats offset (offset + layout.jumpSize + distance)
  | passes {offset distance : Nat} {tag : T} : PartAt layout flats offset [.jumpIfFalse tag distance] →
      Goes layout stops flats offset (offset + layout.jumpSize)
  | jumpIfFalse {offset distance : Nat} {tag : T} :
      PartAt layout flats offset [.jumpIfFalse tag distance] →
      Goes layout stops flats offset (offset + layout.jumpSize + distance)
  | loop {offset distance target : Nat} {tag : T} : PartAt layout flats offset [.loop tag distance] →
      target + distance = offset + layout.jumpSize → Goes layout stops flats offset target

/-- Control goes from one offset to another. -/
abbrev Path (layout : Layout I) (stops : I → Bool) (flats : List (Flat I T)) : Nat → Nat → Prop :=
  ReflTransGen (Goes layout stops flats)

/-- Through code that falls there is a path to its end. -/
theorem Code.path_end (there : PartAt layout flats offset (code.flatten layout))
    (falls : code.falls stops = true) : Path layout stops flats offset (offset + code.extent layout) := by
  induction code generalizing offset with
  | nil | mark => exact .refl
  | plain instr =>
      have total : (Code.plain instr : Code I T M).extent layout = layout.size instr := by
        simp [Code.extent, Code.flatten, Flat.size]
      rw [total]
      exact .single (.falls there (by simpa [Code.falls] using falls))
  | seq first second ihFirst ihSecond =>
      obtain ⟨one, two⟩ := there.append
      obtain ⟨firstFalls, secondFalls⟩ := Bool.and_eq_true_iff.mp falls
      have total : (Code.seq first second).extent layout = first.extent layout + second.extent layout := by
        simp [Code.extent, Code.flatten]
      rw [total, ← Nat.add_assoc]
      exact (ihFirst one firstFalls).trans (ihSecond two secondFalls)
  | skipIfFalse tag body =>
      obtain ⟨jumps, -⟩ := there.cons
      have total : (Code.skipIfFalse tag body).extent layout = layout.jumpSize + body.extent layout := by
        simp [Code.extent, Code.flatten, Flat.size]
      rw [total, ← Nat.add_assoc]
      exact .single (.jumpIfFalse jumps)
  | skipIfTrue tag body =>
      obtain ⟨jumps, rest⟩ := there.cons
      obtain ⟨passes, -⟩ := rest.cons
      have total : (Code.skipIfTrue tag body).extent layout =
          layout.jumpSize + layout.jumpSize + body.extent layout := by
        simp [Code.extent, Code.flatten, Flat.size, Nat.add_assoc]
      rw [total, ← Nat.add_assoc, ← Nat.add_assoc]
      exact .head (.passes jumps) (.single (.jump passes))
  | branch tag whenTrue whenFalse ihTrue ihFalse =>
      obtain ⟨jumps, rest⟩ := there.cons
      obtain ⟨yes, rest⟩ := rest.append
      obtain ⟨passes, no⟩ := rest.cons
      have total : (Code.branch tag whenTrue whenFalse).extent layout =
          layout.jumpSize + whenTrue.extent layout + layout.jumpSize + whenFalse.extent layout := by
        simp [Code.extent, Code.flatten, Flat.size, Nat.add_assoc]
      rw [total, ← Nat.add_assoc, ← Nat.add_assoc, ← Nat.add_assoc]
      rcases Bool.or_eq_true_iff.mp falls with first | second
      · exact .head (.passes jumps) ((ihTrue yes first).tail (.jump passes))
      · refine .head (.jumpIfFalse jumps) ?_
        rw [← Nat.add_assoc]
        exact ihFalse no second
  | whileLoop tag condition body ihCondition =>
      obtain ⟨conditionAt, rest⟩ := there.append
      obtain ⟨exits, -⟩ := rest.cons
      have total : (Code.whileLoop tag condition body).extent layout =
          condition.extent layout + layout.jumpSize + (body.extent layout + layout.jumpSize) := by
        simp [Code.extent, Code.flatten, Flat.size, Nat.add_assoc]
      have leaves := (ihCondition conditionAt falls).tail (.jumpIfFalse exits)
      rw [total]
      simpa only [Nat.add_assoc, Code.extent] using leaves
  | forLoop tag condition increment body ihCondition =>
      obtain ⟨conditionAt, rest⟩ := there.append
      obtain ⟨exits, -⟩ := rest.cons
      have total : (Code.forLoop tag condition increment body).extent layout =
          condition.extent layout + layout.jumpSize + (layout.jumpSize + increment.extent layout +
            layout.jumpSize + body.extent layout + layout.jumpSize) := by
        simp [Code.extent, Code.flatten, Flat.size, Nat.add_assoc]
      have leaves := (ihCondition conditionAt falls).tail (.jumpIfFalse exits)
      rw [total]
      simpa only [Nat.add_assoc, Code.extent] using leaves

/-- There is a path to an instruction. -/
def Comes (layout : Layout I) (stops : I → Bool) (flats : List (Flat I T)) (offset : Nat) (instr : I) :
    Prop :=
  ∃ place, Path layout stops flats offset place ∧ PartAt layout flats place [.plain instr]

theorem Comes.behind (path : Path layout stops flats start offset)
    (comes : Comes layout stops flats offset instr) : Comes layout stops flats start instr := by
  obtain ⟨place, rest, there⟩ := comes
  exact ⟨place, path.trans rest, there⟩

/-- To every instruction attained there is a path. -/
theorem Code.comes_attained (there : PartAt layout flats offset (code.flatten layout))
    (member : instr ∈ code.attained stops) : Comes layout stops flats offset instr := by
  induction code generalizing offset with
  | nil | mark => cases member
  | plain instr =>
      obtain rfl := List.mem_singleton.mp member
      exact ⟨offset, .refl, there⟩
  | seq first second ihFirst ihSecond =>
      obtain ⟨one, two⟩ := there.append
      rcases List.mem_append.mp member with early | late
      · exact ihFirst one early
      · obtain ⟨falls, late⟩ := List.mem_ite_nil_right.mp late
        exact (ihSecond two late).behind (Code.path_end one falls)
  | skipIfFalse tag body ih =>
      obtain ⟨jumps, inside⟩ := there.cons
      exact (ih inside member).behind (.single (.passes jumps))
  | skipIfTrue tag body ih =>
      obtain ⟨jumps, rest⟩ := there.cons
      obtain ⟨passes, inside⟩ := rest.cons
      exact (ih inside member).behind (.single (.jumpIfFalse jumps))
  | branch tag whenTrue whenFalse ihTrue ihFalse =>
      obtain ⟨jumps, rest⟩ := there.cons
      obtain ⟨yes, rest⟩ := rest.append
      obtain ⟨passes, no⟩ := rest.cons
      rcases List.mem_append.mp member with early | late
      · exact (ihTrue yes early).behind (.single (.passes jumps))
      · refine (ihFalse no late).behind (.single ?_)
        have jump : Goes layout stops flats _ _ := .jumpIfFalse jumps
        rwa [← Nat.add_assoc] at jump
  | whileLoop tag condition body ihCondition ihBody =>
      obtain ⟨conditionAt, rest⟩ := there.append
      obtain ⟨exits, rest⟩ := rest.cons
      obtain ⟨bodyAt, -⟩ := rest.append
      rcases List.mem_append.mp member with early | late
      · exact ihCondition conditionAt early
      · obtain ⟨falls, late⟩ := List.mem_ite_nil_right.mp late
        exact (ihBody bodyAt late).behind ((Code.path_end conditionAt falls).tail (.passes exits))
  | forLoop tag condition increment body ihCondition ihIncrement ihBody =>
      obtain ⟨conditionAt, rest⟩ := there.append
      obtain ⟨exits, rest⟩ := rest.cons
      obtain ⟨passes, rest⟩ := rest.cons
      obtain ⟨incrementAt, rest⟩ := rest.append
      obtain ⟨back, rest⟩ := rest.cons
      obtain ⟨bodyAt, again⟩ := rest.append
      rcases List.mem_append.mp member with early | late
      · exact ihCondition conditionAt early
      · obtain ⟨falls, late⟩ := List.mem_ite_nil_right.mp late
        have enters := ((Code.path_end conditionAt falls).tail (.passes exits)).tail (.jump passes)
        rw [← Nat.add_assoc] at enters
        rcases List.mem_append.mp late with inside | stepping
        · exact (ihBody bodyAt inside).behind enters
        · -- the body goes back to the increment
          obtain ⟨bodyFalls, stepping⟩ := List.mem_ite_nil_right.mp stepping
          have turns := enters.trans (Code.path_end bodyAt bodyFalls)
          refine (ihIncrement incrementAt stepping).behind (turns.tail (.loop again ?_))
          simp only [Flat.size, Code.extent]
          omega

/-- A context says whether control may come to an instruction, which then has a property. -/
def attaining (stops : I → Bool) (holds : I → Prop) : Typing I T M Bool where
  instr before instr after := before = true → holds instr ∧ (stops instr = false → after = true)
  condition _ _ := True
  passes _ _ := True
  mark before _ after := before = true → after = true
  le before after := before = true → after = true
  le_refl _ := id
  le_trans first second := second ∘ first
  mark_le := id

/-- More may be said at the end than is needed. -/
theorem Listed.weaken {G : Type} {typing : Typing I T M G} {before after weaker : G}
    {listing : Listing I T G} (listed : Listed layout typing before code after listing)
    (le : typing.le after weaker) : Listed layout typing before code weaker listing := by
  have split : listing = [] ++ (listing ++ []) := by simp
  have ends : Arrives layout typing weaker listing (0 + listing.extent layout) weaker :=
    arrives_at_end (Nat.zero_add _).symm
  have joined := ends.weaken le
  exact ⟨listed.flats, (listed.partVerified split rfl joined).verified, listed.arrives split rfl joined⟩

variable {holds : I → Prop}

/-- Code of which all that is attained has the property has a verified listing. -/
theorem Code.listed_attaining (code : Code I T M) (before : Bool)
    (all : before = true → ∀ instr ∈ code.attained stops, holds instr) :
    ∃ listing, Listed layout (attaining stops holds) before code (before && code.falls stops) listing := by
  induction code generalizing before with
  | nil =>
      refine ⟨_, (listed_nil before).weaken fun live => ?_⟩
      rw [live]
      rfl
  | mark made =>
      refine ⟨_, listed_mark fun live => ?_⟩
      rw [live]
      rfl
  | plain instr =>
      refine ⟨_, listed_plain fun live => ⟨all live instr (List.mem_singleton_self _), fun goes => ?_⟩⟩
      rw [live, Code.falls, goes]
      rfl
  | seq first second ihFirst ihSecond =>
      obtain ⟨_, one⟩ := ihFirst before fun live instr member =>
        all live instr (List.mem_append_left _ member)
      obtain ⟨_, two⟩ := ihSecond (before && first.falls stops) fun both instr member => by
        obtain ⟨live, falls⟩ := Bool.and_eq_true_iff.mp both
        refine all live instr (List.mem_append_right _ ?_)
        rwa [if_pos falls]
      rw [Bool.and_assoc] at two
      exact ⟨_, listed_seq one two⟩
  | skipIfFalse tag body ih =>
      obtain ⟨_, inside⟩ := ih before all
      have body := inside.weaken fun both => (Bool.and_eq_true_iff.mp both).1
      refine ⟨_, (listed_skipIfFalse trivial body).weaken fun live => ?_⟩
      rw [live]
      rfl
  | skipIfTrue tag body ih =>
      obtain ⟨_, inside⟩ := ih before all
      have body := inside.weaken fun both => (Bool.and_eq_true_iff.mp both).1
      refine ⟨_, (listed_skipIfTrue trivial trivial body).weaken fun live => ?_⟩
      rw [live]
      rfl
  | branch tag whenTrue whenFalse ihTrue ihFalse =>
      obtain ⟨_, yes⟩ := ihTrue before fun live instr member =>
        all live instr (List.mem_append_left _ member)
      obtain ⟨_, no⟩ := ihFalse before fun live instr member =>
        all live instr (List.mem_append_right _ member)
      have either (first second : Bool) : (before && first) = true →
          (before && (first || second)) = true := by
        cases before <;> cases first <;> simp
      have other (first second : Bool) : (before && second) = true →
          (before && (first || second)) = true := by
        cases before <;> cases first <;> simp
      exact ⟨_, listed_branch trivial trivial (yes.weaken (either _ _)) (no.weaken (other _ _))⟩
  | whileLoop tag condition body ihCondition ihBody =>
      obtain ⟨_, test⟩ := ihCondition before fun live instr member =>
        all live instr (List.mem_append_left _ member)
      obtain ⟨_, inside⟩ := ihBody (before && condition.falls stops) fun both instr member => by
        obtain ⟨live, falls⟩ := Bool.and_eq_true_iff.mp both
        refine all live instr (List.mem_append_right _ ?_)
        rwa [if_pos falls]
      have again := inside.weaken fun all =>
        (Bool.and_eq_true_iff.mp (Bool.and_eq_true_iff.mp all).1).1
      exact ⟨_, listed_whileLoop trivial trivial test again⟩
  | forLoop tag condition increment body ihCondition ihIncrement ihBody =>
      have inner (both : (before && condition.falls stops) = true) (instr : I)
          (member : instr ∈ body.attained stops ++
            if body.falls stops then increment.attained stops else []) : holds instr := by
        obtain ⟨live, falls⟩ := Bool.and_eq_true_iff.mp both
        refine all live instr (List.mem_append_right _ ?_)
        rwa [if_pos falls]
      obtain ⟨_, test⟩ := ihCondition before fun live instr member =>
        all live instr (List.mem_append_left _ member)
      obtain ⟨_, inside⟩ := ihBody (before && condition.falls stops) fun both instr member =>
        inner both instr (List.mem_append_left _ member)
      obtain ⟨_, stepping⟩ := ihIncrement (before && condition.falls stops && body.falls stops)
        fun each instr member => by
          obtain ⟨both, falls⟩ := Bool.and_eq_true_iff.mp each
          refine inner both instr (List.mem_append_right _ ?_)
          rwa [if_pos falls]
      have again := stepping.weaken fun all =>
        (Bool.and_eq_true_iff.mp (Bool.and_eq_true_iff.mp (Bool.and_eq_true_iff.mp all).1).1).1
      exact ⟨_, listed_forLoop trivial trivial trivial trivial test again inside⟩

theorem partAt_listing {listing : Listing I T Bool} {flat : Flat I T}
    (there : PartAt layout listing.flats offset [flat]) :
    ∃ context, EntryAt layout listing offset (context, flat) := by
  obtain ⟨earlier, later, split, rfl⟩ := there
  obtain ⟨before, rest, rfl, rfl, tail⟩ := List.map_eq_append_iff.mp split
  obtain ⟨⟨context, _⟩, after, rfl, rfl, rfl⟩ := List.map_eq_cons_iff.mp tail
  exact ⟨context, before, after, rfl, rfl⟩

/-- A step of control is one of a verified listing. -/
theorem Goes.arrives {listing : Listing I T Bool} {exit : Bool} {place : Nat}
    (verified : Verified layout (attaining (M := M) stops holds) listing exit)
    (goes : Goes layout stops listing.flats offset place)
    (here : Arrives layout (attaining (M := M) stops holds) exit listing offset true) :
    Arrives layout (attaining (M := M) stops holds) exit listing place true := by
  obtain ⟨written, found, le⟩ := here
  obtain rfl := le rfl
  have steps {flat : Flat I T} (there : PartAt layout listing.flats offset [flat]) :
      Steps layout (attaining (M := M) stops holds)
        (Arrives layout (attaining (M := M) stops holds) exit listing) offset true flat := by
    obtain ⟨context, entry⟩ := partAt_listing there
    rw [entry.contextAt] at found
    cases found
    exact verified _ _ _ entry
  cases goes with
  | falls there goes =>
      obtain ⟨after, executes, arrives⟩ := steps there
      exact arrives.weaken fun _ => (executes rfl).2 goes
  | jump there => exact (steps there).2
  | passes there => exact (steps there).2.1
  | jumpIfFalse there => exact (steps there).2.2
  | loop there back =>
      obtain ⟨-, destination, same, arrives⟩ := steps there
      obtain rfl : destination = place := Nat.add_right_cancel (same.trans back.symm)
      exact arrives

/-- What control comes to is attained. -/
theorem Code.attained_of_comes (comes : Comes layout stops (code.flatten layout) 0 instr) :
    instr ∈ code.attained stops := by
  have all : ∃ listing, Listed layout (attaining stops (· ∈ code.attained stops)) true code
      (true && code.falls stops) listing := code.listed_attaining true fun _ _ member => member
  obtain ⟨listing, listed⟩ := all
  obtain ⟨place, path, there⟩ := comes
  rw [← listed.flats] at path there
  have arrives : Arrives layout (attaining (M := M) stops (· ∈ code.attained stops))
      (true && code.falls stops) listing place true := by
    clear there
    induction path with
    | refl => exact listed.enters
    | tail _ goes ih => exact goes.arrives listed.verified ih
  obtain ⟨written, found, le⟩ := arrives
  obtain rfl := le rfl
  obtain ⟨context, entry⟩ := partAt_listing there
  rw [entry.contextAt] at found
  cases found
  obtain ⟨after, executes, -⟩ := listed.verified _ _ _ entry
  exact (executes rfl).1

/-- The instructions attained are those that control comes to. -/
theorem Code.mem_attained :
    instr ∈ code.attained stops ↔ Comes layout stops (code.flatten layout) 0 instr :=
  ⟨Code.comes_attained ⟨[], [], by simp, rfl⟩, Code.attained_of_comes⟩

end Structured
