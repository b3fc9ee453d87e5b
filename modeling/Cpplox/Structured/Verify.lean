import Cpplox.Structured.Code

namespace Structured

variable {I T M G : Type} {layout : Layout I} {typing : Typing I T M G}
  {exit joint context : G} {listing whole middle earlier later left right : Listing I T G}
  {offset : Nat} {entry head : G × Flat I T}

theorem entryAt_nil : ¬ EntryAt layout ([] : Listing I T G) offset entry := by
  rintro ⟨earlier, later, split, -⟩
  cases earlier <;> cases split

theorem entryAt_cons (found : EntryAt layout (head :: right) offset entry) :
    (offset = 0 ∧ entry = head) ∨
      ∃ inner, offset = head.2.size layout + inner ∧ EntryAt layout right inner entry := by
  obtain ⟨earlier, later, split, rfl⟩ := found
  cases earlier with
  | nil =>
      cases split
      exact .inl ⟨rfl, rfl⟩
  | cons first rest =>
      cases split
      exact .inr ⟨Listing.extent layout rest, by simp, rest, later, rfl, rfl⟩

theorem entryAt_append (found : EntryAt layout (left ++ right) offset entry) :
    EntryAt layout left offset entry ∨
      ∃ inner, offset = left.extent layout + inner ∧ EntryAt layout right inner entry := by
  induction left generalizing offset with
  | nil => exact .inr ⟨offset, by simp, found⟩
  | cons first rest ih =>
      rcases entryAt_cons found with ⟨rfl, rfl⟩ | ⟨inner, rfl, beyond⟩
      · exact .inl ⟨[], rest, rfl, rfl⟩
      · rcases ih beyond with ⟨earlier, later, rfl, rfl⟩ | ⟨deeper, rfl, inside⟩
        · exact .inl ⟨first :: earlier, later, rfl, by simp⟩
        · exact .inr ⟨deeper, by simp [Nat.add_assoc], inside⟩

theorem EntryAt.contextAt {flat : Flat I T} (found : EntryAt layout listing offset (context, flat)) :
    listing.contextAt layout exit offset = some context := by
  obtain ⟨earlier, later, rfl, rfl⟩ := found
  have atEntry : Listing.contextAt layout exit (earlier ++ (context, flat) :: later)
      (Listing.extent layout earlier + 0) = Listing.contextAt layout exit ((context, flat) :: later) 0 :=
    Listing.contextAt_append_right earlier ((context, flat) :: later) 0
  simpa [Listing.contextAt] using atEntry

theorem EntryAt.arrives {flat : Flat I T} (found : EntryAt layout listing offset (context, flat)) :
    Arrives layout typing exit listing offset context :=
  ⟨context, found.contextAt, typing.le_refl _⟩

theorem arrives_end (listing : Listing I T G) (exit : G) :
    Arrives layout typing exit listing (listing.extent layout) exit :=
  ⟨exit, Listing.contextAt_extent listing exit, typing.le_refl _⟩

theorem Arrives.weaken {stronger : G} (arrives : Arrives layout typing exit listing offset context)
    (weaker : typing.le stronger context) : Arrives layout typing exit listing offset stronger := by
  obtain ⟨written, found, le⟩ := arrives
  exact ⟨written, found, typing.le_trans weaker le⟩

/-- What arrives inside a part arrives in the whole, when the end of the part does. -/
theorem Arrives.embed (split : whole = earlier ++ (middle ++ later))
    (joined : Arrives layout typing exit whole
      (earlier.extent layout + middle.extent layout) joint)
    (arrives : Arrives layout typing joint middle offset context) :
    Arrives layout typing exit whole (earlier.extent layout + offset) context := by
  obtain ⟨written, found, le⟩ := arrives
  rcases Listing.contextAt_cases found with ⟨rfl, rfl⟩ | ⟨before, flat, after, rfl, rfl⟩
  · exact joined.weaken le
  · have inside : EntryAt layout whole
        (earlier.extent layout + Listing.extent layout before) (written, flat) :=
      ⟨earlier ++ before, after ++ later, by simp [split], by simp⟩
    exact inside.arrives.weaken le

/-- Every instruction of a part that begins at `start` goes to an instruction of the
whole, or to its end. -/
def PartVerified (layout : Layout I) (typing : Typing I T M G) (exit : G)
    (whole : Listing I T G) (start : Nat) (part : Listing I T G) : Prop :=
  ∀ offset context flat, EntryAt layout part offset (context, flat) →
    Steps layout typing (Arrives layout typing exit whole) (start + offset) context flat

theorem partVerified_nil {start : Nat} : PartVerified layout typing exit whole start [] :=
  fun _ _ _ found => absurd found entryAt_nil

theorem partVerified_cons {start : Nat} {flat : Flat I T}
    (steps : Steps layout typing (Arrives layout typing exit whole) start context flat)
    (rest : PartVerified layout typing exit whole (start + flat.size layout) right) :
    PartVerified layout typing exit whole start ((context, flat) :: right) := by
  intro offset here instr found
  rcases entryAt_cons found with ⟨rfl, same⟩ | ⟨inner, rfl, inside⟩
  · cases same
    exact steps
  · rw [← Nat.add_assoc]
    exact rest inner here instr inside

theorem partVerified_append {start : Nat}
    (first : PartVerified layout typing exit whole start left)
    (second : PartVerified layout typing exit whole (start + left.extent layout) right) :
    PartVerified layout typing exit whole start (left ++ right) := by
  intro offset here instr found
  rcases entryAt_append found with inside | ⟨inner, rfl, inside⟩
  · exact first offset here instr inside
  · rw [← Nat.add_assoc]
    exact second inner here instr inside

theorem PartVerified.verified (part : PartVerified layout typing exit whole 0 whole) :
    Verified layout typing whole exit := by
  intro offset here flat found
  simpa using part offset here flat found

/-- A listing of `code` that is entered with `before` and left with `after`. -/
structure Listed (layout : Layout I) (typing : Typing I T M G) (before : G) (code : Code I T M)
    (after : G) (listing : Listing I T G) : Prop where
  flats : listing.flats = code.flatten layout
  verified : Verified layout typing listing after
  enters : Arrives layout typing after listing 0 before

namespace Listed

variable {before after : G} {code : Code I T M} {part : Listing I T G}

theorem extent (listed : Listed layout typing before code after part) :
    part.extent layout = code.extent layout := by
  rw [Listing.extent, listed.flats, Code.extent]

/-- A listed part of a whole is entered where it begins. -/
theorem arrives {start : Nat} (listed : Listed layout typing before code after part)
    (split : whole = earlier ++ (part ++ later)) (begins : earlier.extent layout = start)
    (joined : Arrives layout typing exit whole (start + part.extent layout) after) :
    Arrives layout typing exit whole start before := by
  subst begins
  simpa using Arrives.embed split joined listed.enters

/-- A listed part of a whole stays verified. -/
theorem partVerified {start : Nat} (listed : Listed layout typing before code after part)
    (split : whole = earlier ++ (part ++ later)) (begins : earlier.extent layout = start)
    (joined : Arrives layout typing exit whole (start + part.extent layout) after) :
    PartVerified layout typing exit whole start part := by
  intro offset here flat found
  subst begins
  exact (listed.verified offset here flat found).mono fun _ _ arrives =>
    Arrives.embed split joined arrives

end Listed

theorem arrives_entry {entry : G × Flat I T} {start : Nat} (earlier : Listing I T G)
    (split : whole = earlier ++ entry :: later) (begins : earlier.extent layout = start) :
    Arrives layout typing exit whole start entry.1 :=
  EntryAt.arrives ⟨earlier, later, split, begins⟩

theorem arrives_at_end {finish : Nat} (ends : whole.extent layout = finish) :
    Arrives layout typing exit whole finish exit :=
  ends ▸ arrives_end whole exit

theorem listed_nil (context : G) : Listed layout typing context .nil context [] :=
  ⟨rfl, partVerified_nil.verified, arrives_at_end rfl⟩

theorem listed_mark {before after : G} {made : M} (marks : typing.mark before made after) :
    Listed layout typing before (.mark made) after [] :=
  ⟨rfl, partVerified_nil.verified, (arrives_at_end rfl).weaken (typing.mark_le marks)⟩

theorem listed_plain {before after : G} {instr : I} (typed : typing.instr before instr after) :
    Listed layout typing before (.plain instr) after [(before, .plain instr)] := by
  refine ⟨rfl, (partVerified_cons ?_ partVerified_nil).verified, arrives_entry [] rfl rfl⟩
  exact ⟨after, typed, arrives_at_end (by simp [Flat.size])⟩

theorem listed_seq {before middle after : G} {first second : Code I T M}
    (one : Listed layout typing before first middle left)
    (two : Listed layout typing middle second after right) :
    Listed layout typing before (.seq first second) after (left ++ right) := by
  have secondSplit : left ++ right = left ++ (right ++ []) := by simp
  have secondJoin : Arrives layout typing after (left ++ right)
      (left.extent layout + right.extent layout) after := arrives_at_end (by simp)
  have firstSplit : left ++ right = [] ++ (left ++ right) := rfl
  have firstJoin : Arrives layout typing after (left ++ right) (0 + left.extent layout) middle := by
    simpa using two.arrives secondSplit rfl secondJoin
  refine ⟨?_, PartVerified.verified (partVerified_append ?_ ?_), ?_⟩
  · simp [Listing.flats, Code.flatten, ← one.flats, ← two.flats]
  · exact one.partVerified firstSplit rfl firstJoin
  · simpa using two.partVerified secondSplit rfl secondJoin
  · exact one.arrives firstSplit rfl firstJoin

theorem listed_skipIfFalse {tag : T} {body : Code I T M} (condition : typing.condition context tag)
    (inner : Listed layout typing context body context left) :
    Listed layout typing context (.skipIfFalse tag body) context
      ((context, .jumpIfFalse tag (left.extent layout)) :: left) := by
  have split : (context, .jumpIfFalse tag (left.extent layout)) :: left =
      [(context, .jumpIfFalse tag (left.extent layout))] ++ (left ++ []) := by simp
  have ends : Arrives layout typing context ((context, .jumpIfFalse tag (left.extent layout)) :: left)
      (layout.jumpSize + left.extent layout) context := arrives_at_end (by simp [Flat.size])
  have begins : Listing.extent layout [(context, (.jumpIfFalse tag (left.extent layout) : Flat I T))] =
      layout.jumpSize := by simp [Flat.size]
  refine ⟨?_, PartVerified.verified (partVerified_cons ?_ ?_), arrives_entry [] rfl rfl⟩
  · rw [inner.extent]
    simp [Listing.flats, Code.flatten, ← inner.flats, Code.extent]
  · exact ⟨condition, by simpa using inner.arrives split begins ends, by simpa using ends⟩
  · simpa [Flat.size] using inner.partVerified split begins ends

theorem listed_skipIfTrue {tag : T} {body : Code I T M} (condition : typing.condition context tag)
    (passes : typing.passes context tag)
    (inner : Listed layout typing context body context left) :
    Listed layout typing context (.skipIfTrue tag body) context
      ((context, .jumpIfFalse tag layout.jumpSize) ::
        (context, .jump tag (left.extent layout)) :: left) := by
  let test : G × Flat I T := (context, .jumpIfFalse tag layout.jumpSize)
  let skip : G × Flat I T := (context, .jump tag (left.extent layout))
  let all : Listing I T G := test :: skip :: left
  have testSize : test.2.size layout = layout.jumpSize := rfl
  have skipSize : skip.2.size layout = layout.jumpSize := rfl
  have split : all = [test, skip] ++ (left ++ []) := by simp [all]
  have begins : Listing.extent layout [test, skip] = 0 + layout.jumpSize + layout.jumpSize := by
    simp [testSize, skipSize]
  have ends : Arrives layout typing context all
      (0 + layout.jumpSize + layout.jumpSize + left.extent layout) context :=
    arrives_at_end (by simp [all, testSize, skipSize]; omega)
  have second : Arrives layout typing context all (0 + layout.jumpSize) context :=
    arrives_entry [test] rfl (by simp [testSize])
  refine ⟨?_, PartVerified.verified (partVerified_cons ?_ (partVerified_cons ?_ ?_)),
    arrives_entry [] rfl rfl⟩
  · rw [inner.extent]
    simp [Listing.flats, Code.flatten, ← inner.flats, Code.extent]
  · exact ⟨condition, second, inner.arrives split begins ends⟩
  · exact ⟨passes, ends⟩
  · exact inner.partVerified split begins ends

theorem listed_branch {before after : G} {tag : T} {whenTrue whenFalse : Code I T M}
    (condition : typing.condition before tag) (passes : typing.passes after tag)
    (yes : Listed layout typing before whenTrue after left)
    (no : Listed layout typing before whenFalse after right) :
    Listed layout typing before (.branch tag whenTrue whenFalse) after
      ((before, .jumpIfFalse tag (left.extent layout + layout.jumpSize)) ::
        (left ++ (after, .jump tag (right.extent layout)) :: right)) := by
  let test : G × Flat I T := (before, .jumpIfFalse tag (left.extent layout + layout.jumpSize))
  let skip : G × Flat I T := (after, .jump tag (right.extent layout))
  let all : Listing I T G := test :: (left ++ skip :: right)
  have testSize : test.2.size layout = layout.jumpSize := rfl
  have skipSize : skip.2.size layout = layout.jumpSize := rfl
  have ends : Arrives layout typing after all
      (0 + layout.jumpSize + left.extent layout + layout.jumpSize + right.extent layout) after :=
    arrives_at_end (by simp [all, testSize, skipSize]; omega)
  have noSplit : all = (test :: left ++ [skip]) ++ (right ++ []) := by simp [all]
  have noBegins : Listing.extent layout (test :: left ++ [skip]) =
      0 + layout.jumpSize + left.extent layout + layout.jumpSize := by
    simp [testSize, skipSize]; omega
  have noArrives := no.arrives noSplit noBegins ends
  have skipArrives : Arrives layout typing after all
      (0 + layout.jumpSize + left.extent layout) after :=
    arrives_entry (test :: left) rfl (by simp [testSize])
  have yesSplit : all = [test] ++ (left ++ skip :: right) := rfl
  have yesBegins : Listing.extent layout [test] = 0 + layout.jumpSize := by simp [testSize]
  refine ⟨?_, PartVerified.verified (partVerified_cons ?_ (partVerified_append ?_
    (partVerified_cons ?_ ?_))), arrives_entry [] rfl rfl⟩
  · rw [yes.extent, no.extent]
    simp [Listing.flats, Code.flatten, ← yes.flats, ← no.flats, Code.extent]
  · refine ⟨condition, yes.arrives yesSplit yesBegins skipArrives, ?_⟩
    rw [← Nat.add_assoc]
    exact noArrives
  · exact yes.partVerified yesSplit yesBegins skipArrives
  · exact ⟨passes, ends⟩
  · exact no.partVerified noSplit noBegins ends

theorem listed_whileLoop {before after : G} {tag : T} {condition body : Code I T M}
    (tests : typing.condition after tag) (passes : typing.passes before tag)
    (test : Listed layout typing before condition after left)
    (inner : Listed layout typing after body before right) :
    Listed layout typing before (.whileLoop tag condition body) after
      (left ++ (after, .jumpIfFalse tag (right.extent layout + layout.jumpSize)) ::
        (right ++ [(before, .loop tag (left.extent layout + layout.jumpSize +
          right.extent layout + layout.jumpSize))])) := by
  let leave : G × Flat I T := (after, .jumpIfFalse tag (right.extent layout + layout.jumpSize))
  let back : G × Flat I T := (before, .loop tag (left.extent layout + layout.jumpSize +
    right.extent layout + layout.jumpSize))
  let all : Listing I T G := left ++ leave :: (right ++ [back])
  have leaveSize : leave.2.size layout = layout.jumpSize := rfl
  have backSize : back.2.size layout = layout.jumpSize := rfl
  have ends : Arrives layout typing after all
      (0 + left.extent layout + layout.jumpSize + right.extent layout + layout.jumpSize) after :=
    arrives_at_end (by simp [all, leaveSize, backSize]; omega)
  have leaveArrives : Arrives layout typing after all (0 + left.extent layout) after :=
    arrives_entry left rfl (by simp)
  have testSplit : all = [] ++ (left ++ leave :: (right ++ [back])) := rfl
  have start := test.arrives testSplit rfl leaveArrives
  have innerSplit : all = (left ++ [leave]) ++ (right ++ [back]) := by simp [all]
  have innerBegins : Listing.extent layout (left ++ [leave]) =
      0 + left.extent layout + layout.jumpSize := by simp [leaveSize]
  have backSplit : all = (left ++ leave :: right) ++ back :: [] := by simp [all]
  have backArrives : Arrives layout typing after all
      (0 + left.extent layout + layout.jumpSize + right.extent layout) before :=
    arrives_entry (left ++ leave :: right) backSplit (by simp [leaveSize]; omega)
  refine ⟨?_, PartVerified.verified (partVerified_append ?_ (partVerified_cons ?_
    (partVerified_append ?_ (partVerified_cons ?_ partVerified_nil)))), start⟩
  · rw [test.extent, inner.extent]
    simp [Listing.flats, Code.flatten, ← test.flats, ← inner.flats, Code.extent]
  · exact test.partVerified testSplit rfl leaveArrives
  · refine ⟨tests, inner.arrives innerSplit innerBegins backArrives, ?_⟩
    rw [← Nat.add_assoc]
    exact ends
  · exact inner.partVerified innerSplit innerBegins backArrives
  · exact ⟨passes, 0, by simp only [Flat.size]; omega, start⟩

/-- The increment may be entered with a context of its own. -/
theorem listed_forLoop {before stepping after : G} {tag : T} {condition increment body : Code I T M}
    (tests : typing.condition after tag) (skips : typing.passes after tag)
    (passes : typing.passes before tag) (turns : typing.passes stepping tag)
    (test : Listed layout typing before condition after left)
    (step : Listed layout typing stepping increment before middle)
    (inner : Listed layout typing after body stepping right) :
    Listed layout typing before (.forLoop tag condition increment body) after
      (left ++
        (after, .jumpIfFalse tag (layout.jumpSize + middle.extent layout + layout.jumpSize +
          right.extent layout + layout.jumpSize)) ::
        (after, .jump tag (middle.extent layout + layout.jumpSize)) ::
          (middle ++
            (before, .loop tag (left.extent layout + layout.jumpSize + layout.jumpSize +
              middle.extent layout + layout.jumpSize)) ::
            (right ++ [(stepping, .loop tag (middle.extent layout + layout.jumpSize +
              right.extent layout + layout.jumpSize))]))) := by
  let leave : G × Flat I T := (after, .jumpIfFalse tag (layout.jumpSize + middle.extent layout +
    layout.jumpSize + right.extent layout + layout.jumpSize))
  let skip : G × Flat I T := (after, .jump tag (middle.extent layout + layout.jumpSize))
  let again : G × Flat I T := (before, .loop tag (left.extent layout + layout.jumpSize +
    layout.jumpSize + middle.extent layout + layout.jumpSize))
  let back : G × Flat I T := (stepping, .loop tag (middle.extent layout + layout.jumpSize +
    right.extent layout + layout.jumpSize))
  let all : Listing I T G := left ++ leave :: skip :: (middle ++ again :: (right ++ [back]))
  have leaveSize : leave.2.size layout = layout.jumpSize := rfl
  have skipSize : skip.2.size layout = layout.jumpSize := rfl
  have againSize : again.2.size layout = layout.jumpSize := rfl
  have backSize : back.2.size layout = layout.jumpSize := rfl
  have ends : Arrives layout typing after all
      (0 + left.extent layout + layout.jumpSize + layout.jumpSize + middle.extent layout +
        layout.jumpSize + right.extent layout + layout.jumpSize) after :=
    arrives_at_end (by simp [all, leaveSize, skipSize, againSize, backSize]; omega)
  have leaveArrives : Arrives layout typing after all (0 + left.extent layout) after :=
    arrives_entry left rfl (by simp)
  have testSplit : all = [] ++ (left ++ leave :: skip :: (middle ++ again :: (right ++ [back]))) := rfl
  have start := test.arrives testSplit rfl leaveArrives
  have skipSplit : all = (left ++ [leave]) ++ skip :: (middle ++ again :: (right ++ [back])) := by
    simp [all]
  have skipArrives : Arrives layout typing after all
      (0 + left.extent layout + layout.jumpSize) after :=
    arrives_entry (left ++ [leave]) skipSplit (by simp [leaveSize])
  have stepSplit : all = (left ++ [leave, skip]) ++ (middle ++ again :: (right ++ [back])) := by
    simp [all]
  have stepBegins : Listing.extent layout (left ++ [leave, skip]) =
      0 + left.extent layout + layout.jumpSize + layout.jumpSize := by
    simp [leaveSize, skipSize]; omega
  have againSplit : all = (left ++ leave :: skip :: middle) ++ again :: (right ++ [back]) := by
    simp [all]
  have againArrives : Arrives layout typing after all
      (0 + left.extent layout + layout.jumpSize + layout.jumpSize + middle.extent layout) before :=
    arrives_entry (left ++ leave :: skip :: middle) againSplit
      (by simp [leaveSize, skipSize]; omega)
  have stepArrives := step.arrives stepSplit stepBegins againArrives
  have innerSplit : all = (left ++ leave :: skip :: (middle ++ [again])) ++ (right ++ [back]) := by
    simp [all]
  have innerBegins : Listing.extent layout (left ++ leave :: skip :: (middle ++ [again])) =
      0 + left.extent layout + layout.jumpSize + layout.jumpSize + middle.extent layout +
        layout.jumpSize := by
    simp [leaveSize, skipSize, againSize]; omega
  have backSplit : all = (left ++ leave :: skip :: (middle ++ again :: right)) ++ back :: [] := by
    simp [all]
  have backArrives : Arrives layout typing after all
      (0 + left.extent layout + layout.jumpSize + layout.jumpSize + middle.extent layout +
        layout.jumpSize + right.extent layout) stepping :=
    arrives_entry (left ++ leave :: skip :: (middle ++ again :: right)) backSplit
      (by simp [leaveSize, skipSize, againSize]; omega)
  have innerArrives := inner.arrives innerSplit innerBegins backArrives
  refine ⟨?_, PartVerified.verified (partVerified_append ?_ (partVerified_cons ?_
    (partVerified_cons ?_ (partVerified_append ?_ (partVerified_cons ?_ (partVerified_append ?_
      (partVerified_cons ?_ partVerified_nil))))))), start⟩
  · rw [test.extent, step.extent, inner.extent]
    simp [Listing.flats, Code.flatten, ← test.flats, ← step.flats, ← inner.flats, Code.extent]
  · exact test.partVerified testSplit rfl leaveArrives
  · refine ⟨tests, skipArrives, ?_⟩
    simp only [← Nat.add_assoc]
    exact ends
  · simp only [Steps, ← Nat.add_assoc]
    exact ⟨skips, innerArrives⟩
  · exact step.partVerified stepSplit stepBegins againArrives
  · exact ⟨passes, 0, by simp only [Flat.size]; omega, start⟩
  · exact inner.partVerified innerSplit innerBegins backArrives
  · exact ⟨turns, _, by simp only [Flat.size]; omega, stepArrives⟩

/-- Typed code has a verified listing. -/
theorem Typed.listed {before after : G} {code : Code I T M} (typed : Typed typing before code after) :
    ∃ listing, Listed layout typing before code after listing := by
  induction typed with
  | nil => exact ⟨_, listed_nil _⟩
  | plain typed => exact ⟨_, listed_plain typed⟩
  | mark marks => exact ⟨_, listed_mark marks⟩
  | seq _ _ first second =>
      obtain ⟨_, first⟩ := first
      obtain ⟨_, second⟩ := second
      exact ⟨_, listed_seq first second⟩
  | skipIfFalse condition _ body =>
      obtain ⟨_, body⟩ := body
      exact ⟨_, listed_skipIfFalse condition body⟩
  | skipIfTrue condition passes _ body =>
      obtain ⟨_, body⟩ := body
      exact ⟨_, listed_skipIfTrue condition passes body⟩
  | branch condition passes _ _ whenTrue whenFalse =>
      obtain ⟨_, whenTrue⟩ := whenTrue
      obtain ⟨_, whenFalse⟩ := whenFalse
      exact ⟨_, listed_branch condition passes whenTrue whenFalse⟩
  | whileLoop _ tests passes _ condition body =>
      obtain ⟨_, condition⟩ := condition
      obtain ⟨_, body⟩ := body
      exact ⟨_, listed_whileLoop tests passes condition body⟩
  | forLoop _ tests skips passes _ _ condition increment body =>
      obtain ⟨_, condition⟩ := condition
      obtain ⟨_, increment⟩ := increment
      obtain ⟨_, body⟩ := body
      exact ⟨_, listed_forLoop tests skips passes passes condition increment body⟩

end Structured
