import Mathlib.Algebra.GroupWithZero.Nat
import Mathlib.Tactic.Common

namespace Structured

/-! Structured code with relative jumps.

`Code` is a tree of instructions and of the ways control flows between them;
`flatten` lays it out as a list in which every jump carries its distance.  The library
is generic in the plain instructions `I`, in the tags `T` that jumps carry, and in the
marks `M`, which take no space. -/

/-- The sizes of instructions. -/
structure Layout (I : Type) where
  size : I → Nat
  jumpSize : Nat
  size_pos : ∀ instr, 0 < size instr
  jumpSize_pos : 0 < jumpSize

/-- Distances are relative to the end of the jump. -/
inductive Flat (I T : Type) where
  | plain (instr : I)
  | jump (tag : T) (distance : Nat)
  | jumpIfFalse (tag : T) (distance : Nat)
  | loop (tag : T) (distance : Nat)

inductive Code (I T M : Type) where
  | nil
  | plain (instr : I)
  | mark (mark : M)
  | seq (first second : Code I T M)
  /-- Skips `body` when the top value is false. -/
  | skipIfFalse (tag : T) (body : Code I T M)
  /-- Skips `body` when the top value is true. -/
  | skipIfTrue (tag : T) (body : Code I T M)
  | branch (tag : T) (whenTrue whenFalse : Code I T M)
  /-- Leaves the false value of the condition. -/
  | whileLoop (tag : T) (condition body : Code I T M)
  /-- As `whileLoop`, with an increment laid out in front of the body. -/
  | forLoop (tag : T) (condition increment body : Code I T M)

variable {I T M G : Type} (layout : Layout I)

namespace Flat

def size : Flat I T → Nat
  | plain instr => layout.size instr
  | jump _ _ => layout.jumpSize
  | jumpIfFalse _ _ => layout.jumpSize
  | loop _ _ => layout.jumpSize

theorem size_pos (flat : Flat I T) : 0 < flat.size layout := by
  cases flat <;> simp only [size] <;> first | exact layout.size_pos _ | exact layout.jumpSize_pos

end Flat

/-- The length of laid out code. -/
def extent (flats : List (Flat I T)) : Nat := (flats.map (Flat.size layout)).sum

@[simp] theorem extent_nil : extent layout ([] : List (Flat I T)) = 0 := rfl

@[simp] theorem extent_cons (flat : Flat I T) (rest : List (Flat I T)) :
    extent layout (flat :: rest) = flat.size layout + extent layout rest := by
  simp [extent]

@[simp] theorem extent_append (left right : List (Flat I T)) :
    extent layout (left ++ right) = extent layout left + extent layout right := by
  simp [extent]

namespace Code

def flatten : Code I T M → List (Flat I T)
  | nil => []
  | plain instr => [.plain instr]
  | mark _ => []
  | seq first second => first.flatten ++ second.flatten
  | skipIfFalse tag body => .jumpIfFalse tag (extent layout body.flatten) :: body.flatten
  | skipIfTrue tag body =>
      .jumpIfFalse tag layout.jumpSize :: .jump tag (extent layout body.flatten) :: body.flatten
  | branch tag whenTrue whenFalse =>
      .jumpIfFalse tag (extent layout whenTrue.flatten + layout.jumpSize) ::
        (whenTrue.flatten ++ .jump tag (extent layout whenFalse.flatten) :: whenFalse.flatten)
  | whileLoop tag condition body =>
      condition.flatten ++
        .jumpIfFalse tag (extent layout body.flatten + layout.jumpSize) ::
          (body.flatten ++ [.loop tag (extent layout condition.flatten + layout.jumpSize +
            extent layout body.flatten + layout.jumpSize)])
  | forLoop tag condition increment body =>
      condition.flatten ++
        .jumpIfFalse tag (layout.jumpSize + extent layout increment.flatten + layout.jumpSize +
            extent layout body.flatten + layout.jumpSize) ::
        .jump tag (extent layout increment.flatten + layout.jumpSize) ::
          (increment.flatten ++
            .loop tag (extent layout condition.flatten + layout.jumpSize + layout.jumpSize +
              extent layout increment.flatten + layout.jumpSize) ::
            (body.flatten ++
              [.loop tag (extent layout increment.flatten + layout.jumpSize +
                extent layout body.flatten + layout.jumpSize)]))

def extent (code : Code I T M) : Nat := Structured.extent layout (code.flatten layout)

/-- The plain instructions, in the order of the layout. -/
def plains : Code I T M → List I
  | nil | mark _ => []
  | plain instr => [instr]
  | seq first second => first.plains ++ second.plains
  | skipIfFalse _ body | skipIfTrue _ body => body.plains
  | branch _ whenTrue whenFalse => whenTrue.plains ++ whenFalse.plains
  | whileLoop _ condition body => condition.plains ++ body.plains
  | forLoop _ condition increment body => condition.plains ++ (increment.plains ++ body.plains)

theorem mem_plains {code : Code I T M} {instr : I} :
    instr ∈ code.plains ↔ .plain instr ∈ code.flatten layout := by
  induction code with
  | nil | mark | plain => simp [plains, flatten]
  | seq first second ihFirst ihSecond => simp [plains, flatten, ihFirst, ihSecond]
  | skipIfFalse tag body ih | skipIfTrue tag body ih => simp [plains, flatten, ih]
  | branch tag whenTrue whenFalse ihTrue ihFalse => simp [plains, flatten, ihTrue, ihFalse]
  | whileLoop tag condition body ihCondition ihBody => simp [plains, flatten, ihCondition, ihBody]
  | forLoop tag condition increment body ihCondition ihIncrement ihBody =>
      simp [plains, flatten, ihCondition, ihIncrement, ihBody]

/-- Nothing that is skipped is empty. -/
def Filled : Code I T M → Prop
  | nil | plain _ | mark _ => True
  | seq first second => first.Filled ∧ second.Filled
  | skipIfFalse _ body | skipIfTrue _ body => body.flatten layout ≠ [] ∧ body.Filled
  | branch _ whenTrue whenFalse => whenFalse.flatten layout ≠ [] ∧ whenTrue.Filled ∧ whenFalse.Filled
  | whileLoop _ condition body => condition.Filled ∧ body.Filled
  | forLoop _ condition increment body => condition.Filled ∧ increment.Filled ∧ body.Filled

end Code

namespace Flat

def distance? : Flat I T → Option Nat
  | plain _ => none
  | jump _ distance | jumpIfFalse _ distance | loop _ distance => some distance

end Flat

theorem extent_pos {flats : List (Flat I T)} (nonempty : flats ≠ []) : 0 < extent layout flats := by
  cases flats with
  | nil => exact absurd rfl nonempty
  | cons flat rest =>
      have positive := flat.size_pos layout
      rw [extent_cons]
      omega

/-- No jump of filled code goes to the instruction after it. -/
theorem Code.Filled.distances {code : Code I T M} (filled : code.Filled layout) :
    ∀ flat ∈ code.flatten layout, ∀ distance, flat.distance? = some distance → 0 < distance := by
  have positive := layout.jumpSize_pos
  induction code with
  | nil | mark => simp [Code.flatten]
  | plain instr => simp [Code.flatten, Flat.distance?]
  | seq first second ihFirst ihSecond =>
      intro flat member
      rcases List.mem_append.mp member with inside | inside
      · exact ihFirst filled.1 flat inside
      · exact ihSecond filled.2 flat inside
  | skipIfFalse tag body ih =>
      intro flat member distance found
      rcases List.mem_cons.mp member with rfl | inside
      · cases found
        exact extent_pos layout filled.1
      · exact ih filled.2 flat inside distance found
  | skipIfTrue tag body ih =>
      intro flat member distance found
      rcases List.mem_cons.mp member with rfl | inside
      · cases found
        exact positive
      · rcases List.mem_cons.mp inside with rfl | inside
        · cases found
          exact extent_pos layout filled.1
        · exact ih filled.2 flat inside distance found
  | branch tag whenTrue whenFalse ihTrue ihFalse =>
      intro flat member distance found
      rcases List.mem_cons.mp member with rfl | inside
      · cases found
        omega
      · rcases List.mem_append.mp inside with inside | inside
        · exact ihTrue filled.2.1 flat inside distance found
        · rcases List.mem_cons.mp inside with rfl | inside
          · cases found
            exact extent_pos layout filled.1
          · exact ihFalse filled.2.2 flat inside distance found
  | whileLoop tag condition body ihCondition ihBody =>
      intro flat member distance found
      simp only [Code.flatten, List.mem_append, List.mem_cons, List.not_mem_nil, or_false] at member
      rcases member with inside | rfl | inside | rfl
      · exact ihCondition filled.1 flat inside distance found
      · cases found
        omega
      · exact ihBody filled.2 flat inside distance found
      · cases found
        omega
  | forLoop tag condition increment body ihCondition ihIncrement ihBody =>
      intro flat member distance found
      simp only [Code.flatten, List.mem_append, List.mem_cons, List.not_mem_nil, or_false] at member
      rcases member with inside | rfl | rfl | inside | rfl | inside | rfl
      · exact ihCondition filled.1 flat inside distance found
      · cases found
        omega
      · cases found
        omega
      · exact ihIncrement filled.2.1 flat inside distance found
      · cases found
        omega
      · exact ihBody filled.2.2 flat inside distance found
      · cases found
        omega

/-- What instructions and marks do to a context of type `G`, which contexts a conditional
and an unconditional jump may find, and the order in which a context may be weakened
where control joins. -/
structure Typing (I T M G : Type) where
  instr : G → I → G → Prop
  condition : G → T → Prop
  passes : G → T → Prop
  mark : G → M → G → Prop
  le : G → G → Prop
  le_refl : ∀ context, le context context
  le_trans : ∀ {first second third}, le first second → le second third → le first third
  mark_le : ∀ {before made after}, mark before made after → le before after

/-- `Typed typing before code after`: code that is entered with `before` and left, only
at its end, with `after`. -/
inductive Typed (typing : Typing I T M G) : G → Code I T M → G → Prop
  | nil {context : G} : Typed typing context .nil context
  | plain {before after : G} {instr : I} : typing.instr before instr after →
      Typed typing before (.plain instr) after
  | mark {before after : G} {made : M} : typing.mark before made after →
      Typed typing before (.mark made) after
  | seq {before middle after : G} {first second : Code I T M} :
      Typed typing before first middle → Typed typing middle second after →
      Typed typing before (.seq first second) after
  | skipIfFalse {context : G} {tag : T} {body : Code I T M} : typing.condition context tag →
      Typed typing context body context → Typed typing context (.skipIfFalse tag body) context
  | skipIfTrue {context : G} {tag : T} {body : Code I T M} : typing.condition context tag →
      typing.passes context tag → Typed typing context body context →
      Typed typing context (.skipIfTrue tag body) context
  | branch {before after : G} {tag : T} {whenTrue whenFalse : Code I T M} :
      typing.condition before tag → typing.passes after tag → Typed typing before whenTrue after →
      Typed typing before whenFalse after → Typed typing before (.branch tag whenTrue whenFalse) after
  | whileLoop {before after : G} {tag : T} {condition body : Code I T M} :
      Typed typing before condition after → typing.condition after tag → typing.passes before tag →
      Typed typing after body before → Typed typing before (.whileLoop tag condition body) after
  | forLoop {before after : G} {tag : T} {condition increment body : Code I T M} :
      Typed typing before condition after → typing.condition after tag → typing.passes after tag →
      typing.passes before tag → Typed typing before increment before →
      Typed typing after body before → Typed typing before (.forLoop tag condition increment body) after

abbrev Listing (I T G : Type) := List (G × Flat I T)

namespace Listing

def flats (listing : Listing I T G) : List (Flat I T) := listing.map (·.2)

def extent (listing : Listing I T G) : Nat := Structured.extent layout listing.flats

@[simp] theorem extent_nil : Listing.extent layout ([] : Listing I T G) = 0 := rfl

@[simp] theorem extent_cons (entry : G × Flat I T) (rest : Listing I T G) :
    Listing.extent layout (entry :: rest) = entry.2.size layout + Listing.extent layout rest := by
  simp [Listing.extent, flats]

@[simp] theorem extent_append (left right : Listing I T G) :
    Listing.extent layout (left ++ right) = Listing.extent layout left + Listing.extent layout right := by
  simp [Listing.extent, flats]

/-- The context at an offset where an instruction begins, or at the end. -/
def contextAt (exit : G) : Listing I T G → Nat → Option G
  | [], offset => if offset = 0 then some exit else none
  | (context, flat) :: rest, offset =>
      if offset = 0 then some context
      else if flat.size layout ≤ offset then contextAt exit rest (offset - flat.size layout) else none

variable {layout} {exit : G} {listing left right : Listing I T G} {offset : Nat} {context : G}

theorem contextAt_append_right (left right : Listing I T G) (offset : Nat) :
    contextAt layout exit (left ++ right) (left.extent layout + offset) =
      contextAt layout exit right offset := by
  induction left with
  | nil => simp
  | cons entry rest ih =>
      obtain ⟨context, flat⟩ := entry
      have positive := flat.size_pos layout
      have sum : flat.size layout + Listing.extent layout rest + offset - flat.size layout =
          Listing.extent layout rest + offset := by omega
      simp only [List.cons_append, extent_cons, contextAt]
      rw [if_neg (by omega), if_pos (by omega), sum, ih]

/-- Inside the left part the right part is not looked at, and at its end the context is
the one the right part begins with. -/
theorem contextAt_append_left {joint : G}
    (begins : contextAt layout exit right 0 = some joint)
    (found : contextAt layout joint left offset = some context) :
    contextAt layout exit (left ++ right) offset = some context := by
  induction left generalizing offset with
  | nil =>
      simp only [contextAt] at found
      split at found
      next atEnd => subst atEnd; cases found; exact begins
      next => cases found
  | cons entry rest ih =>
      obtain ⟨first, flat⟩ := entry
      simp only [List.cons_append, contextAt] at found ⊢
      split
      next atStart => rw [if_pos atStart] at found; exact found
      next inside =>
          rw [if_neg inside] at found
          split at found
          next far => rw [if_pos far]; exact ih found
          next => cases found

theorem contextAt_extent (listing : Listing I T G) (exit : G) :
    contextAt layout exit listing (listing.extent layout) = some exit := by
  have atEnd : contextAt layout exit (listing ++ []) (listing.extent layout + 0) =
      contextAt layout exit [] 0 := contextAt_append_right listing [] 0
  simpa [contextAt] using atEnd

/-- An offset with a context is the end or the beginning of an instruction. -/
theorem contextAt_cases (found : contextAt layout exit listing offset = some context) :
    (offset = listing.extent layout ∧ context = exit) ∨
      ∃ earlier flat later, listing = earlier ++ (context, flat) :: later ∧
        Listing.extent layout earlier = offset := by
  induction listing generalizing offset with
  | nil =>
      simp only [contextAt] at found
      split at found
      next atEnd => cases found; exact .inl ⟨atEnd, rfl⟩
      next => cases found
  | cons entry rest ih =>
      obtain ⟨first, flat⟩ := entry
      simp only [contextAt] at found
      split at found
      next atStart => cases found; exact .inr ⟨[], flat, rest, rfl, atStart.symm⟩
      next =>
          split at found
          next far =>
              rcases ih found with ⟨atEnd, same⟩ | ⟨earlier, next, later, split, extent⟩
              · refine .inl ⟨?_, same⟩
                simp only [extent_cons]
                omega
              · refine .inr ⟨(first, flat) :: earlier, next, later, by rw [split]; rfl, ?_⟩
                simp only [extent_cons]
                omega
          next => cases found

end Listing

/-- Where one instruction may go: `target offset context` says that control may arrive
at `offset` with `context`. -/
def Steps (typing : Typing I T M G) (target : Nat → G → Prop) (offset : Nat) (context : G) :
    Flat I T → Prop
  | .plain instr => ∃ after, typing.instr context instr after ∧
      target (offset + layout.size instr) after
  | .jump tag distance => typing.passes context tag ∧
      target (offset + layout.jumpSize + distance) context
  | .jumpIfFalse tag distance => typing.condition context tag ∧
      target (offset + layout.jumpSize) context ∧
      target (offset + layout.jumpSize + distance) context
  | .loop tag distance => typing.passes context tag ∧
      ∃ destination, destination + distance = offset + layout.jumpSize ∧ target destination context

variable {layout}

theorem Steps.mono {typing : Typing I T M G} {target other : Nat → G → Prop}
    {offset shift : Nat} {context : G} {flat : Flat I T}
    (implies : ∀ destination after, target destination after → other (shift + destination) after)
    (steps : Steps layout typing target offset context flat) :
    Steps layout typing other (shift + offset) context flat := by
  cases flat with
  | plain instr =>
      obtain ⟨after, typed, arrives⟩ := steps
      exact ⟨after, typed, by simpa only [Nat.add_assoc] using implies _ _ arrives⟩
  | jump tag distance =>
      obtain ⟨passes, jumps⟩ := steps
      exact ⟨passes, by simpa only [Nat.add_assoc] using implies _ _ jumps⟩
  | jumpIfFalse tag distance =>
      obtain ⟨condition, falls, jumps⟩ := steps
      exact ⟨condition, by simpa only [Nat.add_assoc] using implies _ _ falls,
        by simpa only [Nat.add_assoc] using implies _ _ jumps⟩
  | loop tag distance =>
      obtain ⟨passes, destination, back, arrives⟩ := steps
      exact ⟨passes, shift + destination, by omega, implies _ _ arrives⟩

/-- Control may arrive at `offset` of a listing with a context below the one written
there. -/
def Arrives (layout : Layout I) (typing : Typing I T M G) (exit : G) (listing : Listing I T G)
    (offset : Nat) (context : G) : Prop :=
  ∃ written, listing.contextAt layout exit offset = some written ∧ typing.le context written

/-- The entry that begins at an offset. -/
def EntryAt (layout : Layout I) (listing : Listing I T G) (offset : Nat) (entry : G × Flat I T) :
    Prop :=
  ∃ earlier later, listing = earlier ++ entry :: later ∧ Listing.extent layout earlier = offset

/-- Every instruction of the listing goes to an instruction of it, or to its end, with a
context that fits. -/
def Verified (layout : Layout I) (typing : Typing I T M G) (listing : Listing I T G) (exit : G) :
    Prop :=
  ∀ offset context flat, EntryAt layout listing offset (context, flat) →
    Steps layout typing (Arrives layout typing exit listing) offset context flat

end Structured
