import Cpplox.Scoping.Walk

namespace Cpplox

open Data Structured Lower

/-! Occurrences inside the initializer of a local variable. -/

/-- An occurrence in the initializer of the local variable `declared`: the names that the
variable's function declares before it, and the functions between, innermost first. -/
structure Initializing where
  declared : Text
  before : List Text
  between : List (List Text)
  occurrence : Occurrence
deriving DecidableEq, Repr

namespace Initializing

/-- The variable being declared, seen from the occurrence. -/
def place (entry : Initializing) : Nat × Nat := (entry.between.length, entry.before.length)

/-- A function expression uses the name, and neither the functions between nor an earlier
declaration of its own function stands in the way. -/
def Premature (entry : Initializing) : Prop :=
  entry.between ≠ [] ∧ entry.occurrence.token.lexeme = entry.declared ∧
    (∀ names ∈ entry.between, entry.declared ∉ names) ∧ entry.declared ∉ entry.before

instance (entry : Initializing) : Decidable entry.Premature :=
  inferInstanceAs (Decidable (_ ∧ _ ∧ _ ∧ _))

end Initializing

def Visible.initializing (visible : Visible) (declared : Text) (occurrence : Occurrence) :
    Initializing where
  declared := declared
  before := visible.inner
  between := occurrence.functions.take (occurrence.functions.length - visible.functions.length)
  occurrence := occurrence

/-- The initializer of a global is in no local's. -/
def Expr.initializes (visible : Visible) (declared : Text) (initializer : Expr) :
    List Initializing :=
  if visible.depth = 0 then []
  else (initializer.occurrences (visible.declare declared)).map (visible.initializing declared)

mutual

def Expr.initializing (visible : Visible) : Expr → List Initializing
  | .false_ _ | .true_ _ | .nil _ | .number _ | .string _ | .variable _ | .super _ _ => []
  | .function _ params body => body.initializing (visible.enterFunction (paramNames params))
  | .call callee args _ => callee.initializing visible ++ args.initializing visible
  | .getProperty object _ => object.initializing visible
  | .unary _ operand => operand.initializing visible
  | .binary _ left right | .and_ _ left right | .or_ _ left right =>
      left.initializing visible ++ right.initializing visible
  | .assign _ _ _ value => value.initializing visible

def Exprs.initializing (visible : Visible) : Exprs → List Initializing
  | .nil => []
  | .cons head tail => head.initializing visible ++ tail.initializing visible

def Stmt.initializing (visible : Visible) : Stmt → List Initializing
  | .empty | .returnDefault _ => []
  | .expression value _ | .print _ value | .return_ _ value => value.initializing visible
  | .if_ _ condition thenBranch elseBranch => condition.initializing visible ++
      (thenBranch.initializing visible ++ elseBranch.initializing visible)
  | .for_ _ initializer condition increment body =>
      initializer.initializing visible.enterScope ++
        (condition.initializing (initializer.declares visible.enterScope) ++
          (increment.initializing (initializer.declares visible.enterScope) ++
            body.initializing (initializer.declares visible.enterScope)))
  | .block body _ => body.initializing visible.enterScope
  | .while_ _ condition body => condition.initializing visible ++ body.initializing visible

def Decl.initializing (visible : Visible) : Decl → List Initializing
  | .statement body => body.initializing visible
  | .class_ _ name none methods => methods.initializing (visible.declare name.lexeme)
  | .class_ _ name (some _) methods =>
      methods.initializing ((visible.declare name.lexeme).enterSuperclass.declare superName)
  | .fun_ _ name params body =>
      body.initializing (visible.enterFunction (name.lexeme :: paramNames params))
  | .var _ name initializer => initializer.initializes visible name.lexeme ++
      initializer.initializing (visible.declare name.lexeme)

def Decls.initializing (visible : Visible) : Decls → List Initializing
  | .nil => []
  | .cons head tail => head.initializing visible ++ tail.initializing (head.declares visible)

def Methods.initializing (visible : Visible) : Methods → List Initializing
  | .nil => []
  | .cons _ params body tail =>
      body.initializing (visible.enterFunction (thisName :: paramNames params)) ++
        tail.initializing visible

end

/-- The occurrence is in the function of `visible`, whatever that declares, or further in. -/
def Visible.Around (visible : Visible) (occurrence : Occurrence) : Prop :=
  ∃ names, names :: visible.outer <:+ occurrence.functions

@[simp] theorem Visible.declare_outer (visible : Visible) (name : Text) :
    (visible.declare name).outer = visible.outer := by
  unfold declare
  split <;> rfl

@[simp] theorem Decl.declares_outer (visible : Visible) (tree : Decl) :
    (tree.declares visible).outer = visible.outer := by
  cases tree <;> simp [declares]

theorem Visible.around_of_outer {visible other : Visible} {occurrence : Occurrence}
    (same : other.outer = visible.outer) (around : other.Around occurrence) :
    visible.Around occurrence := by
  obtain ⟨names, inside⟩ := around
  exact ⟨names, same ▸ inside⟩

/-- What is in a function expression has one more function around. -/
theorem Visible.functions_of_enterFunction {visible : Visible} {names : List Text}
    {occurrence : Occurrence} (around : (visible.enterFunction names).Around occurrence) :
    visible.functions <:+ occurrence.functions ∧ occurrence.functions ≠ visible.functions := by
  obtain ⟨inner, inside⟩ := around
  refine ⟨(List.suffix_cons _ _).trans inside, fun same => ?_⟩
  have := inside.length_le
  rw [same] at this
  exact absurd this (by simp [enterFunction])

theorem Visible.around_of_enterFunction {visible : Visible} {names : List Text}
    {occurrence : Occurrence} (around : (visible.enterFunction names).Around occurrence) :
    visible.Around occurrence :=
  ⟨visible.inner, (functions_of_enterFunction around).1⟩

mutual

theorem Expr.occurrences_functions {visible : Visible} : ∀ tree : Expr,
    ∀ occurrence ∈ tree.occurrences visible, visible.functions <:+ occurrence.functions
  | .false_ _ | .true_ _ | .nil _ | .number _ | .string _ => by simp [Expr.occurrences]
  | .variable _ => by simp [Expr.occurrences, Visible.occurrence]
  | .super _ _ => by simp [Expr.occurrences, Visible.occurrence]
  | .function _ _ body => fun occurrence member =>
      (Visible.functions_of_enterFunction (body.occurrences_around occurrence member)).1
  | .call callee args _ =>
      List.forall_mem_append.mpr ⟨callee.occurrences_functions, args.occurrences_functions⟩
  | .getProperty operand _ | .unary _ operand => operand.occurrences_functions
  | .binary _ left right | .and_ _ left right | .or_ _ left right =>
      List.forall_mem_append.mpr ⟨left.occurrences_functions, right.occurrences_functions⟩
  | .assign _ _ _ value => List.forall_mem_append.mpr
      ⟨value.occurrences_functions, by simp [Visible.occurrence]⟩

theorem Exprs.occurrences_functions {visible : Visible} : ∀ trees : Exprs,
    ∀ occurrence ∈ trees.occurrences visible, visible.functions <:+ occurrence.functions
  | .nil => by simp [Exprs.occurrences]
  | .cons head tail =>
      List.forall_mem_append.mpr ⟨head.occurrences_functions, tail.occurrences_functions⟩

theorem Stmt.occurrences_around {visible : Visible} : ∀ tree : Stmt,
    ∀ occurrence ∈ tree.occurrences visible, visible.Around occurrence
  | .empty | .returnDefault _ => by simp [Stmt.occurrences]
  | .expression value _ | .print _ value | .return_ _ value => fun occurrence member =>
      ⟨visible.inner, value.occurrences_functions occurrence member⟩
  | .if_ _ condition thenBranch elseBranch => List.forall_mem_append.mpr
      ⟨fun occurrence member => ⟨visible.inner, condition.occurrences_functions occurrence member⟩,
        List.forall_mem_append.mpr
          ⟨thenBranch.occurrences_around, elseBranch.occurrences_around⟩⟩
  | .for_ _ initializer condition increment body => by
      have same : (initializer.declares visible.enterScope).outer = visible.outer :=
        Decl.declares_outer _ _
      refine List.forall_mem_append.mpr ⟨initializer.occurrences_around,
        List.forall_mem_append.mpr ⟨fun occurrence member => ?_, List.forall_mem_append.mpr
          ⟨fun occurrence member => ?_, fun occurrence member => ?_⟩⟩⟩
      · exact Visible.around_of_outer same ⟨_, condition.occurrences_functions occurrence member⟩
      · exact Visible.around_of_outer same (increment.occurrences_around occurrence member)
      · exact Visible.around_of_outer same (body.occurrences_around occurrence member)
  | .block body _ => body.occurrences_around
  | .while_ _ condition body => List.forall_mem_append.mpr
      ⟨fun occurrence member => ⟨visible.inner, condition.occurrences_functions occurrence member⟩,
        body.occurrences_around⟩

theorem Decl.occurrences_around {visible : Visible} : ∀ tree : Decl,
    ∀ occurrence ∈ tree.occurrences visible, visible.Around occurrence
  | .statement body => body.occurrences_around
  | .class_ _ name none methods => fun occurrence member =>
      Visible.around_of_outer (visible.declare_outer name.lexeme)
        (methods.occurrences_around occurrence member)
  | .class_ _ name (some superclass) methods => by
      have same : (visible.declare name.lexeme).enterSuperclass.outer = visible.outer :=
        visible.declare_outer name.lexeme
      refine List.forall_mem_cons.mpr ⟨?_, fun occurrence member => ?_⟩
      · exact Visible.around_of_outer same ⟨_, List.suffix_rfl⟩
      · exact Visible.around_of_outer ((Visible.declare_outer _ _).trans same)
          (methods.occurrences_around occurrence member)
  | .fun_ _ _ _ body => fun occurrence member =>
      Visible.around_of_enterFunction (body.occurrences_around occurrence member)
  | .var _ name initializer => fun occurrence member =>
      Visible.around_of_outer (visible.declare_outer name.lexeme)
        ⟨_, initializer.occurrences_functions occurrence member⟩

theorem Decls.occurrences_around {visible : Visible} : ∀ trees : Decls,
    ∀ occurrence ∈ trees.occurrences visible, visible.Around occurrence
  | .nil => by simp [Decls.occurrences]
  | .cons head tail => List.forall_mem_append.mpr ⟨head.occurrences_around,
      fun occurrence member => Visible.around_of_outer (Decl.declares_outer visible head)
        (tail.occurrences_around occurrence member)⟩

theorem Methods.occurrences_around {visible : Visible} : ∀ trees : Methods,
    ∀ occurrence ∈ trees.occurrences visible, visible.Around occurrence
  | .nil => by simp [Methods.occurrences]
  | .cons _ _ body tail => List.forall_mem_append.mpr
      ⟨fun occurrence member =>
          Visible.around_of_enterFunction (body.occurrences_around occurrence member),
        tail.occurrences_around⟩

end

end Cpplox
