import Cpplox.Ast.Program
import Cpplox.Bytecode.WellFormed
import Cpplox.Scoping.Walk

namespace Cpplox

open Data Structured Lower

/-! Lexical scoping of the emitted instructions. -/

/-- Every instruction emitted at an occurrence refers to the innermost declaration of the
name around the occurrence, or to the global of that name when there is none. -/
def LexicallyScoped {N : Type} (decls : Decls) (functions : List (LoweredFunction N)) : Prop :=
  ∀ occurrence ∈ decls.occurrences {}, ∀ function ∈ functions, ∀ emission ∈ function.code.plains,
    emission.IsAt occurrence →
      emission.referent function.constants = some occurrence.declaration

instance (emission : Emission) (occurrence : Occurrence) : Decidable (emission.IsAt occurrence) :=
  inferInstanceAs (Decidable (_ ∧ _ ∧ _))

instance {N : Type} (decls : Decls) (functions : List (LoweredFunction N)) :
    Decidable (LexicallyScoped decls functions) :=
  inferInstanceAs (Decidable (∀ occurrence ∈ _, ∀ function ∈ _, ∀ emission ∈ _, _ → _))

theorem Emission.IsAt.unique {emission : Emission} {one two : Occurrence}
    (first : emission.IsAt one) (second : emission.IsAt two) : one = two := by
  obtain ⟨-, token, functions⟩ := first
  obtain ⟨-, laterToken, laterFunctions⟩ := second
  cases one
  cases two
  simp only at token functions laterToken laterFunctions
  rw [← token, ← functions, laterToken, laterFunctions]

variable {N : Type} {function : LoweredFunction N} {functions : List (LoweredFunction N)}
  {emission : Emission} {occurrence : Occurrence}

/-- The name an instruction takes is the one that occurs. -/
theorem LoweredFunction.Certified.global (certified : function.Certified functions)
    (member : emission ∈ function.code.plains) {index : Nat} {name : Text}
    (instr : emission.instr = .operand .getGlobal index ∨ emission.instr = .operand .setGlobal index)
    (occurs : emission.occurrence = some name) :
    emission.referent function.constants = some (.global name) := by
  obtain ⟨entry, listing, verified⟩ := certified.verified
  have inside : Flat.plain emission ∈ listing.flats := by
    rw [verified.flats]
    exact (Code.mem_plains layout).mp member
  obtain ⟨⟨context, _⟩, there, rfl⟩ := List.mem_map.mp inside
  obtain ⟨earlier, later, split⟩ := List.append_of_mem there
  obtain ⟨slots, after, rfl, executes, -⟩ := verified.executes ⟨earlier, later, split, rfl⟩
  have refers := executes.refers
  rcases instr with is | is <;>
  · simp only [Surroundings.Refers, is] at refers
    obtain ⟨chars, constant, same⟩ := refers
    have here : function.constants[index]? = some (.string chars) := constant
    simp only [Emission.referent, is, here, same name occurs]

/-- An instruction refers to the declaration when it refers to its place. -/
theorem Emission.Resolves.referent (resolves : emission.Resolves occurrence)
    (certified : function.Certified functions) (member : emission ∈ function.code.plains) :
    emission.referent function.constants = some occurrence.declaration ↔
      ¬ occurrence.Ambiguous := by
  rw [← resolves.place]
  rcases resolves.instr with isSome | ⟨none, index, instr⟩
  · obtain ⟨place, found⟩ := Option.isSome_iff_exists.mp isSome
    have refers : emission.referent function.constants = some (.variable_ place) := by
      unfold Emission.place? at found
      unfold Emission.referent
      split at found <;> simp_all
    rw [refers, found, Occurrence.declaration]
    cases nearest latest occurrence.functions occurrence.token.lexeme with
    | none => simp
    | some other => simp
  · rw [certified.global member instr resolves.isAt.1, none, Occurrence.declaration]
    cases nearest latest occurrence.functions occurrence.token.lexeme with
    | none => simp
    | some other => simp

variable [Number N]

/-- Every occurrence has its instruction, and the instructions are lexically scoped unless
an occurrence is ambiguous for the search from the beginning. -/
theorem compile_lexicallyScoped {fuel : Nat} {source : Text}
    {functions : List (Function (Constant N) Text)}
    (accepted : compile fuel source = .ok functions) :
    ∃ (decls : Decls) (lowered : List (LoweredFunction N)),
      lowering fuel source = some (decls, lowered) ∧
      functions = lowered.map LoweredFunction.assemble ∧
      (∀ occurrence ∈ decls.occurrences {}, ∃ function ∈ lowered,
        ∃ emission ∈ function.code.plains, emission.IsAt occurrence) ∧
      (LexicallyScoped decls lowered ↔ ∀ occurrence ∈ decls.occurrences {},
        ¬ occurrence.Ambiguous) := by
  obtain ⟨decls, code, l, lowering, lowers, assembles⟩ := compile_lowering accepted
  obtain ⟨made, functions, covers, resolves⟩ := lowers.writes ready_program
  have occurs : ∀ occurrence ∈ decls.occurrences {}, ∃ function ∈ l.functions ++ [l.script code],
      ∃ emission ∈ function.code.plains, emission.Resolves occurrence := by
    intro occurrence member
    obtain ⟨emission, written, found⟩ := covers occurrence member
    obtain ⟨function, inside, there⟩ := written.inside functions
    exact ⟨function, inside, emission, there, found⟩
  refine ⟨decls, _, lowering, assembles.made, ?_, ?_, ?_⟩
  · intro occurrence member
    obtain ⟨function, inside, emission, there, found⟩ := occurs occurrence member
    exact ⟨function, inside, emission, there, found.isAt⟩
  · intro lexical occurrence member
    obtain ⟨function, inside, emission, there, found⟩ := occurs occurrence member
    exact (found.referent (lowers.certified_program function inside) there).mp
      (lexical occurrence member function inside emission there found.isAt)
  · intro free occurrence member function inside emission there isAt
    have written : Written code.plains made emission := .of_inside functions inside there
    obtain ⟨other, -, found⟩ := resolves emission written (by rw [isAt.1]; simp)
    obtain rfl := found.isAt.unique isAt
    exact (found.referent (lowers.certified_program function inside) there).mpr (free _ member)

theorem compile_lexicallyScoped_recursion :
    ∃ (functions : List (Function (Constant Int) Text)) (decls : Decls)
      (lowered : List (LoweredFunction Int)),
      compile 40 "fun f(n) { fun g() { return f(n); } }".toList = .ok functions ∧
      lowering 40 "fun f(n) { fun g() { return f(n); } }".toList = some (decls, lowered) ∧
      functions = lowered.map LoweredFunction.assemble ∧
      (∀ occurrence ∈ decls.occurrences {}, ∃ function ∈ lowered,
        ∃ emission ∈ function.code.plains, emission.IsAt occurrence) ∧
      (LexicallyScoped decls lowered ↔ ∀ occurrence ∈ decls.occurrences {},
        ¬ occurrence.Ambiguous) := by
  have succeeds : (compile 40 "fun f(n) { fun g() { return f(n); } }".toList :
      Except Error (List (Function (Constant Int) Text))).isOk = true := by decide +kernel
  obtain ⟨functions, accepted⟩ := exists_ok succeeds
  obtain ⟨decls, lowered, rest⟩ := compile_lexicallyScoped accepted
  exact ⟨functions, decls, lowered, accepted, rest⟩

/-- Here the inner function reads the outer `a`. -/
def shadowingSource : Text := "fun f() { var a = 1; { var a = 2; fun g() { return a; } } }".toList

theorem compile_not_lexicallyScoped :
    ∃ (functions : List (Function (Constant Int) Text)) (decls : Decls)
      (lowered : List (LoweredFunction Int)), compile 40 shadowingSource = .ok functions ∧
      lowering 40 shadowingSource = some (decls, lowered) ∧ ¬ LexicallyScoped decls lowered := by
  have succeeds : (compile 40 shadowingSource :
      Except Error (List (Function (Constant Int) Text))).isOk = true := by decide +kernel
  have fails : (lowering 40 shadowingSource : Option (Decls × List (LoweredFunction Int))).any
      (fun (decls, lowered) => !decide (LexicallyScoped decls lowered)) = true := by decide +kernel
  obtain ⟨functions, accepted⟩ := exists_ok succeeds
  obtain ⟨⟨decls, lowered⟩, lowers, wrong⟩ := (Option.any_eq_true _ _).mp fails
  exact ⟨functions, decls, lowered, accepted, lowers, by simpa using wrong⟩

end Cpplox
