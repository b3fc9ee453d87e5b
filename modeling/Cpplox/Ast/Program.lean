import Cpplox.Ast.FactorStatements

namespace Cpplox

open Lower

variable {N : Type} [Number N]

/-- The declarations of a source and the functions they are lowered to. -/
def lowering (fuel : Nat) (source : Text) : Option (Decls × List (LoweredFunction N)) :=
  match parse fuel source with
  | .ok decls => (Lower.program decls).map fun functions => (decls, functions)
  | .error _ => none

/-- What the compiler makes of a source is its lowering, assembled. -/
theorem compile_lowering {fuel : Nat} {source : Text} {functions : List (Function (Constant N) Text)}
    (accepted : compile fuel source = .ok functions) :
    ∃ (decls : Decls) (code : LoweredCode) (l : Lower N),
      lowering fuel source = some (decls, l.functions ++ [l.script code]) ∧
      Lowers {} (.decls decls) code l ∧
      Assembles functions (l.functions ++ [l.script code]) := by
  obtain ⟨decls, code, l, parses, lowers, assembles⟩ := compile_factors accepted
  refine ⟨decls, code, l, ?_, lowers, assembles⟩
  have runs : (lowerDecls decls).run ({} : Lower N) = some (code, l) := lowers.run
  simp only [lowering, parses, Lower.program, runs, Option.map_some]

end Cpplox
