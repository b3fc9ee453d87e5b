import Cpplox.Ast.Lower

namespace Cpplox

open Structured

/-! Lowered code as bytes. -/

/-- The sizes of the instructions; a jump has two bytes of distance. -/
def layout : Layout Emission where
  size emission := emission.instr.size
  jumpSize := 3
  size_pos emission := emission.instr.size_pos
  jumpSize_pos := by decide

@[simp] theorem layout_jumpSize : layout.jumpSize = 3 := rfl

abbrev LoweredFlat := Flat Emission JumpTag

namespace LoweredFlat

def instr : LoweredFlat → Instr
  | .plain emission => emission.instr
  | .jump _ distance => .jump .jump distance
  | .jumpIfFalse _ distance => .jump .jumpIfFalse distance
  | .loop _ distance => .jump .loop distance

def token : LoweredFlat → SourceMapToken Text
  | .plain emission => emission.token
  | .jump tag _ => tag.token
  | .jumpIfFalse tag _ => tag.token
  | .loop tag _ => tag.token

theorem size_eq (flat : LoweredFlat) : flat.size layout = (instr flat).size := by
  cases flat <;> rfl

end LoweredFlat

def bytecodeOf (flats : List LoweredFlat) : List Nat :=
  flats.flatMap fun flat => (LoweredFlat.instr flat).encode

def sourceMapOf (flats : List LoweredFlat) : List (SourceMapToken Text) :=
  flats.flatMap fun flat =>
    List.replicate (LoweredFlat.instr flat).size (LoweredFlat.token flat)

@[simp] theorem bytecodeOf_append (left right : List LoweredFlat) :
    bytecodeOf (left ++ right) = bytecodeOf left ++ bytecodeOf right := by
  simp [bytecodeOf]

@[simp] theorem sourceMapOf_append (left right : List LoweredFlat) :
    sourceMapOf (left ++ right) = sourceMapOf left ++ sourceMapOf right := by
  simp [sourceMapOf]

@[simp] theorem bytecodeOf_nil : bytecodeOf [] = [] := rfl

@[simp] theorem sourceMapOf_nil : sourceMapOf [] = [] := rfl

theorem bytecodeOf_cons (flat : LoweredFlat) (rest : List LoweredFlat) :
    bytecodeOf (flat :: rest) = (LoweredFlat.instr flat).encode ++ bytecodeOf rest := rfl

theorem sourceMapOf_cons (flat : LoweredFlat) (rest : List LoweredFlat) :
    sourceMapOf (flat :: rest) =
      List.replicate (LoweredFlat.instr flat).size (LoweredFlat.token flat) ++ sourceMapOf rest := rfl

theorem length_bytecodeOf (flats : List LoweredFlat) :
    (bytecodeOf flats).length = extent layout flats := by
  induction flats with
  | nil => rfl
  | cons flat rest ih =>
      rw [bytecodeOf_cons, List.length_append, ih, extent_cons, LoweredFlat.size_eq]
      rfl

theorem length_sourceMapOf (flats : List LoweredFlat) :
    (sourceMapOf flats).length = extent layout flats := by
  induction flats with
  | nil => rfl
  | cons flat rest ih =>
      rw [sourceMapOf_cons, List.length_append, ih, extent_cons, LoweredFlat.size_eq,
        List.length_replicate]

def LoweredFunction.flats (function : LoweredFunction N) : List LoweredFlat :=
  function.code.flatten layout

/-- The function object the compiler makes. -/
def LoweredFunction.assemble (function : LoweredFunction N) : Function (Constant N) Text where
  name := function.name
  arity := function.arity
  chunk := {
    bytecode := bytecodeOf function.flats
    constants := function.constants
    sourceMapTokens := sourceMapOf function.flats }

end Cpplox
