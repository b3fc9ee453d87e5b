import Cpplox.Bytecode.Attained

namespace Cpplox

open Structured Lower

/-! What is emitted apart from closures and returns. -/

/-- The emissions neither end a path nor make a closure. -/
def Ordinary (emissions : List Emission) : Prop :=
  ∀ emission ∈ emissions, emission.stops = false ∧
    ∀ constant captures, emission.instr ≠ .closure constant captures

namespace Ordinary

variable {emissions others : List Emission}

theorem nil : Ordinary [] := by simp [Ordinary]

theorem single {emission : Emission} (goes : emission.stops = false)
    (other : ∀ constant captures, emission.instr ≠ .closure constant captures) :
    Ordinary [emission] := by
  rintro _ (_ | ⟨_, ⟨⟩⟩)
  exact ⟨goes, other⟩

theorem append (first : Ordinary emissions) (second : Ordinary others) :
    Ordinary (emissions ++ others) := fun emission member =>
  (List.mem_append.mp member).elim (first emission) (second emission)

end Ordinary

namespace Lower

variable {N : Type} {l l₁ l₂ final : Lower N} {code : LoweredCode} {token : SourceMapToken Text}

theorem ordinary_simple (l : Lower N) (opcode : Opcode) (other : opcode ≠ .return_)
    (token : SourceMapToken Text) : Ordinary (l.simple opcode token).plains := by
  refine .single ?_ fun _ _ => Instr.noConfusion
  cases opcode <;> first
    | rfl
    | exact absurd rfl other

theorem ordinary_operand (l : Lower N) (opcode : Opcode) (index : Nat) (token : SourceMapToken Text)
    (occurrence : Option Text) :
    Ordinary (l.plain (.operand opcode index) token occurrence).plains :=
  .single rfl fun _ _ => Instr.noConfusion

theorem ordinary_declared (tracked : TrackedLocal) : Ordinary (declared tracked).plains := by
  unfold declared
  split <;> exact .nil

theorem trackDeclared_ordinary {initialized : Bool}
    (runs : (trackDeclared token initialized).run l = some (code, final)) : Ordinary code.plains := by
  rcases trackDeclared_some runs with ⟨-, tracks⟩ | ⟨-, rfl, -⟩
  · obtain ⟨-, rfl, -⟩ := trackLocal_some tracks
    exact ordinary_declared _
  · exact .nil

theorem initializeDeclared_ordinary (runs : initializeDeclared.run l = some (code, final)) :
    Ordinary code.plains := by
  rcases initializeDeclared_some runs with ⟨-, _, _, -, rfl, -⟩ | ⟨-, rfl, -⟩ <;> exact .nil

theorem ordinary_pops (l : Lower N) (depth : Nat) (locals : List TrackedLocal) :
    Ordinary (l.pops depth token locals).plains := by
  induction locals with
  | nil => exact .nil
  | cons tracked rest ih =>
      unfold pops
      split
      · refine (ordinary_simple _ _ ?_ _).append ih
        unfold popOpcode
        split <;> decide
      · exact .nil

theorem popTopScopeDepth_ordinary (runs : (popTopScopeDepth token).run l = some (code, final)) :
    Ordinary code.plains := by
  obtain ⟨rfl, -⟩ := popTopScopeDepth_some runs
  exact ordinary_pops _ _ _

theorem pushPlaceholder_ordinary (runs : pushPlaceholder.run l = some (code, final)) :
    Ordinary code.plains := by
  rcases pushPlaceholder_some runs with ⟨-, rfl, -⟩ | ⟨-, rfl, -⟩ <;> exact .nil

theorem popPlaceholder_ordinary (runs : popPlaceholder.run l = some (code, final)) :
    Ordinary code.plains := by
  rcases popPlaceholder_some runs with ⟨-, rfl, -⟩ | ⟨-, rfl, -⟩ <;> exact .nil

theorem emitDefaultReturnValue_ordinary
    (runs : (emitDefaultReturnValue token).run l = some (code, final)) : Ordinary code.plains := by
  obtain ⟨-, ⟨-, rfl⟩ | ⟨-, rfl⟩⟩ := emitDefaultReturnValue_some runs
  · exact ordinary_operand _ _ _ _ _
  · exact ordinary_simple _ _ (by decide) _

theorem emitIndex_ordinary {opcode : Opcode} {index : Nat}
    (runs : (emitIndex opcode index token).run l = some (code, final)) : Ordinary code.plains := by
  obtain ⟨rfl, -⟩ := emitIndex_some runs
  exact ordinary_operand _ _ _ _ _

theorem endSuperclass_ordinary {superclass : Token}
    (runs : (endSuperclass superclass).run l = some (code, final)) : Ordinary code.plains := by
  obtain ⟨_, _, _, scopes, pops, rfl⟩ := endSuperclass_some runs
  exact (ordinary_simple l _ (by decide) _).append
    ((popTopScopeDepth_ordinary scopes).append (popPlaceholder_ordinary pops))

theorem ordinary_binary (l : Lower N) {type : TokenType} (binary : binaryOpcodes type ≠ [])
    (token : SourceMapToken Text) : Ordinary (l.simples token (binaryOpcodes type)).plains := by
  obtain ⟨opcode, pops, -, -, same⟩ := Surroundings.binaryOpcodes_cases binary
  have other : opcode ≠ .return_ := by
    rintro rfl
    cases pops
  have first := ordinary_simple l _ other token
  rcases same with same | same <;> rw [same]
  · exact first.append .nil
  · exact first.append ((ordinary_simple l _ (by decide) token).append .nil)

variable [Number N]

theorem emitWithConstant_ordinary {opcode : Opcode} {value : Constant N} {occurrence : Option Text}
    (runs : (emitWithConstant opcode value token occurrence).run l = some (code, final)) :
    Ordinary code.plains := by
  obtain ⟨rfl, -⟩ := emitWithConstant_some runs
  exact .single rfl fun _ _ => Instr.noConfusion

theorem defineGlobalAtTop_ordinary {name : Text}
    (runs : (defineGlobalAtTop name token).run l = some (code, final)) : Ordinary code.plains := by
  rcases defineGlobalAtTop_some runs with ⟨-, emits⟩ | ⟨-, rfl, -⟩
  · exact emitWithConstant_ordinary emits
  · exact .nil

theorem emitGetterSetter_ordinary {localOpcode upvalueOpcode globalOpcode : Opcode}
    (runs : (emitGetterSetter localOpcode upvalueOpcode globalOpcode token).run l =
      some (code, final)) : Ordinary code.plains := by
  obtain ⟨-, accesses⟩ := emitGetterSetter_some runs
  cases accesses with
  | local_ => exact ordinary_operand _ _ _ _ _
  | upvalue | global => exact .single rfl fun _ _ => Instr.noConfusion

theorem FollowsPath.ordinary {names : List Token} (follows : FollowsPath l names code final) :
    Ordinary code.plains := by
  induction follows with
  | last emits => exact emitWithConstant_ordinary emits
  | step emits _ ih => exact (emitWithConstant_ordinary emits).append ih

theorem emitAssignment_ordinary {target : Token} {names : List Token}
    (runs : (emitAssignment target names).run l = some (code, final)) : Ordinary code.plains := by
  rcases emitAssignment_some runs with ⟨-, sets⟩ | ⟨_, _, _, gets, follows, rfl⟩
  · exact emitGetterSetter_ordinary sets
  · exact (emitGetterSetter_ordinary gets).append follows.ordinary

theorem beginSuperclass_ordinary {name superclass : Token}
    (runs : (beginSuperclass name superclass).run l = some (code, final)) : Ordinary code.plains := by
  obtain ⟨_, _, _, _, _, pushes, gets, tracks, rfl⟩ := beginSuperclass_some runs
  obtain ⟨-, rfl, -⟩ := trackLocal_some tracks
  exact (pushPlaceholder_ordinary pushes).append ((emitGetterSetter_ordinary gets).append
    ((ordinary_declared _).append (ordinary_simple _ _ (by decide) _)))

end Lower

end Cpplox
