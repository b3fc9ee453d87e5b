import Cpplox.Ast.Assemble
import Cpplox.Ast.LowerSteps

namespace Cpplox

open Structured

namespace Lower

variable {N : Type} {l final : Lower N} {code : LoweredCode} {token : SourceMapToken Text}

/-! Lowering fills in every jump: whatever it skips begins with a `pop`. -/

theorem filled_declared (tracked : TrackedLocal) : (declared tracked).Filled layout := by
  unfold declared
  split <;> trivial

theorem filled_simples (l : Lower N) (token : SourceMapToken Text) (opcodes : List Opcode) :
    (l.simples token opcodes).Filled layout := by
  induction opcodes with
  | nil => trivial
  | cons opcode rest ih => exact ⟨trivial, ih⟩

theorem filled_pops (l : Lower N) (depth : Nat) (token : SourceMapToken Text)
    (locals : List TrackedLocal) : (l.pops depth token locals).Filled layout := by
  induction locals with
  | nil => trivial
  | cons tracked rest ih =>
      unfold pops
      split
      · exact ⟨trivial, ih⟩
      · trivial

theorem popTopScopeDepth_filled (runs : (popTopScopeDepth token).run l = some (code, final)) :
    code.Filled layout := by
  obtain ⟨rfl, -⟩ := popTopScopeDepth_some runs
  exact filled_pops _ _ _ _

theorem emitDefaultReturnValue_filled
    (runs : (emitDefaultReturnValue token).run l = some (code, final)) : code.Filled layout := by
  obtain ⟨-, ⟨-, rfl⟩ | ⟨-, rfl⟩⟩ := emitDefaultReturnValue_some runs <;> trivial

theorem trackDeclared_filled {initialized : Bool}
    (runs : (trackDeclared token initialized).run l = some (code, final)) : code.Filled layout := by
  rcases trackDeclared_some runs with ⟨-, tracks⟩ | ⟨-, rfl, -⟩
  · obtain ⟨-, rfl, -⟩ := trackLocal_some tracks
    exact filled_declared _
  · trivial

theorem initializeDeclared_filled (runs : initializeDeclared.run l = some (code, final)) :
    code.Filled layout := by
  rcases initializeDeclared_some runs with ⟨-, _, _, -, rfl, -⟩ | ⟨-, rfl, -⟩ <;> trivial

theorem endSuperclass_filled {superclass : Token}
    (runs : (endSuperclass superclass).run l = some (code, final)) : code.Filled layout := by
  obtain ⟨_, _, _, scope, placeholder, rfl⟩ := endSuperclass_some runs
  rcases popPlaceholder_some placeholder with ⟨-, rfl, -⟩ | ⟨-, rfl, -⟩ <;>
    exact ⟨trivial, popTopScopeDepth_filled scope, trivial⟩

variable [Number N] {opcode : Opcode} {occurrence : Option Text}

theorem emitWithConstant_filled {value : Constant N}
    (runs : (emitWithConstant opcode value token occurrence).run l = some (code, final)) :
    code.Filled layout := by
  obtain ⟨rfl, -⟩ := emitWithConstant_some runs
  trivial

theorem emitGetterSetter_filled {localOpcode upvalueOpcode globalOpcode : Opcode}
    (runs : (emitGetterSetter localOpcode upvalueOpcode globalOpcode token).run l =
      some (code, final)) : code.Filled layout := by
  obtain ⟨-, accesses⟩ := emitGetterSetter_some runs
  cases accesses <;> trivial

theorem FollowsPath.filled {names : List Token} (follows : FollowsPath l names code final) :
    code.Filled layout := by
  induction follows with
  | last runs => exact emitWithConstant_filled runs
  | step runs _ ih => exact ⟨emitWithConstant_filled runs, ih⟩

theorem emitAssignment_filled {target : Token} {names : List Token}
    (runs : (emitAssignment target names).run l = some (code, final)) : code.Filled layout := by
  rcases emitAssignment_some runs with ⟨-, sets⟩ | ⟨_, _, _, gets, follows, rfl⟩
  · exact emitGetterSetter_filled sets
  · exact ⟨emitGetterSetter_filled gets, follows.filled⟩

theorem emitFunction_filled {function : LoweredFunction N} {leading : Bool}
    (runs : (emitFunction function token leading).run l = some (code, final)) : code.Filled layout := by
  obtain ⟨-, rfl⟩ := emitFunction_some runs
  trivial

theorem defineGlobalAtTop_filled {name : Text}
    (runs : (defineGlobalAtTop name token).run l = some (code, final)) : code.Filled layout := by
  rcases defineGlobalAtTop_some runs with ⟨-, emits⟩ | ⟨-, rfl, -⟩
  · exact emitWithConstant_filled emits
  · trivial

theorem beginSuperclass_filled {name superclass : Token}
    (runs : (beginSuperclass name superclass).run l = some (code, final)) : code.Filled layout := by
  obtain ⟨_, _, _, _, _, pushes, gets, tracks, rfl⟩ := beginSuperclass_some runs
  obtain ⟨-, rfl, -⟩ := trackLocal_some tracks
  rcases pushPlaceholder_some pushes with ⟨-, rfl, -⟩ | ⟨-, rfl, -⟩ <;>
    exact ⟨trivial, emitGetterSetter_filled gets, filled_declared _, trivial⟩

theorem Lowers.filled {node : Node} (lowers : Lowers l node code final) : code.Filled layout := by
  induction lowers with
  | false_ | true_ | nil | argsNil | empty | declsNil | methodsNil => trivial
  | number runs | string runs => exact emitWithConstant_filled runs
  | occurrence runs => exact emitGetterSetter_filled runs
  | super receiver superclass method =>
      exact ⟨emitGetterSetter_filled receiver, emitGetterSetter_filled superclass,
        emitWithConstant_filled method⟩
  | functionExpr _ ih => exact ih
  | call _ _ call callee args =>
      obtain ⟨rfl, -⟩ := emitIndex_some call
      exact ⟨callee, args, trivial⟩
  | getProperty _ property object => exact ⟨object, emitWithConstant_filled property⟩
  | unary _ operand => exact ⟨operand, trivial⟩
  | binary _ _ _ left right => exact ⟨left, right, filled_simples _ _ _⟩
  | and_ _ _ left right | or_ _ _ left right => exact ⟨left, List.cons_ne_nil _ _, trivial, right⟩
  | assign _ assignment value => exact ⟨value, emitAssignment_filled assignment⟩
  | argsCons _ _ head tail => exact ⟨head, tail⟩
  | function _ _ _ _ closure => exact emitFunction_filled closure
  | expression _ value | print _ value => exact ⟨value, trivial⟩
  | if_ _ _ _ condition thenBranch elseBranch =>
      exact ⟨condition, List.cons_ne_nil _ _, ⟨trivial, thenBranch⟩, trivial, elseBranch⟩
  | for_ _ _ _ _ pops initializer condition increment body =>
      exact ⟨initializer, ⟨condition, increment, trivial, body⟩, trivial,
        popTopScopeDepth_filled pops⟩
  | block _ pops body => exact ⟨body, popTopScopeDepth_filled pops⟩
  | returnDefault _ value => exact ⟨emitDefaultReturnValue_filled value, trivial⟩
  | return_ _ _ _ value => exact ⟨value, trivial⟩
  | while_ _ _ condition body => exact ⟨⟨condition, trivial, body⟩, trivial⟩
  | statement _ body => exact body
  | baseClass klass declared _ define methods =>
      exact ⟨emitWithConstant_filled klass, trackDeclared_filled declared, methods,
        defineGlobalAtTop_filled define⟩
  | subclass klass declared before _ after define methods =>
      exact ⟨emitWithConstant_filled klass, trackDeclared_filled declared,
        ⟨beginSuperclass_filled before, methods, endSuperclass_filled after⟩,
        defineGlobalAtTop_filled define⟩
  | fun_ _ define declared closure =>
      exact ⟨closure, defineGlobalAtTop_filled define, trackDeclared_filled declared⟩
  | var _ _ define declared value =>
      exact ⟨value, defineGlobalAtTop_filled define, initializeDeclared_filled declared⟩
  | declsCons _ _ head tail => exact ⟨head, tail⟩
  | methodsCons _ method _ closure tail => exact ⟨closure, emitWithConstant_filled method, tail⟩

end Lower

end Cpplox
