import Cpplox.Contexts.Certify

namespace Cpplox

open Structured Lower

/-! A function refers only to functions made before it, so it can be loaded after them. -/

variable {N : Type} [Number N] {l final : Lower N} {code : LoweredCode} {token : SourceMapToken Text}
  {opcode : Opcode} {constants : List (Constant N)} {value : Constant N} {count more : Nat}

/-- A number is one of a literal, and a function is one of the first. -/
def Constant.Made (count : Nat) : Constant N → Prop
  | .number value => ∃ lexeme, value = Number.lexicalCast lexeme
  | .string _ => True
  | .function position => position < count

def Refers (count : Nat) (constants : List (Constant N)) : Prop :=
  ∀ constant ∈ constants, constant.Made count

theorem Constant.Made.mono (made : value.Made count) (fewer : count ≤ more) : value.Made more := by
  cases value with
  | number | string => exact made
  | function => exact Nat.lt_of_lt_of_le made fewer

theorem Refers.mono (refers : Refers count constants) (fewer : count ≤ more) : Refers more constants :=
  fun constant member => (refers constant member).mono fewer

theorem Refers.insert (refers : Refers count constants) (new : value.Made count) :
    Refers count (insertConstant constants value).2 := by
  unfold insertConstant
  split
  · exact refers
  · intro constant member
    rcases List.mem_append.mp member with old | same
    · exact refers constant old
    · exact List.mem_singleton.mp same ▸ new

/-- A constant is found as it was inserted: equal numbers of literals are the same. -/
theorem Refers.found (refers : Refers count constants) (new : value.Made count) :
    (insertConstant constants value).2[(insertConstant constants value).1]? = some value := by
  obtain ⟨found, at_, rfl | same⟩ := insertConstant_found constants value
  · exact at_
  have made : found.Made count := refers.insert new found (List.mem_of_getElem? at_)
  cases value with
  | number value =>
      cases found with
      | number other =>
          obtain ⟨lexeme, rfl⟩ := new
          obtain ⟨laterLexeme, rfl⟩ := made
          rw [at_, Number.lexicalCast_equal _ _ same]
      | string | function => cases same
  | string | function => cases found <;> simp_all [Constant.equal]

namespace Lower

/-- Every function refers to earlier ones, and so do the constants of those in progress. -/
structure Numbered (l : Lower N) : Prop where
  functions : ∀ index function, l.functions[index]? = some function → Refers index function.constants
  progress : ∀ chunk ∈ (l.back :: l.enclosing).map (·.chunk), Refers l.functions.length chunk

theorem Numbered.of_chunks (numbered : l.Numbered) (functions : final.functions = l.functions)
    (chunks : (final.back :: final.enclosing).map (·.chunk) = (l.back :: l.enclosing).map (·.chunk)) :
    final.Numbered := by
  refine ⟨fun index function at_ => ?_, ?_⟩
  · rw [functions] at at_
    exact numbered.functions index function at_
  · rw [functions, chunks]
    exact numbered.progress

theorem Numbered.withLocals (numbered : l.Numbered) (locals : List TrackedLocal) :
    (l.withLocals locals).Numbered := numbered.of_chunks rfl rfl

theorem Numbered.enterFunction (numbered : l.Numbered) (initializer : Bool) :
    (l.enterFunction initializer).Numbered where
  functions := numbered.functions
  progress := by
    intro chunk member
    rcases List.mem_cons.mp member with rfl | outer
    · exact fun constant inside => absurd inside List.not_mem_nil
    · exact numbered.progress chunk outer

theorem Numbered.leaveFunction {compiled : FunctionChunk (List (Constant N))} (numbered : l.Numbered)
    (leaves : l.leaveFunction = some (compiled, final)) :
    final.Numbered ∧ Refers final.functions.length compiled.chunk := by
  obtain ⟨rfl, outer, rest, enclosing, rfl⟩ := leaveFunction_some leaves
  refine ⟨⟨numbered.functions, fun chunk member => numbered.progress chunk ?_⟩,
    numbered.progress _ List.mem_cons_self⟩
  rw [enclosing]
  exact List.mem_cons_of_mem _ member

theorem trackDeclared_numbered {initialized : Bool} (numbered : l.Numbered)
    (runs : (trackDeclared token initialized).run l = some (code, final)) : final.Numbered := by
  rcases trackDeclared_some runs with ⟨-, tracks⟩ | ⟨-, -, rfl⟩
  · obtain ⟨-, -, rfl⟩ := trackLocal_some tracks
    exact numbered.of_chunks rfl rfl
  · exact numbered

theorem initializeDeclared_numbered (numbered : l.Numbered)
    (runs : initializeDeclared.run l = some (code, final)) : final.Numbered := by
  rcases initializeDeclared_some runs with ⟨-, _, _, -, -, rfl⟩ | ⟨-, -, rfl⟩
  · exact numbered.of_chunks rfl rfl
  · exact numbered

theorem popTopScopeDepth_numbered (numbered : l.Numbered)
    (runs : (popTopScopeDepth token).run l = some (code, final)) : final.Numbered := by
  obtain ⟨-, rfl⟩ := popTopScopeDepth_some runs
  exact numbered.of_chunks rfl rfl

theorem endSuperclass_numbered {superclass : Token} (numbered : l.Numbered)
    (runs : (endSuperclass superclass).run l = some (code, final)) : final.Numbered := by
  obtain ⟨_, _, l₁, scope, placeholder, -⟩ := endSuperclass_some runs
  have popped := popTopScopeDepth_numbered numbered scope
  rcases popPlaceholder_some placeholder with ⟨-, -, rfl⟩ | ⟨-, -, rfl⟩
  · exact popped.of_chunks rfl rfl
  · exact popped

theorem Numbered.withConstant (numbered : l.Numbered) (new : value.Made l.functions.length) :
    (l.withConstant value).Numbered where
  functions := numbered.functions
  progress := by
    intro chunk member
    rcases List.mem_cons.mp member with rfl | outer
    · exact (numbered.progress _ List.mem_cons_self).insert new
    · exact numbered.progress chunk (List.mem_cons_of_mem _ outer)

theorem emitName_numbered {name : Text} {occurrence : Option Text} (numbered : l.Numbered)
    (runs : (emitName opcode name token occurrence).run l = some (code, final)) : final.Numbered := by
  obtain ⟨-, rfl⟩ := emitWithConstant_some runs
  exact numbered.withConstant trivial

theorem emitGetterSetter_numbered {localOpcode upvalueOpcode globalOpcode : Opcode}
    (numbered : l.Numbered)
    (runs : (emitGetterSetter localOpcode upvalueOpcode globalOpcode token).run l =
      some (code, final)) : final.Numbered := by
  obtain ⟨-, accesses⟩ := emitGetterSetter_some runs
  cases accesses with
  | local_ => exact numbered
  | upvalue _ tracks =>
      obtain ⟨back, enclosing⟩ := trackUpvalue_chunks tracks
      exact numbered.of_chunks rfl (by simp [back, enclosing])
  | global => exact numbered.withConstant trivial

theorem FollowsPath.numbered {names : List Token} (follows : FollowsPath l names code final)
    (numbered : l.Numbered) : final.Numbered := by
  induction follows with
  | last runs => exact emitName_numbered numbered runs
  | step runs _ ih => exact ih (emitName_numbered numbered runs)

theorem emitAssignment_numbered {target : Token} {names : List Token} (numbered : l.Numbered)
    (runs : (emitAssignment target names).run l = some (code, final)) : final.Numbered := by
  rcases emitAssignment_some runs with ⟨-, sets⟩ | ⟨_, _, _, gets, follows, -⟩
  · exact emitGetterSetter_numbered numbered sets
  · exact follows.numbered (emitGetterSetter_numbered numbered gets)

theorem defineGlobalAtTop_numbered {name : Text} (numbered : l.Numbered)
    (runs : (defineGlobalAtTop name token).run l = some (code, final)) : final.Numbered := by
  rcases defineGlobalAtTop_some runs with ⟨-, emits⟩ | ⟨-, -, rfl⟩
  · exact emitName_numbered numbered emits
  · exact numbered

theorem beginSuperclass_numbered {name superclass : Token} (numbered : l.Numbered)
    (runs : (beginSuperclass name superclass).run l = some (code, final)) : final.Numbered := by
  obtain ⟨_, _, _, l₁, l₂, pushes, gets, tracks, -⟩ := beginSuperclass_some runs
  obtain ⟨-, -, rfl⟩ := trackLocal_some tracks
  have pushed : l₁.Numbered := by
    rcases pushPlaceholder_some pushes with ⟨-, -, rfl⟩ | ⟨-, -, rfl⟩
    · exact numbered.of_chunks rfl rfl
    · exact numbered
  exact (emitGetterSetter_numbered (l := { l₁ with scopeDepth := l₁.scopeDepth + 1 })
    (pushed.of_chunks rfl rfl) gets).of_chunks rfl rfl

/-- A function is numbered after those it refers to. -/
theorem emitFunction_numbered {function : LoweredFunction N} {leading : Bool} (numbered : l.Numbered)
    (earlier : Refers l.functions.length function.constants)
    (runs : (emitFunction function token leading).run l = some (code, final)) : final.Numbered := by
  obtain ⟨rfl, -⟩ := emitFunction_some runs
  have made : ({ l with functions := l.functions ++ [function] } : Lower N).Numbered := by
    refine ⟨fun index other at_ => ?_, fun chunk member => (numbered.progress chunk member).mono (by simp)⟩
    rcases Nat.lt_trichotomy index l.functions.length with old | rfl | beyond
    · exact numbered.functions index other ((List.getElem?_append_left old).symm.trans at_)
    · rw [List.getElem?_concat_length] at at_
      exact Option.some.inj at_ ▸ earlier
    · rw [List.getElem?_eq_none (by simp; omega)] at at_
      cases at_
  refine made.withConstant ?_
  simp [Constant.Made]

theorem Lowers.numbered {node : Node} (lowers : Lowers l node code final) : l.Numbered → final.Numbered := by
  induction lowers with
  | false_ | true_ | nil | argsNil | empty | declsNil | methodsNil => exact id
  | number runs =>
      obtain ⟨-, rfl⟩ := emitWithConstant_some runs
      exact fun numbered => numbered.withConstant ⟨_, rfl⟩
  | string runs =>
      obtain ⟨-, rfl⟩ := emitWithConstant_some runs
      exact fun numbered => numbered.withConstant trivial
  | occurrence runs => exact fun numbered => emitGetterSetter_numbered numbered runs
  | super receiver superclass method =>
      exact fun numbered => emitName_numbered (emitGetterSetter_numbered
        (emitGetterSetter_numbered numbered receiver) superclass) method
  | functionExpr _ ih | unary _ ih | expression _ ih | print _ ih | return_ _ _ _ ih
  | statement _ ih => exact ih
  | call _ _ call callee args =>
      obtain ⟨-, rfl⟩ := emitIndex_some call
      exact fun numbered => args (callee numbered)
  | getProperty _ property object => exact fun numbered => emitName_numbered (object numbered) property
  | binary _ _ _ first second | and_ _ _ first second | or_ _ _ first second
  | argsCons _ _ first second | declsCons _ _ first second | while_ _ _ first second =>
      exact fun numbered => second (first numbered)
  | assign _ assignment value => exact fun numbered => emitAssignment_numbered (value numbered) assignment
  | function tracks _ value leaves closure body =>
      intro numbered
      obtain rfl := trackAll_some tracks
      obtain ⟨rfl, -⟩ := emitDefaultReturnValue_some value
      obtain ⟨outside, earlier⟩ :=
        (body ((numbered.enterFunction _).withLocals _)).leaveFunction leaves
      exact emitFunction_numbered outside earlier closure
  | if_ _ _ _ condition thenBranch elseBranch =>
      exact fun numbered => elseBranch (thenBranch (condition numbered))
  | for_ _ _ _ _ pops initializer condition increment body =>
      exact fun numbered => popTopScopeDepth_numbered (body (increment (condition (initializer
        (numbered.of_chunks rfl rfl))))) pops
  | block _ pops body =>
      exact fun numbered => popTopScopeDepth_numbered (body (numbered.of_chunks rfl rfl)) pops
  | returnDefault _ value =>
      obtain ⟨rfl, -⟩ := emitDefaultReturnValue_some value
      exact id
  | baseClass klass declared _ define methods =>
      exact fun numbered => defineGlobalAtTop_numbered
        (methods (trackDeclared_numbered (emitName_numbered numbered klass) declared)) define
  | subclass klass declared before _ after define methods =>
      exact fun numbered => defineGlobalAtTop_numbered (endSuperclass_numbered (methods
        (beginSuperclass_numbered (trackDeclared_numbered (emitName_numbered numbered klass) declared)
          before)) after) define
  | fun_ _ define declared closure =>
      exact fun numbered => trackDeclared_numbered (defineGlobalAtTop_numbered (closure numbered) define)
        declared
  | var tracked _ define declared value =>
      exact fun numbered => initializeDeclared_numbered
        (defineGlobalAtTop_numbered (value (trackDeclared_numbered numbered tracked)) define) declared
  | methodsCons _ method _ closure tail =>
      exact fun numbered => tail (emitName_numbered (closure numbered) method)

theorem numbered_initial : ({} : Lower N).Numbered := by
  refine ⟨by simp, fun chunk member => ?_⟩
  rw [List.mem_singleton.mp member]
  exact fun constant inside => absurd inside List.not_mem_nil

/-- The functions of a program are numbered, the root script last. -/
theorem Lowers.numbered_program {decls : Decls} (lowers : Lowers ({} : Lower N) (.decls decls) code l)
    (index : Nat) (function : LoweredFunction N)
    (at_ : (l.functions ++ [l.script code])[index]? = some function) : Refers index function.constants := by
  have numbered := lowers.numbered numbered_initial
  rcases Nat.lt_trichotomy index l.functions.length with old | rfl | beyond
  · exact numbered.functions index function ((List.getElem?_append_left old).symm.trans at_)
  · rw [List.getElem?_concat_length] at at_
    exact Option.some.inj at_ ▸ numbered.progress _ List.mem_cons_self
  · rw [List.getElem?_eq_none (by simp; omega)] at at_
    cases at_

end Lower

end Cpplox
