import Cpplox.Contexts.Certify

namespace Cpplox

open Structured Lower

/-! Between the instructions of a class declaration the class stays within reach. -/

/-- What is known to be on top of the stack: nothing, a class, the value of its superclass
expression above it, or the closure of a method above it. -/
inductive Declaring where
  | nothing
  | class_
  | superclass
  | method
deriving DecidableEq, Repr

/-- The instruction takes a class from below the top of the stack. -/
def Instr.extendsClass : Instr → Bool
  | simple .inherit | operand .method _ => true
  | _ => false

namespace Declaring

/-- What is known again after the class was extended, if anything. -/
def Resumes (after : Declaring) : Prop := after = .class_ ∨ after = .nothing

inductive Steps : Declaring → Instr → Declaring → Prop
  | class_ {before after : Declaring} {index : Nat} : after.Resumes →
      Steps before (.operand .class_ index) after
  | superclass {opcode : Opcode} {index : Nat} :
      opcode = .getLocal ∨ opcode = .getUpvalue ∨ opcode = .getGlobal →
      Steps .class_ (.operand opcode index) .superclass
  | inherit {after : Declaring} : after.Resumes → Steps .superclass (.simple .inherit) after
  | closure {constant : Nat} {captures : List TrackedUpvalue} :
      Steps .class_ (.closure constant captures) .method
  | method {after : Declaring} {index : Nat} : after.Resumes →
      Steps .method (.operand .method index) after
  | other {before : Declaring} {instr : Instr} : instr.extendsClass = false →
      Steps before instr .nothing

/-- No jump goes into a class declaration. -/
def typing : Typing Emission JumpTag Mark Declaring where
  instr before emission after := before.Steps emission.instr after
  condition _ _ := True
  passes _ _ := True
  mark before _ after := before = after
  le := Eq
  le_refl _ := rfl
  le_trans one two := one.trans two
  mark_le same := same

/-- The code of a function never needs more than is known. -/
abbrev Flows (before : Declaring) (code : LoweredCode) (after : Declaring) : Prop :=
  Typed typing before code after

theorem flows_plain {emission : Emission} (other : emission.instr.extendsClass = false) :
    Flows .nothing (.plain emission) .nothing := .plain (.other other)

end Declaring

variable {N : Type} {l final : Lower N} {code : LoweredCode} {token : SourceMapToken Text}

namespace Lower

/-- Popping the locals of a scope forgets a class on top of them. -/
theorem pops_declaring (l : Lower N) (depth : Nat) (locals : List TrackedLocal) :
    Declaring.Flows .nothing (l.pops depth token locals) .nothing := by
  induction locals with
  | nil => exact .nil
  | cons tracked rest ih =>
      rw [Lower.pops]
      split
      · refine .seq (Declaring.flows_plain ?_) ih
        unfold popOpcode
        split <;> rfl
      · exact .nil

theorem simple_declaring (l : Lower N) {opcode : Opcode} (other : opcode ≠ .inherit) :
    Declaring.Flows .nothing (l.simple opcode token) .nothing := by
  refine Declaring.flows_plain ?_
  cases opcode <;> first | rfl | exact absurd rfl other

theorem operand_declaring (l : Lower N) {opcode : Opcode} {index : Nat} {occurrence : Option Text}
    (other : opcode ≠ .method) : Declaring.Flows .nothing (l.plain (.operand opcode index) token occurrence) .nothing := by
  refine Declaring.flows_plain ?_
  cases opcode <;> first | rfl | exact absurd rfl other

theorem unary_declaring (l : Lower N) (type : TokenType) :
    Declaring.Flows .nothing (l.simple (unaryOpcode type) token) .nothing :=
  simple_declaring l (by cases type <;> decide)

theorem binary_declaring (l : Lower N) {type : TokenType} (binary : binaryOpcodes type ≠ []) :
    Declaring.Flows .nothing (l.simples token (binaryOpcodes type)) .nothing := by
  obtain ⟨opcode, pops, -, -, same⟩ := Surroundings.binaryOpcodes_cases binary
  have first : Declaring.Flows .nothing (l.simple opcode token) .nothing := by
    refine simple_declaring l ?_
    rintro rfl
    cases pops
  rcases same with same | same <;> rw [same]
  · exact .seq first .nil
  · exact .seq first (.seq (simple_declaring l (by decide)) .nil)

theorem declared_declaring (before : Declaring) (tracked : TrackedLocal) :
    Declaring.Flows before (declared tracked) before := by
  unfold declared
  split
  · exact .mark rfl
  · exact .nil

theorem trackDeclared_declaring {initialized : Bool} (before : Declaring)
    (runs : (trackDeclared token initialized).run l = some (code, final)) :
    Declaring.Flows before code before := by
  rcases trackDeclared_some runs with ⟨-, tracks⟩ | ⟨-, rfl, -⟩
  · obtain ⟨-, rfl, -⟩ := trackLocal_some tracks
    exact declared_declaring _ _
  · exact .nil

theorem initializeDeclared_declaring (runs : initializeDeclared.run l = some (code, final)) :
    Declaring.Flows .nothing code .nothing := by
  rcases initializeDeclared_some runs with ⟨-, _, _, -, rfl, -⟩ | ⟨-, rfl, -⟩
  · exact .mark rfl
  · exact .nil

theorem popTopScopeDepth_declaring (runs : (popTopScopeDepth token).run l = some (code, final)) :
    Declaring.Flows .nothing code .nothing := by
  obtain ⟨rfl, -⟩ := popTopScopeDepth_some runs
  exact pops_declaring _ _ _

theorem emitDefaultReturnValue_declaring
    (runs : (emitDefaultReturnValue token).run l = some (code, final)) : Declaring.Flows .nothing code .nothing := by
  obtain ⟨-, ⟨-, rfl⟩ | ⟨-, rfl⟩⟩ := emitDefaultReturnValue_some runs
  · exact operand_declaring _ (by decide)
  · exact simple_declaring _ (by decide)

theorem emitIndex_declaring {opcode : Opcode} {index : Nat} {occurrence : Option Text} (other : opcode ≠ .method)
    (runs : (emitIndex opcode index token occurrence).run l = some (code, final)) :
    Declaring.Flows .nothing code .nothing := by
  obtain ⟨rfl, -⟩ := emitIndex_some runs
  exact operand_declaring _ other

/-- A class or what is below one is left on the stack, and the rest of its declaration with it. -/
theorem endSuperclass_declaring {superclass : Token}
    (runs : (endSuperclass superclass).run l = some (code, final)) : Declaring.Flows .class_ code .nothing := by
  obtain ⟨scope, placeholder, l₁, pops, ends, rfl⟩ := endSuperclass_some runs
  refine .seq (.plain (.other rfl)) (.seq (popTopScopeDepth_declaring pops) ?_)
  rcases popPlaceholder_some ends with ⟨-, rfl, -⟩ | ⟨-, rfl, -⟩
  · exact .mark rfl
  · exact .nil

variable [Number N]

theorem emitWithConstant_declaring {opcode : Opcode} {value : Constant N} {occurrence : Option Text}
    (other : opcode ≠ .method)
    (runs : (emitWithConstant opcode value token occurrence).run l = some (code, final)) :
    Declaring.Flows .nothing code .nothing := by
  obtain ⟨rfl, -⟩ := emitWithConstant_some runs
  exact operand_declaring _ other

theorem defineGlobalAtTop_declaring {name : Text}
    (runs : (defineGlobalAtTop name token).run l = some (code, final)) : Declaring.Flows .nothing code .nothing := by
  rcases defineGlobalAtTop_some runs with ⟨-, emits⟩ | ⟨-, rfl, -⟩
  · exact emitWithConstant_declaring (by decide) emits
  · exact .nil

theorem getter_declaring (runs : (emitGetter token).run l = some (code, final)) :
    Declaring.Flows .nothing code .nothing ∧ Declaring.Flows .class_ code .superclass := by
  obtain ⟨-, accesses⟩ := emitGetterSetter_some runs
  cases accesses with
  | local_ => exact ⟨operand_declaring _ (by decide), .plain (.superclass (.inl rfl))⟩
  | upvalue => exact ⟨operand_declaring _ (by decide), .plain (.superclass (.inr (.inl rfl)))⟩
  | global => exact ⟨operand_declaring _ (by decide), .plain (.superclass (.inr (.inr rfl)))⟩

theorem setter_declaring (runs : (emitSetter token).run l = some (code, final)) :
    Declaring.Flows .nothing code .nothing := by
  obtain ⟨-, accesses⟩ := emitGetterSetter_some runs
  cases accesses <;> exact operand_declaring _ (by decide)

theorem path_declaring {names : List Token} (follows : FollowsPath l names code final) :
    Declaring.Flows .nothing code .nothing := by
  induction follows with
  | last emits => exact emitWithConstant_declaring (by decide) emits
  | step emits _ ih => exact .seq (emitWithConstant_declaring (by decide) emits) ih

theorem assignment_declaring {target : Token} {names : List Token}
    (runs : (emitAssignment target names).run l = some (code, final)) : Declaring.Flows .nothing code .nothing := by
  rcases emitAssignment_some runs with ⟨-, sets⟩ | ⟨object, path, middle, gets, follows, rfl⟩
  · exact setter_declaring sets
  · exact .seq (getter_declaring gets).1 (path_declaring follows)

theorem beginSuperclass_declaring {name superclass : Token} {after : Declaring} (resumes : after.Resumes)
    (runs : (beginSuperclass name superclass).run l = some (code, final)) : Declaring.Flows .class_ code after := by
  obtain ⟨placeholder, parent, _, l₁, l₂, pushes, gets, tracks, rfl⟩ := beginSuperclass_some runs
  obtain ⟨-, rfl, -⟩ := trackLocal_some tracks
  have first : Declaring.Flows .class_ placeholder .class_ := by
    rcases pushPlaceholder_some pushes with ⟨-, rfl, -⟩ | ⟨-, rfl, -⟩
    · exact .mark rfl
    · exact .nil
  exact .seq first (.seq (getter_declaring gets).2
    (.seq (declared_declaring _ _) (.plain (.inherit resumes))))

end Lower

/-- The functions made since need no more when the ones before did not. -/
def Lower.InReach (l final : Lower N) : Prop :=
  (∀ function ∈ l.functions, Declaring.Flows .nothing function.code .nothing) →
    ∀ function ∈ final.functions, Declaring.Flows .nothing function.code .nothing

theorem Lower.InReach.of_functions (same : final.functions = l.functions) : l.InReach final :=
  fun before function member => before function (same ▸ member)

theorem Lower.InReach.trans {middle : Lower N} (one : l.InReach middle) (two : middle.InReach final) :
    l.InReach final := fun before => two (one before)

variable [Number N]

/-- What is known before and after the code of a tree. -/
def Lower.Node.InReach : Lower.Node → LoweredCode → Prop
  | .function .., code => ∃ emission constant captures, code = .plain emission ∧
      emission.instr = .closure constant captures
  | .methods _, code => ∀ after : Declaring, after.Resumes →
      ∃ before : Declaring, before.Resumes ∧ Declaring.Flows before code after
  | _, code => Declaring.Flows .nothing code .nothing

theorem Lower.Lowers.inReach {node : Node} (lowers : Lowers l node code final) : node.InReach code := by
  induction lowers with
  | false_ | true_ | nil => exact simple_declaring _ (by decide)
  | argsNil | empty | declsNil => exact .nil
  | number runs | string runs => exact emitWithConstant_declaring (by decide) runs
  | occurrence runs => exact (getter_declaring runs).1
  | super receiver superclass method =>
      exact .seq (getter_declaring receiver).1
        (.seq (getter_declaring superclass).1 (emitWithConstant_declaring (by decide) method))
  | functionExpr _ ih =>
      obtain ⟨emission, constant, captures, rfl, closure⟩ := ih
      exact .plain (.other (by rw [closure]; rfl))
  | call _ _ call callee args => exact .seq callee (.seq args (emitIndex_declaring (by decide) call))
  | getProperty _ property object =>
      exact .seq object (emitWithConstant_declaring (by decide) property)
  | unary _ operand => exact .seq operand (unary_declaring _ _)
  | binary binary _ _ left right => exact .seq left (.seq right (binary_declaring _ binary))
  | and_ _ _ left right =>
      exact .seq left (.skipIfFalse trivial (.seq (simple_declaring _ (by decide)) right))
  | or_ _ _ left right =>
      exact .seq left (.skipIfTrue trivial trivial (.seq (simple_declaring _ (by decide)) right))
  | assign _ assignment value => exact .seq value (assignment_declaring assignment)
  | argsCons _ _ head tail => exact .seq head tail
  | function _ _ _ _ closure =>
      obtain ⟨-, rfl⟩ := emitFunction_some closure
      exact ⟨_, _, _, rfl, rfl⟩
  | expression _ value | print _ value => exact .seq value (simple_declaring _ (by decide))
  | if_ _ _ _ condition thenBranch elseBranch =>
      exact .seq condition (.branch trivial trivial
        (.seq (simple_declaring _ (by decide)) thenBranch)
        (.seq (simple_declaring _ (by decide)) elseBranch))
  | for_ _ _ _ _ pops initializer condition increment body =>
      exact .seq initializer (.seq
        (.forLoop condition trivial trivial trivial increment
          (.seq (simple_declaring _ (by decide)) body))
        (.seq (simple_declaring _ (by decide)) (popTopScopeDepth_declaring pops)))
  | block _ pops body => exact .seq body (popTopScopeDepth_declaring pops)
  | returnDefault _ value =>
      exact .seq (emitDefaultReturnValue_declaring value) (simple_declaring _ (by decide))
  | return_ _ _ _ value => exact .seq value (simple_declaring _ (by decide))
  | while_ _ _ condition body =>
      exact .seq (.whileLoop condition trivial trivial (.seq (simple_declaring _ (by decide)) body))
        (simple_declaring _ (by decide))
  | statement _ body => exact body
  | baseClass klass declared _ define methods =>
      obtain ⟨before, resumes, body⟩ := methods .nothing (.inr rfl)
      obtain ⟨rfl, -⟩ := emitWithConstant_some klass
      exact .seq (.plain (.class_ resumes)) (.seq (trackDeclared_declaring _ declared)
        (.seq body (defineGlobalAtTop_declaring define)))
  | subclass klass declared before _ after define methods =>
      obtain ⟨middle, resumes, body⟩ := methods .class_ (.inl rfl)
      obtain ⟨rfl, -⟩ := emitWithConstant_some klass
      exact .seq (.plain (.class_ (.inl rfl))) (.seq (trackDeclared_declaring _ declared)
        (.seq (.seq (beginSuperclass_declaring resumes before)
          (.seq body (endSuperclass_declaring after))) (defineGlobalAtTop_declaring define)))
  | fun_ _ define declared ih =>
      obtain ⟨emission, constant, captures, rfl, closure⟩ := ih
      exact .seq (.plain (.other (by rw [closure]; rfl)))
        (.seq (defineGlobalAtTop_declaring define) (trackDeclared_declaring _ declared))
  | var _ _ define declared value =>
      exact .seq value (.seq (defineGlobalAtTop_declaring define) (initializeDeclared_declaring declared))
  | declsCons _ _ head tail => exact .seq head tail
  | methodsNil => exact fun after resumes => ⟨after, resumes, .nil⟩
  | methodsCons _ method _ closure tail =>
      intro after resumes
      obtain ⟨middle, laterResumes, rest⟩ := tail after resumes
      obtain ⟨emission, constant, captures, rfl, closure⟩ := closure
      obtain ⟨rfl, -⟩ := emitWithConstant_some method
      have begins : Declaring.Steps .class_ emission.instr .method := closure ▸ .closure
      exact ⟨.class_, .inl rfl, .seq (.plain begins)
        (.seq (.plain (.method laterResumes)) rest)⟩

theorem Lower.Lowers.inReach_functions {node : Node} (lowers : Lowers l node code final) :
    l.InReach final := by
  induction lowers with
  | false_ | true_ | nil | argsNil | empty | declsNil | methodsNil => exact .of_functions rfl
  | number runs | string runs => exact .of_functions (emitWithConstant_functions runs)
  | occurrence runs => exact .of_functions (emitGetterSetter_functions runs)
  | super receiver superclass method =>
      exact .of_functions ((emitWithConstant_functions method).trans
        ((emitGetterSetter_functions superclass).trans (emitGetterSetter_functions receiver)))
  | functionExpr _ ih | unary _ ih | expression _ ih | print _ ih | return_ _ _ _ ih
  | statement _ ih => exact ih
  | call _ _ call callee args =>
      obtain ⟨-, rfl⟩ := emitIndex_some call
      exact callee.trans args
  | getProperty _ property object =>
      exact object.trans (.of_functions (emitWithConstant_functions property))
  | binary _ _ _ left right | and_ _ _ left right | or_ _ _ left right => exact left.trans right
  | assign _ assignment value =>
      exact value.trans (.of_functions (emitAssignment_functions assignment))
  | argsCons _ _ head tail | declsCons _ _ head tail | while_ _ _ head tail => exact head.trans tail
  | function tracks lowers value leaves closure body =>
      obtain rfl := trackAll_some tracks
      have flows : Declaring.Flows .nothing _ .nothing := lowers.inReach
      have returns := emitDefaultReturnValue_declaring value
      have same := emitDefaultReturnValue_functions value
      obtain ⟨-, outer, rest, -, rfl⟩ := leaveFunction_some leaves
      obtain ⟨rfl, -⟩ := emitFunction_some closure
      intro before function member
      rcases List.mem_append.mp member with old | new
      · exact body before function (same ▸ old)
      · rw [List.mem_singleton.mp new]
        exact .seq flows (.seq returns (simple_declaring _ (by decide)))
  | if_ _ _ _ condition thenBranch elseBranch => exact (condition.trans thenBranch).trans elseBranch
  | for_ _ _ _ _ pops initializer condition increment body =>
      exact ((InReach.of_functions rfl).trans ((initializer.trans condition).trans
        (increment.trans body))).trans (.of_functions (popTopScopeDepth_functions pops))
  | block _ pops body =>
      exact ((InReach.of_functions rfl).trans body).trans (.of_functions (popTopScopeDepth_functions pops))
  | returnDefault _ value => exact .of_functions (emitDefaultReturnValue_functions value)
  | baseClass klass declared _ define methods =>
      exact ((InReach.of_functions ((trackDeclared_functions declared).trans
        (emitWithConstant_functions klass))).trans methods).trans
          (.of_functions (defineGlobalAtTop_functions define))
  | subclass klass declared before _ after define methods =>
      exact ((InReach.of_functions ((beginSuperclass_functions before).trans
        ((trackDeclared_functions declared).trans (emitWithConstant_functions klass)))).trans
          methods).trans (.of_functions ((defineGlobalAtTop_functions define).trans
            (endSuperclass_functions after)))
  | fun_ _ define declared closure =>
      exact closure.trans (.of_functions ((trackDeclared_functions declared).trans
        (defineGlobalAtTop_functions define)))
  | var tracked _ define declared value =>
      exact ((InReach.of_functions (trackDeclared_functions tracked)).trans value).trans
        (.of_functions ((initializeDeclared_functions declared).trans
          (defineGlobalAtTop_functions define)))
  | methodsCons _ method _ closure tail =>
      exact (closure.trans (.of_functions (emitWithConstant_functions method))).trans tail

/-- No function of a lowered program needs more than is known. -/
theorem Lower.Lowers.inReach_program {decls : Decls}
    (lowers : Lowers ({} : Lower N) (.decls decls) code l) :
    ∀ function ∈ l.functions ++ [l.script code], Declaring.Flows .nothing function.code .nothing := by
  intro function member
  rcases List.mem_append.mp member with inner | root
  · exact lowers.inReach_functions (by simp) function inner
  · rw [List.mem_singleton.mp root]
    exact lowers.inReach

end Cpplox
