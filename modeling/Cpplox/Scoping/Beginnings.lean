import Cpplox.Bytecode.Ordinary
import Cpplox.Scoping.Capturing
import Cpplox.Scoping.Premature

namespace Cpplox

open Data Structured Lower

/-! Function expressions that are the first thing in the initializer of a local variable. -/

/-- The occurrences in the function expressions that the evaluation of an expression may
begin with, when nothing else is on the stack. -/
def Expr.foremost (visible : Visible) : Expr → List Occurrence
  | .function _ params body => body.occurrences (visible.enterFunction (paramNames params))
  | .call first _ _ | .getProperty first _ | .unary _ first | .binary _ first _
  | .assign _ _ _ first => first.foremost visible
  | .and_ _ left right | .or_ _ left right => left.foremost visible ++ right.foremost visible
  | .false_ _ | .true_ _ | .nil _ | .number _ | .string _ | .variable _ | .super _ _ => []

mutual

/-- Control may come to what follows a statement. -/
def Stmt.falls : Stmt → Bool
  | .empty | .expression _ _ | .print _ _ | .while_ _ _ _ => true
  | .if_ _ _ thenBranch elseBranch => thenBranch.falls || elseBranch.falls
  | .for_ _ initializer _ _ _ => initializer.falls
  | .block body _ => body.falls
  | .returnDefault _ | .return_ _ _ => false

def Decl.falls : Decl → Bool
  | .statement body => body.falls
  | .class_ _ _ _ _ | .fun_ _ _ _ _ | .var _ _ _ => true

def Decls.falls : Decls → Bool
  | .nil => true
  | .cons head tail => head.falls && tail.falls

end

/-- The foremost occurrences in the initializer of a local variable. -/
def Expr.begins (visible : Visible) (declared : Text) (initializer : Expr) : List Initializing :=
  if visible.depth = 0 then []
  else (initializer.foremost (visible.declare declared)).map (visible.initializing declared)

mutual

/-- The foremost occurrences in the initializers of all local variables of the functions
with the callee or the receiver in slot 0, where control may come; `live` says so of the
declarations here. -/
def Expr.beginnings (visible : Visible) : Expr → List Initializing
  | .false_ _ | .true_ _ | .nil _ | .number _ | .string _ | .variable _ | .super _ _ => []
  | .function _ params body => body.beginnings false (visible.enterFunction (paramNames params))
  | .call callee args _ => callee.beginnings visible ++ args.beginnings visible
  | .getProperty object _ => object.beginnings visible
  | .unary _ operand => operand.beginnings visible
  | .binary _ left right | .and_ _ left right | .or_ _ left right =>
      left.beginnings visible ++ right.beginnings visible
  | .assign _ _ _ value => value.beginnings visible

def Exprs.beginnings (visible : Visible) : Exprs → List Initializing
  | .nil => []
  | .cons head tail => head.beginnings visible ++ tail.beginnings visible

def Stmt.beginnings (live : Bool) (visible : Visible) : Stmt → List Initializing
  | .empty | .returnDefault _ => []
  | .expression value _ | .print _ value | .return_ _ value => value.beginnings visible
  | .if_ _ condition thenBranch elseBranch => condition.beginnings visible ++
      (thenBranch.beginnings live visible ++ elseBranch.beginnings live visible)
  | .for_ _ initializer condition increment body =>
      initializer.beginnings live visible.enterScope ++
        (condition.beginnings (initializer.declares visible.enterScope) ++
          (increment.beginnings (live && initializer.falls && body.falls)
              (initializer.declares visible.enterScope) ++
            body.beginnings (live && initializer.falls) (initializer.declares visible.enterScope)))
  | .block body _ => body.beginnings live visible.enterScope
  | .while_ _ condition body => condition.beginnings visible ++ body.beginnings live visible

def Decl.beginnings (live : Bool) (visible : Visible) : Decl → List Initializing
  | .statement body => body.beginnings live visible
  | .class_ _ name none methods => methods.beginnings (visible.declare name.lexeme)
  | .class_ _ name (some _) methods =>
      methods.beginnings ((visible.declare name.lexeme).enterSuperclass.declare superName)
  | .fun_ _ name params body =>
      body.beginnings true (visible.enterFunction (name.lexeme :: paramNames params))
  | .var _ name initializer => (if live then initializer.begins visible name.lexeme else []) ++
      initializer.beginnings (visible.declare name.lexeme)

def Decls.beginnings (live : Bool) (visible : Visible) : Decls → List Initializing
  | .nil => []
  | .cons head tail => head.beginnings live visible ++
      tail.beginnings (live && head.falls) (head.declares visible)

def Methods.beginnings (visible : Visible) : Methods → List Initializing
  | .nil => []
  | .cons _ params body tail =>
      body.beginnings true (visible.enterFunction (thisName :: paramNames params)) ++
        tail.beginnings visible

end

/-- A closure that would be pushed where the local that it captures will be. -/
def Emission.CapturesOwn (emission : Emission) : Prop :=
  emission.leading = true ∧ ∃ constant captures index,
    emission.instr = .closure constant captures ∧ .upvalueIndex index ∈ captures ∧
      emission.waitsFor index = true

/-- Control may come to such a closure, when it may come to the code at all. -/
def Owns (live : Bool) (code : LoweredCode) : Prop :=
  live = true ∧ ∃ emission ∈ code.attained Emission.stops, emission.CapturesOwn

section Owns

variable {live : Bool} {tag : JumpTag} {code first second third : LoweredCode}

theorem Ordinary.falls (ordinary : Ordinary code.plains) : code.falls Emission.stops = true :=
  Code.falls_of_plains fun emission member => (ordinary emission member).1

theorem Ordinary.not_owns (ordinary : Ordinary code.plains) : ¬ Owns live code := by
  rintro ⟨-, emission, member, -, constant, captures, _, same, -⟩
  exact (ordinary emission (Code.attained_subset member)).2 constant captures same

@[simp] theorem not_owns_dead : ¬ Owns false code := by simp [Owns]

theorem Owns.alive (owns : Owns live code) : Owns true code := ⟨rfl, owns.2⟩

@[simp] theorem not_owns_nil : ¬ Owns live .nil := by
  simp [Owns, Code.attained]

@[simp] theorem owns_seq : Owns live (.seq first second) ↔
    Owns live first ∨ Owns (live && first.falls Emission.stops) second := by
  cases live <;> cases falls : first.falls Emission.stops <;>
    simp [Owns, Code.attained, falls, or_and_right, exists_or]

@[simp] theorem owns_skipIfFalse : Owns live (.skipIfFalse tag code) ↔ Owns live code := Iff.rfl

@[simp] theorem owns_skipIfTrue : Owns live (.skipIfTrue tag code) ↔ Owns live code := Iff.rfl

@[simp] theorem owns_branch : Owns live (.branch tag first second) ↔
    Owns live first ∨ Owns live second := by
  cases live <;> simp [Owns, Code.attained, or_and_right, exists_or]

@[simp] theorem owns_whileLoop : Owns live (.whileLoop tag first second) ↔
    Owns live first ∨ Owns (live && first.falls Emission.stops) second := by
  cases live <;> cases falls : first.falls Emission.stops <;>
    simp [Owns, Code.attained, falls, or_and_right, exists_or]

@[simp] theorem owns_forLoop : Owns live (.forLoop tag first second third) ↔
    Owns live first ∨ Owns (live && first.falls Emission.stops) third ∨
      Owns (live && first.falls Emission.stops && third.falls Emission.stops) second := by
  cases live <;> cases falls : first.falls Emission.stops <;>
    cases turns : third.falls Emission.stops <;>
    simp [Owns, Code.attained, falls, turns, or_and_right, exists_or]

end Owns

namespace Lower

variable {N : Type} [Number N] {l l₁ l₂ final : Lower N} {code : LoweredCode}
  {token : SourceMapToken Text} {node : Node}

def Node.falls : Node → Bool
  | .expr _ _ | .args _ | .function _ _ _ _ _ _ _ | .methods _ => true
  | .stmt tree => tree.falls
  | .decl tree => tree.falls
  | .decls trees => trees.falls

theorem emitFunction_falls {function : LoweredFunction N} {leading : Bool}
    (runs : (emitFunction function token leading).run l = some (code, final)) :
    code.falls Emission.stops = true := by
  obtain ⟨-, rfl⟩ := emitFunction_some runs
  rfl

omit [Number N] in
@[simp] theorem falls_simple (l : Lower N) (opcode : Opcode) (token : SourceMapToken Text) :
    (l.simple opcode token).falls Emission.stops = !decide (opcode = .return_) := by
  cases opcode <;> rfl

omit [Number N] in
@[simp] theorem not_owns_simple (l : Lower N) (opcode : Opcode) (token : SourceMapToken Text)
    {live : Bool} : ¬ Owns live (l.simple opcode token) := by
  rintro ⟨-, _, member, -, _, _, _, closes, -⟩
  obtain rfl := List.mem_singleton.mp member
  cases closes

/-- Control passes through the code of a tree as through the tree. -/
theorem Lowers.falls (lowers : Lowers l node code final) : code.falls Emission.stops = node.falls := by
  induction lowers with
  | false_ | true_ | nil | argsNil | empty | declsNil | methodsNil => rfl
  | number runs | string runs => exact (emitWithConstant_ordinary runs).falls
  | occurrence runs => exact (emitGetterSetter_ordinary runs).falls
  | super receiver superclass method =>
      simp [Code.falls, Node.falls, (emitGetterSetter_ordinary receiver).falls,
        (emitGetterSetter_ordinary superclass).falls, (emitWithConstant_ordinary method).falls]
  | functionExpr _ closure => exact closure
  | call _ _ call callee args =>
      simp [Code.falls, Node.falls, callee, args, (emitIndex_ordinary call).falls]
  | getProperty _ property object =>
      simp [Code.falls, Node.falls, object, (emitWithConstant_ordinary property).falls]
  | @unary _ _ _ operator _ _ _ operand =>
      have other : unaryOpcode operator.type ≠ .return_ := by cases operator.type <;> decide
      simp [Code.falls, Node.falls, operand, other]
  | binary binary _ _ left right =>
      simp [Code.falls, Node.falls, left, right, (ordinary_binary _ binary _).falls]
  | and_ _ _ left right | or_ _ _ left right => simp [Code.falls, Node.falls, left]
  | assign _ assignment value =>
      simp [Code.falls, Node.falls, value, (emitAssignment_ordinary assignment).falls]
  | argsCons _ _ head tail => simp [Code.falls, Node.falls, head, tail]
  | function _ _ _ _ closure => exact emitFunction_falls closure
  | expression _ value | print _ value =>
      simp [Code.falls, Node.falls, Stmt.falls, value]
  | if_ _ _ _ condition thenBranch elseBranch =>
      simp [Code.falls, Node.falls, Stmt.falls, condition, thenBranch, elseBranch]
  | for_ _ _ _ _ pops initializer condition =>
      simp [Code.falls, Node.falls, Stmt.falls, initializer, condition,
        (popTopScopeDepth_ordinary pops).falls]
  | block _ pops body =>
      simp [Code.falls, Node.falls, Stmt.falls, body, (popTopScopeDepth_ordinary pops).falls]
  | returnDefault | return_ => simp [Code.falls, Node.falls, Stmt.falls]
  | while_ _ _ condition body =>
      simp [Code.falls, Node.falls, Stmt.falls, condition]
  | statement _ body => exact body
  | baseClass klass declared _ define methods =>
      simp [Code.falls, Node.falls, Decl.falls, methods, (emitWithConstant_ordinary klass).falls,
        (trackDeclared_ordinary declared).falls, (defineGlobalAtTop_ordinary define).falls]
  | subclass klass declared before _ after define methods =>
      simp [Code.falls, Node.falls, Decl.falls, methods, (emitWithConstant_ordinary klass).falls,
        (trackDeclared_ordinary declared).falls, (beginSuperclass_ordinary before).falls,
        (endSuperclass_ordinary after).falls, (defineGlobalAtTop_ordinary define).falls]
  | fun_ _ define declared closure =>
      simp [Code.falls, Node.falls, Decl.falls, closure, (defineGlobalAtTop_ordinary define).falls,
        (trackDeclared_ordinary declared).falls]
  | var _ _ define declared value =>
      simp [Code.falls, Node.falls, Decl.falls, value, (defineGlobalAtTop_ordinary define).falls,
        (initializeDeclared_ordinary declared).falls]
  | declsCons _ _ head tail => simp [Code.falls, Node.falls, Decls.falls, head, tail]
  | methodsCons _ method _ closure tail =>
      simp [Code.falls, Node.falls, closure, tail, (emitWithConstant_ordinary method).falls]

section Claims

variable {N : Type} {l final : Lower N} {index : Nat}

/-- The local at an index is the latest one and has no value yet. -/
def Awaits (l : Lower N) (index : Nat) : Prop :=
  ∃ waiting rest, l.back.trackedLocals = waiting :: rest ∧ waiting.initialized = false ∧
    index = rest.length

/-- A function made here would have to capture a local that waits for its value. -/
def Claims (l : Lower N) (occurrence : Occurrence) : Prop :=
  ∃ index, occurrence.Captures l.captured.length index ∧ l.Awaits index

theorem Settled.not_awaits (settled : l.Settled) : ¬ l.Awaits index := by
  rintro ⟨waiting, rest, locals, initialized, -⟩
  have ready := settled waiting (locals ▸ List.mem_cons_self)
  rw [initialized] at ready
  cases ready

theorem waitsFor_iff {emission : Emission} (scopes : emission.scopes = l.scopes) :
    emission.waitsFor index = true ↔ l.Awaits index := by
  rw [Emission.waitsFor, scopes, Awaits]
  cases locals : l.back.trackedLocals with
  | nil => simp [Lower.scopes, scopeOf, locals]
  | cons waiting rest => simp [Lower.scopes, scopeOf, locals]

theorem Steady.awaits (steady : l.Steady final) : final.Awaits index ↔ l.Awaits index := by
  obtain ⟨later, split, extends_⟩ := steady.grows.back
  have captures : Captures l.back.trackedLocals later := extends_.locals
  rw [Awaits, Awaits, split, List.nil_append]
  generalize l.back.trackedLocals = locals at captures
  cases captures with
  | nil => rfl
  | cons marked rest =>
      have same := marked.initialized
      have length := rest.length_eq
      constructor
      · rintro ⟨_, _, ⟨⟩, initialized, rfl⟩
        exact ⟨_, _, rfl, same.symm.trans initialized, length.symm⟩
      · rintro ⟨_, _, ⟨⟩, initialized, rfl⟩
        exact ⟨_, _, rfl, same.trans initialized, length⟩

theorem captured_length (l : Lower N) : l.captured.length = l.visible.functions.length := by
  simp [captured, Visible.functions, visible, outerNames]

theorem Steady.claims (steady : l.Steady final) {occurrence : Occurrence} :
    final.Claims occurrence ↔ l.Claims occurrence := by
  simp only [Claims, captured_length, steady.visible, steady.awaits]

end Claims

/-- The closure of a function. -/
theorem emitFunction_owns {function : LoweredFunction N} {leading : Bool}
    (runs : (emitFunction function token leading).run l = some (code, final)) :
    Owns true code ↔ leading = true ∧ ∃ index, .upvalueIndex index ∈ function.captures ∧
      l.Awaits index := by
  obtain ⟨rfl, rfl⟩ := emitFunction_some runs
  have same : (l.withFunction function).back.trackedLocals = l.back.trackedLocals := rfl
  have waits (emission : Emission) (scopes : emission.scopes = (l.withFunction function).scopes)
      (index : Nat) : emission.waitsFor index = true ↔ l.Awaits index := by
    rw [waitsFor_iff scopes, Awaits, same, Awaits]
  constructor
  · rintro ⟨-, _, member, leads, constant, captures, index, closes, captured, awaits⟩
    obtain rfl := List.mem_singleton.mp member
    cases closes
    exact ⟨leads, index, captured, (waits _ rfl index).mp awaits⟩
  · rintro ⟨leads, index, captured, awaits⟩
    exact ⟨rfl, _, List.mem_singleton_self _, leads, _, _, index, rfl, captured,
      (waits _ rfl index).mpr awaits⟩

def Node.leading : Node → Bool
  | .expr leading _ | .function _ _ _ _ _ _ leading => leading
  | .args _ | .stmt _ | .decl _ | .decls _ | .methods _ => false

/-- What the functions that are made first use. -/
def Node.foremost (visible : Visible) : Node → List Occurrence
  | .expr _ tree => tree.foremost visible
  | .function _ _ self params body _ _ =>
      body.occurrences (visible.enterFunction (self.map (·.lexeme) ++ paramNames params))
  | .args _ | .stmt _ | .decl _ | .decls _ | .methods _ => []

/-- Code of the function it is in captures the waiting local exactly when the functions
that it makes first use that local. -/
theorem Lowers.foremost (lowers : Lowers l node code final) (ready : node.Ready l)
    (isExpr : node.IsExpr) : Owns true code ↔
      node.leading = true ∧ ∃ occurrence ∈ node.foremost l.visible, l.Claims occurrence := by
  induction lowers with
  | false_ | true_ | nil => simp [Node.foremost, Expr.foremost]
  | number runs | string runs =>
      simp [Node.foremost, Expr.foremost, (emitWithConstant_ordinary runs).not_owns]
  | occurrence runs => simp [Node.foremost, Expr.foremost, (emitGetterSetter_ordinary runs).not_owns]
  | super receiver superclass method =>
      simp [Node.foremost, Expr.foremost, (emitGetterSetter_ordinary receiver).not_owns,
        (emitGetterSetter_ordinary superclass).not_owns, (emitWithConstant_ordinary method).not_owns]
  | argsNil => simp [Node.foremost]
  | functionExpr _ ih => exact ih ready trivial
  | call callee args call ihCallee ihArgs =>
      have tracks := (callee.outcome ready).tracks ready
      simp [callee.falls, args.falls, Node.falls, ihCallee ready trivial, ihArgs tracks trivial,
        Node.leading, Node.foremost, Expr.foremost, (emitIndex_ordinary call).not_owns]
  | getProperty object property ihObject =>
      simp [object.falls, Node.falls, ihObject ready trivial, Node.leading, Node.foremost,
        Expr.foremost, (emitWithConstant_ordinary property).not_owns]
  | unary operand ihOperand =>
      simp [operand.falls, Node.falls, ihOperand ready trivial, Node.leading, Node.foremost,
        Expr.foremost]
  | binary binary left right ihLeft ihRight =>
      have tracks := (left.outcome ready).tracks ready
      simp [left.falls, right.falls, Node.falls, ihLeft ready trivial, ihRight tracks trivial,
        Node.leading, Node.foremost, Expr.foremost, (ordinary_binary _ binary _).not_owns]
  | and_ left right ihLeft ihRight | or_ left right ihLeft ihRight =>
      have steady := left.outcome ready
      have rest := ihRight (steady.tracks ready) trivial
      simp only [steady.visible, steady.claims] at rest
      simp [left.falls, Node.falls, ihLeft ready trivial, rest, Node.leading, Node.foremost,
        Expr.foremost, or_and_right, exists_or, and_or_left]
  | argsCons left right ihLeft ihRight =>
      have tracks := (left.outcome ready).tracks ready
      simp [left.falls, Node.falls, ihLeft ready trivial, ihRight tracks trivial, Node.leading]
  | assign value assignment ihValue =>
      simp [value.falls, Node.falls, ihValue ready trivial, Node.leading, Node.foremost,
        Expr.foremost, (emitAssignment_ordinary assignment).not_owns]
  | function tracks body returns leaves closure =>
      have inside := enterFunction_tracks ready.linked _ tracks
      obtain ⟨declared, grows, declares, linked⟩ := body.outcome inside
      have captures := body.capturing inside
      rw [enterFunction_visible tracks] at captures
      have all := captures.function tracks (emitDefaultReturnValue_captured returns) leaves
      obtain ⟨rfl, -⟩ := emitDefaultReturnValue_some returns
      have left := leaveFunction_steady tracks grows linked leaves
      have names (self : List (SourceMapToken Text)) (params : List Token) :
          (self ++ params.map sourceMapToken).map (·.lexeme) =
            self.map (·.lexeme) ++ paramNames params := by
        simp [paramNames, sourceMapToken, Function.comp_def]
      simp only [Node.occurrences, names] at all
      simp only [emitFunction_owns closure, all.2, left.awaits, Node.leading, Node.foremost, Claims]
      refine and_congr_right fun _ => ⟨?_, ?_⟩
      · rintro ⟨index, ⟨occurrence, member, captures⟩, awaits⟩
        exact ⟨occurrence, member, index, captures, awaits⟩
      · rintro ⟨occurrence, member, index, captures, awaits⟩
        exact ⟨index, ⟨occurrence, member, captures⟩, awaits⟩
  | _ => exact isExpr.elim

end Lower

/-- What is in a function expression that comes first. -/
theorem Expr.foremost_inside {visible : Visible} : ∀ tree : Expr,
    ∀ occurrence ∈ tree.foremost visible, occurrence ∈ tree.occurrences visible ∧
      visible.functions.length < occurrence.functions.length
  | .function _ _ body => fun occurrence member => by
      obtain ⟨suffix, different⟩ :=
        Visible.functions_of_enterFunction (body.occurrences_around occurrence member)
      refine ⟨member, Nat.lt_of_le_of_ne suffix.length_le fun same => ?_⟩
      exact different (suffix.eq_of_length same).symm
  | .call first _ _ | .binary _ first _ | .assign _ _ _ first => fun occurrence member =>
      have inside := first.foremost_inside occurrence member
      ⟨List.mem_append_left _ inside.1, inside.2⟩
  | .getProperty first _ | .unary _ first => first.foremost_inside
  | .and_ _ left right | .or_ _ left right => fun occurrence member => by
      rcases List.mem_append.mp member with early | late
      · have inside := left.foremost_inside occurrence early
        exact ⟨List.mem_append_left _ inside.1, inside.2⟩
      · have inside := right.foremost_inside occurrence late
        exact ⟨List.mem_append_right _ inside.1, inside.2⟩
  | .false_ _ | .true_ _ | .nil _ | .number _ | .string _ | .variable _ | .super _ _ =>
      fun _ member => nomatch member

namespace Lower

variable {N : Type} [Number N] {l l₁ l₂ final : Lower N} {code : LoweredCode}
  {token : SourceMapToken Text} {node : Node}

/-- The waiting local is captured first by a function that uses it prematurely. -/
theorem Lowers.begins_initializer {tree : Expr} {tracked : LoweredCode}
    (ready : l.Tracks ∧ l.Settled)
    (runs : (trackDeclared token false).run l = some (tracked, l₁))
    (value : Lowers l₁ (.expr true tree) code l₂) :
    (∃ entry ∈ tree.begins l.visible token.lexeme, entry.Premature) ↔ Owns true code := by
  have tracks := trackWaiting_tracks ready.1 ready.2 runs
  have visible := trackDeclared_visible runs
  rw [value.foremost tracks trivial, Node.foremost, visible]
  unfold Expr.begins
  split
  case isTrue top =>
    rcases trackDeclared_some runs with ⟨inside, -⟩ | ⟨-, -, rfl⟩
    · exact absurd top (Nat.ne_of_gt inside)
    · simp [Claims, ready.2.not_awaits]
  case isFalse inside =>
    have checks := value.checks_initializer ready runs
    simp only [Expr.initializes, if_neg inside] at checks
    have awaits (index : Nat) : l₁.Awaits index ↔ index = l.visible.inner.length := by
      rcases trackDeclared_some runs with ⟨-, tracks⟩ | ⟨top, -, -⟩
      · obtain ⟨-, -, rfl⟩ := trackLocal_some tracks
        simp [Awaits, withLocals, newLocal, Lower.visible, namesOf]
      · exact absurd top inside
    simp only [List.mem_map, exists_exists_and_eq_and, Node.leading, true_and]
    refine exists_congr fun occurrence => and_congr_right fun member => ?_
    obtain ⟨there, deeper⟩ := tree.foremost_inside occurrence member
    have checked := (checks _ (List.mem_map_of_mem there)).1
    have height : (l.visible.declare token.lexeme).functions.length = l.visible.functions.length := by
      rw [Visible.functions, Visible.declare_outer]
      rfl
    have place : (l.visible.initializing token.lexeme occurrence).place =
        (occurrence.functions.length - l.visible.functions.length, l.visible.inner.length) := by
      simp [Initializing.place, Visible.initializing]
    rw [← checked.found, place, Claims, captured_length, visible, height]
    rw [height] at deeper
    constructor
    · intro found
      refine ⟨_, ⟨occurrence.functions.length - l.visible.functions.length - 1, ?_, by omega⟩,
        (awaits _).mpr rfl⟩
      rw [Nat.sub_add_cancel (by omega)]
      exact found
    · rintro ⟨index, ⟨level, found, total⟩, waiting⟩
      obtain rfl := (awaits index).mp waiting
      have levels : occurrence.functions.length - l.visible.functions.length = level + 1 := by omega
      rw [levels]
      exact found

end Lower

/-- A function with the callee or the receiver in slot 0 in which control may come to a
closure that captures the local its initializer it begins. -/
def LoweredFunction.CapturesOwn {N : Type} (function : LoweredFunction N) : Prop :=
  function.kind ≠ .expression ∧ Owns true function.code

namespace Lower

variable {N : Type} [Number N] {l l₁ l₂ final : Lower N} {code : LoweredCode}
  {token : SourceMapToken Text} {node : Node} {own other : Prop}
  {entries more : List Initializing}

/-- Between two states of lowering some entry is premature exactly when the code here or a
function made since captures such a local. -/
def Begins (l : Lower N) (own : Prop) (final : Lower N) (entries : List Initializing) : Prop :=
  ∃ made, final.functions = l.functions ++ made ∧
    ((∃ entry ∈ entries, entry.Premature) ↔ own ∨ ∃ function ∈ made, function.CapturesOwn)

namespace Begins

omit [Number N]

theorem here (same : final.functions = l.functions)
    (premature : (∃ entry ∈ entries, entry.Premature) ↔ own) : l.Begins own final entries :=
  ⟨[], by simp [same], by simp [premature]⟩

theorem nothing (same : final.functions = l.functions) (none : ¬ own) : l.Begins own final [] :=
  here same (by simp [none])

theorem congr (begins : l.Begins own final entries) (same : own ↔ other) :
    l.Begins other final entries := by
  obtain ⟨made, functions, premature⟩ := begins
  exact ⟨made, functions, by rw [premature, same]⟩

theorem append (first : l.Begins own l₁ entries) (second : l₁.Begins other final more) :
    l.Begins (own ∨ other) final (entries ++ more) := by
  obtain ⟨made, functions, premature⟩ := first
  obtain ⟨laterMade, laterFunctions, laterPremature⟩ := second
  refine ⟨made ++ laterMade, by simp [functions, laterFunctions], ?_⟩
  simp only [List.mem_append, or_and_right, exists_or, premature, laterPremature]
  exact or_or_or_comm

theorem then_same (first : l.Begins own l₁ entries) (same : final.functions = l₁.functions) :
    l.Begins own final entries := by
  obtain ⟨made, functions, premature⟩ := first
  exact ⟨made, same.trans functions, premature⟩

theorem after_same (same : l₁.functions = l.functions) (second : l₁.Begins own final entries) :
    l.Begins own final entries := by
  obtain ⟨made, functions, premature⟩ := second
  exact ⟨made, same ▸ functions, premature⟩

theorem scope (inside : l.enterScope.Begins own final entries) : l.Begins own final entries := inside

/-- A function, once it is made. -/
theorem function {function : LoweredFunction N} (made : final.functions = l₁.functions ++ [function])
    (body : l.Begins function.CapturesOwn l₁ entries) : l.Begins False final entries := by
  obtain ⟨earlier, functions, premature⟩ := body
  refine ⟨earlier ++ [function], by simp [made, functions], ?_⟩
  simp only [premature, List.mem_append, List.mem_singleton, or_and_right, exists_or,
    exists_eq_left, false_or]
  exact or_comm

end Begins

/-- Code of the function it is in captures nothing where no local waits, or behind
something else. -/
theorem Lowers.begins_alive (lowers : Lowers l node code final) (ready : node.Ready l)
    (isExpr : node.IsExpr) (live : Bool) (settled : node.leading = true → l.Settled)
    (begins : l.Begins (Owns false code) final entries) : l.Begins (Owns live code) final entries := by
  have none : ¬ Owns live code := fun owns => by
    obtain ⟨leads, _, -, _, -, awaits⟩ := (lowers.foremost ready isExpr).mp owns.alive
    exact (settled leads).not_awaits awaits
  exact begins.congr (iff_of_false not_owns_dead none)

def Node.beginnings (live : Bool) (visible : Visible) : Node → List Initializing
  | .expr _ tree => tree.beginnings visible
  | .args trees => trees.beginnings visible
  | .function kind _ self params body _ _ =>
      body.beginnings (kind ≠ .expression)
        (visible.enterFunction (self.map (·.lexeme) ++ paramNames params))
  | .stmt tree => tree.beginnings live visible
  | .decl tree => tree.beginnings live visible
  | .decls trees => trees.beginnings live visible
  | .methods trees => trees.beginnings visible

/-- The premature beginnings of a tree are those its code and its functions capture. -/
theorem Lowers.begins (lowers : Lowers l node code final) (ready : node.Ready l) (live : Bool)
    (dead : node.IsExpr → live = false) :
    l.Begins (Owns live code) final (node.beginnings live l.visible) := by
  induction lowers generalizing live with
  | false_ | true_ | nil | argsNil | empty | declsNil | methodsNil => exact .nothing rfl (by simp)
  | number runs | string runs =>
      exact .nothing (emitWithConstant_functions runs) (emitWithConstant_ordinary runs).not_owns
  | occurrence runs =>
      exact .nothing (emitGetterSetter_functions runs) (emitGetterSetter_ordinary runs).not_owns
  | super receiver superclass method =>
      have same := (emitWithConstant_functions method).trans
        ((emitGetterSetter_functions superclass).trans (emitGetterSetter_functions receiver))
      exact .nothing same (dead trivial ▸ not_owns_dead)
  | functionExpr _ ih => exact ih ready live dead
  | call callee args call ihCallee ihArgs =>
      obtain rfl := dead trivial
      have steady := callee.outcome ready
      have rest := ihArgs (steady.tracks ready) false fun _ => rfl
      rw [steady.visible] at rest
      obtain ⟨rfl, rfl⟩ := emitIndex_some call
      exact ((ihCallee ready false fun _ => rfl).append rest).congr (by simp)
  | getProperty object property ihObject =>
      obtain rfl := dead trivial
      exact ((ihObject ready false fun _ => rfl).then_same
        (emitWithConstant_functions property)).congr (by simp)
  | unary operand ihOperand =>
      obtain rfl := dead trivial
      exact (ihOperand ready false fun _ => rfl).congr (by simp)
  | binary _ left right ihLeft ihRight | and_ left right ihLeft ihRight
  | or_ left right ihLeft ihRight | argsCons left right ihLeft ihRight =>
      obtain rfl := dead trivial
      have steady := left.outcome ready
      have rest := ihRight (steady.tracks ready) false fun _ => rfl
      rw [steady.visible] at rest
      exact ((ihLeft ready false fun _ => rfl).append rest).congr (by simp)
  | assign value assignment ihValue =>
      obtain rfl := dead trivial
      exact ((ihValue ready false fun _ => rfl).then_same
        (emitAssignment_functions assignment)).congr (by simp)
  | @function _ _ _ _ _ _ kind _ self params _ _ _ _ _ _ _ tracks body returns leaves closure ihBody =>
      obtain rfl := dead trivial
      have inner := ihBody (enterFunction_tracks ready.linked _ tracks) (kind ≠ .expression) False.elim
      have names : (self ++ params.map sourceMapToken).map (·.lexeme) =
          self.map (·.lexeme) ++ paramNames params := by
        simp [paramNames, sourceMapToken, Function.comp_def]
      rw [enterFunction_visible tracks, names] at inner
      have entered := congrArg Lower.functions (trackAll_some tracks)
      have value := emitDefaultReturnValue_ordinary returns
      have same := emitDefaultReturnValue_functions returns
      obtain ⟨rfl, outer, rest, split, rfl⟩ := leaveFunction_some leaves
      obtain ⟨rfl, -⟩ := emitFunction_some closure
      refine (Begins.function (withFunction_functions _ _) ((inner.after_same entered).then_same same |>.congr ?_)).congr (by simp)
      have alive (code : LoweredCode) : Owns (kind ≠ .expression) code ↔
          kind ≠ .expression ∧ Owns true code := by
        by_cases expression : kind = .expression <;> simp [expression, Owns]
      rw [alive, LoweredFunction.CapturesOwn]
      refine and_congr_right fun _ => ?_
      simp [value.not_owns]
  | expression value ih | print value ih =>
      have inner := value.begins_alive ready.1 trivial live (fun _ => ready.2)
        (ih ready.1 false fun _ => rfl)
      exact inner.congr (by simp)
  | return_ _ _ value ih =>
      have inner := value.begins_alive ready.1 trivial live (fun _ => ready.2)
        (ih ready.1 false fun _ => rfl)
      exact inner.congr (by simp)
  | if_ condition thenBranch elseBranch ihCondition ihThen ihElse =>
      have test := condition.outcome ready.1
      have ready₁ := test.ready ready
      have yes := thenBranch.outcome ready₁
      have first := condition.begins_alive ready.1 trivial live (fun _ => ready.2)
        (ihCondition ready.1 false fun _ => rfl)
      have second := ihThen ready₁ live False.elim
      have third := ihElse (yes.ready ready₁) live False.elim
      rw [test.visible] at second
      rw [yes.visible, test.visible] at third
      exact (first.append (second.append third)).congr (by simp [condition.falls, Node.falls])
  | @for_ _ _ _ _ _ _ _ decl _ _ stmt _ _ _ _ _ initializer condition increment body pops
      ihInitializer ihCondition ihIncrement ihBody =>
      have entered := ready.1.enterScope
      obtain ⟨declared, grows, declares, linked⟩ := initializer.outcome ⟨entered, ready.2⟩
      have ready₁ := grows.ready declares linked ⟨entered, ready.2⟩
      have test := condition.outcome ready₁.1
      have ready₂ := test.ready ready₁
      have step := increment.outcome ready₂
      have around := initializer.visible_decl ⟨entered, ready.2⟩
      have first := ihInitializer ⟨entered, ready.2⟩ live False.elim
      have starts := initializer.falls
      have turns := body.falls
      have second := condition.begins_alive ready₁.1 trivial (live && decl.falls)
        (fun _ => ready₁.2) (ihCondition ready₁.1 false fun _ => rfl)
      have third := ihIncrement ready₂ (live && decl.falls && stmt.falls) False.elim
      have fourth := ihBody (step.ready ready₂) (live && decl.falls) False.elim
      rw [around] at second
      rw [test.visible, around] at third
      rw [step.visible, test.visible, around] at fourth
      refine (Begins.scope (first.append (second.append (third.append
        (fourth.then_same (popTopScopeDepth_functions pops)))))).congr ?_
      simp [starts, turns, condition.falls, Node.falls, (popTopScopeDepth_ordinary pops).not_owns,
        Code.falls, or_comm]
  | block body pops ihBody =>
      have inner := ihBody ⟨ready.1.enterScope, ready.2⟩ live False.elim
      exact (inner.scope.then_same (popTopScopeDepth_functions pops)).congr
        (by simp [(popTopScopeDepth_ordinary pops).not_owns])
  | returnDefault _ value =>
      exact .nothing (emitDefaultReturnValue_functions value)
        (by simp [(emitDefaultReturnValue_ordinary value).not_owns])
  | while_ condition body ihCondition ihBody =>
      have test := condition.outcome ready.1
      have ready₁ := test.ready ready
      have first := condition.begins_alive ready.1 trivial live (fun _ => ready.2)
        (ihCondition ready.1 false fun _ => rfl)
      have second := ihBody ready₁ live False.elim
      rw [test.visible] at second
      exact (first.append second).congr (by simp [condition.falls, Node.falls])
  | statement _ ih => exact ih ready live False.elim
  | baseClass klass declared methods define ihMethods =>
      have named := emitWithConstant_steady klass
      obtain ⟨names, grows, declares, linked⟩ := trackDeclared_grows declared
      have ready₁ := named.ready ready
      have inner := ihMethods (grows.ready declares (linked ready₁.1.linked) ready₁) live False.elim
      rw [trackDeclared_visible declared, named.visible] at inner
      have before := (trackDeclared_functions declared).trans (emitWithConstant_functions klass)
      refine ((inner.then_same (defineGlobalAtTop_functions define)).after_same before).congr ?_
      simp [(emitWithConstant_ordinary klass).not_owns, (emitWithConstant_ordinary klass).falls,
        (trackDeclared_ordinary declared).not_owns, (trackDeclared_ordinary declared).falls,
        (defineGlobalAtTop_ordinary define).not_owns]
  | subclass klass declared before methods after define ihMethods =>
      have named := emitWithConstant_steady klass
      obtain ⟨names, grows, declares, linked⟩ := trackDeclared_grows declared
      have ready₁ := named.ready ready
      have ready₂ := grows.ready declares (linked ready₁.1.linked) ready₁
      obtain ⟨_, _, _, -, -, -, tracks₃, settled₃⟩ :=
        beginSuperclass_tracks ready₂.1 ready₂.2 before
      have inner := ihMethods ⟨tracks₃, settled₃⟩ live False.elim
      rw [(beginSuperclass_writes before).2, trackDeclared_visible declared, named.visible] at inner
      have begun := (beginSuperclass_functions before).trans
        ((trackDeclared_functions declared).trans (emitWithConstant_functions klass))
      have ended := (defineGlobalAtTop_functions define).trans (endSuperclass_functions after)
      refine ((inner.then_same ended).after_same begun).congr ?_
      simp [(emitWithConstant_ordinary klass).not_owns, (emitWithConstant_ordinary klass).falls,
        (trackDeclared_ordinary declared).not_owns, (trackDeclared_ordinary declared).falls,
        (beginSuperclass_ordinary before).not_owns, (beginSuperclass_ordinary before).falls,
        (endSuperclass_ordinary after).not_owns, (defineGlobalAtTop_ordinary define).not_owns]
  | fun_ closure define declared ihClosure =>
      have inner := closure.begins_alive ready.1 trivial live Bool.noConfusion
        (ihClosure ready.1 false fun _ => rfl)
      refine (inner.then_same
        ((trackDeclared_functions declared).trans (defineGlobalAtTop_functions define))).congr ?_
      simp [(defineGlobalAtTop_ordinary define).not_owns, (trackDeclared_ordinary declared).not_owns]
  | @var l _ _ _ _ _ name tree _ initial _ _ tracked value define declared ihValue =>
      have inner := ihValue (trackWaiting_tracks ready.1 ready.2 tracked) false fun _ => rfl
      rw [trackDeclared_visible tracked] at inner
      have own : (∃ entry ∈ (if live then tree.begins l.visible name.lexeme else []),
          entry.Premature) ↔ Owns live initial := by
        cases live with
        | true => exact value.begins_initializer ready tracked
        | false => simp
      have first : l.Begins _ l _ := .here rfl own
      have second := (inner.after_same (trackDeclared_functions tracked)).then_same
        ((initializeDeclared_functions declared).trans (defineGlobalAtTop_functions define))
      refine (first.append second).congr ?_
      simp [(defineGlobalAtTop_ordinary define).not_owns, (initializeDeclared_ordinary declared).not_owns]
  | @declsCons _ _ _ decl _ _ _ head tail ihHead ihTail =>
      obtain ⟨_, grows, declares, linked⟩ := head.outcome ready
      have rest := ihTail (grows.ready declares linked ready) (live && decl.falls) False.elim
      rw [head.visible_decl ready] at rest
      refine ((ihHead ready live False.elim).append rest).congr ?_
      rw [owns_seq, head.falls]
      rfl
  | methodsCons closure method tail ihClosure ihTail =>
      have both := (closure.outcome ready.1).trans (emitWithConstant_steady method)
      have first := closure.begins_alive ready.1 trivial live Bool.noConfusion
        (ihClosure ready.1 false fun _ => rfl)
      have rest := ihTail (both.ready ready) live False.elim
      rw [both.visible] at rest
      refine (first.append (rest.after_same (emitWithConstant_functions method))).congr ?_
      simp [closure.falls, Node.falls, (emitWithConstant_ordinary method).not_owns,
        (emitWithConstant_ordinary method).falls]

end Lower

end Cpplox
