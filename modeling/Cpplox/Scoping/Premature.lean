import Cpplox.Scoping.Initializers
import Cpplox.Scoping.Lexical

namespace Cpplox

open Data Structured Lower

/-! A local variable in its own initializer. -/

variable {N : Type} {l final : Lower N} {code : LoweredCode} {name : Text}

/-- The latest local has this name and no value yet. -/
def Lower.Waits (l : Lower N) (name : Text) : Prop :=
  ∃ waiting rest, l.back.trackedLocals = waiting :: rest ∧ waiting.name = name ∧
    waiting.initialized = false

theorem Lower.Waits.steady (waits : l.Waits name) (steady : l.Steady final) : final.Waits name := by
  obtain ⟨waiting, rest, locals, rfl, initialized⟩ := waits
  obtain ⟨after, split, extends_⟩ := steady.grows.back
  have captures := extends_.locals
  rw [locals] at captures
  cases captures with
  | cons marked _ =>
      exact ⟨_, _, split, marked.name, marked.initialized.trans initialized⟩

/-- What is true of every occurrence in an initializer that compiles. -/
structure Initializing.Checked (entry : Initializing) : Prop where
  functions : ∃ outer,
    entry.occurrence.functions = entry.between ++ (entry.declared :: entry.before) :: outer
  direct : entry.between = [] → entry.occurrence.token.lexeme ≠ entry.declared

def Checks (entries : List Initializing) (occurrences : List Occurrence) : Prop :=
  ∀ entry ∈ entries, entry.Checked ∧ entry.occurrence ∈ occurrences

namespace Checks

variable {entries more : List Initializing} {occurrences others : List Occurrence}

theorem nil (occurrences : List Occurrence) : Checks [] occurrences :=
  fun _ member => nomatch member

theorem append (first : Checks entries occurrences) (second : Checks more others) :
    Checks (entries ++ more) (occurrences ++ others) := by
  intro entry member
  rcases List.mem_append.mp member with early | late
  · exact ⟨(first entry early).1, List.mem_append_left _ (first entry early).2⟩
  · exact ⟨(second entry late).1, List.mem_append_right _ (second entry late).2⟩

theorem then_more (first : Checks entries occurrences) (others : List Occurrence) :
    Checks entries (occurrences ++ others) :=
  fun entry member => ⟨(first entry member).1, List.mem_append_left _ (first entry member).2⟩

end Checks

namespace Lower

variable [Number N]

/-- An access to the waiting local in its own function is rejected. -/
theorem emitGetterSetter_not_waiting {localOpcode upvalueOpcode globalOpcode : Opcode}
    {token : SourceMapToken Text} (waits : l.Waits name)
    (runs : (emitGetterSetter localOpcode upvalueOpcode globalOpcode token).run l =
      some (code, final)) : token.lexeme ≠ name := by
  obtain ⟨waiting, rest, locals, rfl, initialized⟩ := waits
  rintro same
  obtain ⟨-, accesses⟩ := emitGetterSetter_some runs
  have found : findLocal l.back.trackedLocals token.lexeme = some (rest.length, waiting) := by
    rw [locals, findLocal, if_pos same.symm]
  cases accesses with
  | local_ there ready =>
      rw [found] at there
      cases there
      simp [initialized] at ready
  | upvalue missing => simp [found] at missing
  | global missing => simp [found] at missing

/-- Whether a node is code of the function that it is in. -/
def Node.IsExpr : Node → Prop
  | .expr _ _ | .args _ | .function _ _ _ _ _ _ _ => True
  | .stmt _ | .decl _ | .decls _ | .methods _ => False

/-- No occurrence that stands in the function itself is the waiting local. -/
theorem Lowers.not_waiting {node : Node} (lowers : Lowers l node code final) (ready : node.Ready l)
    (isExpr : node.IsExpr) (waits : l.Waits name) :
    ∀ occurrence ∈ node.occurrences l.visible, occurrence.functions = l.visible.functions →
      occurrence.token.lexeme ≠ name := by
  induction lowers with
  | false_ | true_ | nil | number | string | argsNil => rintro _ ⟨⟩
  | occurrence runs =>
      intro occurrence member _
      obtain rfl := List.mem_singleton.mp member
      exact emitGetterSetter_not_waiting waits runs
  | super receiver superclass _ =>
      refine List.forall_mem_cons.mpr ⟨fun _ => emitGetterSetter_not_waiting waits receiver,
        List.forall_mem_singleton.mpr fun _ => ?_⟩
      exact emitGetterSetter_not_waiting (waits.steady (emitGetterSetter_steady receiver)) superclass
  | functionExpr _ ih => exact ih ready trivial waits
  | function =>
      intro occurrence member same
      exact absurd same (Visible.functions_of_enterFunction
        (Decls.occurrences_around _ occurrence member)).2
  | getProperty _ _ ih | unary _ ih => exact ih ready trivial waits
  | call left right _ ihLeft ihRight | binary _ left right ihLeft ihRight
  | and_ left right ihLeft ihRight | or_ left right ihLeft ihRight
  | argsCons left right ihLeft ihRight =>
      have steady := left.outcome ready
      have rest := ihRight (steady.tracks ready) trivial (waits.steady steady)
      rw [steady.visible] at rest
      exact List.forall_mem_append.mpr ⟨ihLeft ready trivial waits, rest⟩
  | assign value assignment ih =>
      have steady := value.outcome ready
      refine List.forall_mem_append.mpr ⟨ih ready trivial waits,
        List.forall_mem_singleton.mpr fun _ => ?_⟩
      rcases emitAssignment_some assignment with ⟨-, sets⟩ | ⟨_, _, _, gets, -, -⟩
      · exact emitGetterSetter_not_waiting (waits.steady steady) sets
      · exact emitGetterSetter_not_waiting (waits.steady steady) gets
  | _ => exact isExpr.elim

omit [Number N] in
/-- What the initializer of a local is lowered in. -/
theorem trackDeclared_waits {token : SourceMapToken Text} (inside : 0 < l.scopeDepth)
    (runs : (trackDeclared token false).run l = some (code, final)) : final.Waits token.lexeme := by
  rcases trackDeclared_some runs with ⟨-, tracks⟩ | ⟨top, -, -⟩
  · obtain ⟨-, -, rfl⟩ := trackLocal_some tracks
    exact ⟨_, _, rfl, rfl, rfl⟩
  · omega

/-- The occurrences in the initializer of a variable. -/
theorem Lowers.checks_initializer {tree : Expr} {token : SourceMapToken Text} {tracked : LoweredCode}
    {l₁ l₂ : Lower N} (ready : l.Tracks ∧ l.Settled)
    (runs : (trackDeclared token false).run l = some (tracked, l₁))
    (value : Lowers l₁ (.expr true tree) code l₂) :
    Checks (tree.initializes l.visible token.lexeme)
      (tree.occurrences (l.visible.declare token.lexeme)) := by
  unfold Expr.initializes
  split
  case isTrue => exact .nil _
  case isFalse inside =>
    have visible := trackDeclared_visible runs
    have functions : l₁.visible.functions =
        (token.lexeme :: l.visible.inner) :: l.visible.outer := by
      rw [visible, Visible.declare, if_neg inside]
      rfl
    intro entry member
    obtain ⟨occurrence, there, rfl⟩ := List.mem_map.mp member
    obtain ⟨between, split⟩ := tree.occurrences_functions occurrence there
    rw [← visible, functions] at split
    have taken : (l.visible.initializing token.lexeme occurrence).between = between := by
      have length : occurrence.functions.length - l.visible.functions.length = between.length := by
        rw [← split]
        simp [Visible.functions]
      rw [Visible.initializing, length, ← split, List.take_left]
    refine ⟨⟨⟨l.visible.outer, by rw [taken]; exact split.symm⟩, fun direct => ?_⟩, there⟩
    rw [taken] at direct
    have tracks := trackWaiting_tracks ready.1 ready.2 runs
    rw [← visible] at there
    exact value.not_waiting tracks trivial (trackDeclared_waits (Nat.pos_of_ne_zero inside) runs)
      occurrence there (by rw [functions, ← split, direct, List.nil_append])

def Node.initializing (visible : Visible) : Node → List Initializing
  | .expr _ tree => tree.initializing visible
  | .args trees => trees.initializing visible
  | .function _ _ self params body _ _ =>
      body.initializing (visible.enterFunction (self.map (·.lexeme) ++ paramNames params))
  | .stmt tree => tree.initializing visible
  | .decl tree => tree.initializing visible
  | .decls trees => trees.initializing visible
  | .methods trees => trees.initializing visible

theorem Lowers.checks {node : Node} (lowers : Lowers l node code final) (ready : node.Ready l) :
    Checks (node.initializing l.visible) (node.occurrences l.visible) := by
  induction lowers with
  | false_ | true_ | nil | number | string | occurrence | super | argsNil | empty | returnDefault
  | declsNil | methodsNil => exact .nil _
  | functionExpr _ ih => exact ih ready
  | getProperty _ _ ih | unary _ ih => exact ih ready
  | call left right _ ihLeft ihRight | binary _ left right ihLeft ihRight
  | and_ left right ihLeft ihRight | or_ left right ihLeft ihRight
  | argsCons left right ihLeft ihRight =>
      have steady := left.outcome ready
      have rest := ihRight (steady.tracks ready)
      rw [steady.visible] at rest
      exact (ihLeft ready).append rest
  | assign _ _ ih => exact (ih ready).then_more _
  | function tracks _ _ _ _ ih =>
      have inner := ih (enterFunction_tracks ready.linked _ tracks)
      rw [enterFunction_visible tracks] at inner
      simpa [Node.initializing, Node.occurrences, Node.decls, paramNames, sourceMapToken,
        Function.comp_def] using inner
  | expression _ ih | print _ ih | return_ _ _ _ ih => exact ih ready.1
  | if_ condition thenBranch elseBranch ihCondition ihThen ihElse =>
      have test := condition.outcome ready.1
      have ready₁ := test.ready ready
      have yes := thenBranch.outcome ready₁
      have first := ihThen ready₁
      have second := ihElse (yes.ready ready₁)
      rw [test.visible] at first
      rw [yes.visible, test.visible] at second
      exact (ihCondition ready.1).append (first.append second)
  | for_ initializer condition increment body _ ihInitializer ihCondition ihIncrement ihBody =>
      have entered := ready.1.enterScope
      obtain ⟨declared, grows, declares, linked⟩ := initializer.outcome ⟨entered, ready.2⟩
      have ready₁ := grows.ready declares linked ⟨entered, ready.2⟩
      have test := condition.outcome ready₁.1
      have ready₂ := test.ready ready₁
      have step := increment.outcome ready₂
      have around := initializer.visible_decl ⟨entered, ready.2⟩
      have second := ihCondition ready₁.1
      have third := ihIncrement ready₂
      have fourth := ihBody (step.ready ready₂)
      rw [around] at second
      rw [test.visible, around] at third
      rw [step.visible, test.visible, around] at fourth
      exact (ihInitializer ⟨entered, ready.2⟩).append (second.append (third.append fourth))
  | block _ _ ih => exact ih ⟨ready.1.enterScope, ready.2⟩
  | while_ condition _ ihCondition ihBody =>
      have test := condition.outcome ready.1
      have rest := ihBody (test.ready ready)
      rw [test.visible] at rest
      exact (ihCondition ready.1).append rest
  | statement _ ih => exact ih ready
  | baseClass klass declared _ _ ih =>
      have named := emitWithConstant_steady klass
      obtain ⟨names, grows, declares, linked⟩ := trackDeclared_grows declared
      have ready₁ := named.ready ready
      have inner := ih (grows.ready declares (linked ready₁.1.linked) ready₁)
      rw [trackDeclared_visible declared, named.visible] at inner
      exact inner
  | subclass klass declared before _ _ _ ih =>
      have named := emitWithConstant_steady klass
      obtain ⟨names, grows, declares, linked⟩ := trackDeclared_grows declared
      have ready₁ := named.ready ready
      have ready₂ := grows.ready declares (linked ready₁.1.linked) ready₁
      obtain ⟨_, _, _, -, -, -, tracks₃, settled₃⟩ :=
        beginSuperclass_tracks ready₂.1 ready₂.2 before
      have inner := ih ⟨tracks₃, settled₃⟩
      rw [(beginSuperclass_writes before).2, trackDeclared_visible declared, named.visible] at inner
      exact fun entry member => ⟨(inner entry member).1, List.mem_cons_of_mem _ (inner entry member).2⟩
  | fun_ _ _ _ ih => exact ih ready.1
  | var tracked value _ _ ih =>
      have inner := ih (trackWaiting_tracks ready.1 ready.2 tracked)
      rw [trackDeclared_visible tracked] at inner
      intro entry member
      rcases List.mem_append.mp member with here | deeper
      · exact value.checks_initializer ready tracked entry here
      · exact inner entry deeper
  | declsCons head _ ihHead ihTail =>
      obtain ⟨first, grows, declares, linked⟩ := head.outcome ready
      have rest := ihTail (grows.ready declares linked ready)
      rw [head.visible_decl ready] at rest
      exact (ihHead ready).append rest
  | methodsCons closure method _ ihClosure ihTail =>
      have both := (closure.outcome ready.1).trans (emitWithConstant_steady method)
      have rest := ihTail (both.ready ready)
      rw [both.visible] at rest
      exact (ihClosure ready.1).append rest

end Lower

/-- An own initializer is reached exactly from a premature use. -/
theorem Initializing.Checked.found {entry : Initializing} (checked : entry.Checked) :
    entry.occurrence.found = some entry.place ↔ entry.Premature := by
  obtain ⟨outer, split⟩ := checked.functions
  have finds (scope : List Text) (name : Text) : earliest scope name = none ↔ name ∉ scope :=
    earliest_none.trans times_eq_zero
  rw [Occurrence.found, split, place, Premature]
  cases between : entry.between with
  | nil =>
      have different := checked.direct between
      simp only [List.nil_append, ne_eq, not_true_eq_false, false_and, iff_false]
      rw [latest, if_neg different.symm]
      cases late : latest entry.before entry.occurrence.token.lexeme with
      | some index =>
          have := latest_lt late
          simp only [Option.some.injEq, Prod.mk.injEq]
          omega
      | none => cases nearest earliest outer entry.occurrence.token.lexeme <;> simp [deeper]
  | cons inner more =>
      simp only [List.cons_append, List.length_cons, ne_eq, reduceCtorEq, not_false_iff, true_and,
        List.forall_mem_cons]
      cases late : latest inner entry.occurrence.token.lexeme with
      | some index =>
          have present : entry.occurrence.token.lexeme ∈ inner := by
            by_contra absent
            rw [latest_none.mpr (times_eq_zero.mpr absent)] at late
            cases late
          simp only [Option.some.injEq, Prod.mk.injEq, reduceCtorEq, false_and, false_iff]
          rintro ⟨same, ⟨absent, -⟩, -⟩
          exact absent (same ▸ present)
      | none =>
          have absent := times_eq_zero.mp (latest_none.mp late)
          have step : (nearest earliest (more ++ (entry.declared :: entry.before) :: outer)
                entry.occurrence.token.lexeme).map deeper =
              some (more.length + 1, entry.before.length) ↔
              nearest earliest (more ++ (entry.declared :: entry.before) :: outer)
                entry.occurrence.token.lexeme = some (more.length, entry.before.length) := by
            have place : some (more.length + 1, entry.before.length) =
                (some (more.length, entry.before.length)).map deeper := rfl
            rw [place]
            exact (Option.map_injective deeper_injective).eq_iff
          simp only
          rw [step, nearest_eq_place (finds · _), earliest_head]
          constructor
          · rintro ⟨others, same, before⟩
            rw [same] at *
            exact ⟨rfl, ⟨absent, others⟩, before⟩
          · rintro ⟨same, ⟨-, others⟩, before⟩
            rw [same] at *
            exact ⟨others, rfl, before⟩

/-- Which variable an instruction refers to. -/
theorem Emission.referent_variable {constants : List (Constant N)} {emission : Emission}
    {place : Nat × Nat} :
    emission.referent constants = some (.variable_ place) ↔ emission.place? = some place := by
  cases is : emission.instr with
  | operand opcode index =>
      cases opcode with
      | getGlobal | setGlobal =>
          simp only [referent, place?, is, reduceCtorEq, iff_false]
          split <;> simp
      | _ => simp [referent, place?, is]
  | _ => simp [referent, place?, is]

/-- No occurrence in the initializer of a local variable is compiled to an instruction
that refers to it. -/
def InitializedFirst (decls : Decls) (functions : List (LoweredFunction N)) : Prop :=
  ∀ entry ∈ decls.initializing {}, ∀ function ∈ functions, ∀ emission ∈ function.code.plains,
    emission.IsAt entry.occurrence →
      emission.referent function.constants ≠ some (.variable_ entry.place)

instance (decls : Decls) (functions : List (LoweredFunction N)) :
    Decidable (InitializedFirst decls functions) :=
  inferInstanceAs (Decidable (∀ entry ∈ _, ∀ function ∈ _, ∀ emission ∈ _, _ → _))

variable [Number N]

/-- Every occurrence in an initializer has its instruction, and none refers to the local
being declared unless the use is premature. -/
theorem compile_initializedFirst {fuel : Nat} {source : Text}
    {functions : List (Function (Constant N) Text)}
    (accepted : compile fuel source = .ok functions) :
    ∃ (decls : Decls) (lowered : List (LoweredFunction N)),
      lowering fuel source = some (decls, lowered) ∧
      functions = lowered.map LoweredFunction.assemble ∧
      (∀ entry ∈ decls.initializing {}, ∃ function ∈ lowered,
        ∃ emission ∈ function.code.plains, emission.IsAt entry.occurrence) ∧
      (InitializedFirst decls lowered ↔ ∀ entry ∈ decls.initializing {}, ¬ entry.Premature) := by
  obtain ⟨decls, code, l, lowering, lowers, assembles⟩ := compile_lowering accepted
  obtain ⟨made, functions, covers, resolves⟩ := lowers.writes ready_program
  have checks : Checks (decls.initializing {}) (decls.occurrences {}) := lowers.checks ready_program
  have occurs : ∀ entry ∈ decls.initializing {}, ∃ function ∈ l.functions ++ [l.script code],
      ∃ emission ∈ function.code.plains, emission.Resolves entry.occurrence := by
    intro entry member
    obtain ⟨emission, written, found⟩ := covers _ (checks entry member).2
    obtain ⟨function, inside, there⟩ := written.inside functions
    exact ⟨function, inside, emission, there, found⟩
  refine ⟨decls, _, lowering, assembles.made, ?_, ?_, ?_⟩
  · intro entry member
    obtain ⟨function, inside, emission, there, found⟩ := occurs entry member
    exact ⟨function, inside, emission, there, found.isAt⟩
  · intro first entry member premature
    obtain ⟨function, inside, emission, there, found⟩ := occurs entry member
    refine first entry member function inside emission there found.isAt ?_
    rw [Emission.referent_variable, found.found]
    exact (checks entry member).1.found.mpr premature
  · intro free entry member function inside emission there isAt refers
    have written : Written code.plains made emission := .of_inside functions inside there
    obtain ⟨other, -, found⟩ := resolves emission written (by rw [isAt.1]; simp)
    obtain rfl := found.isAt.unique isAt
    rw [Emission.referent_variable, found.found] at refers
    exact free entry member ((checks entry member).1.found.mp refers)

/-- A parameter of the function expression has the variable's name. -/
theorem compile_initializedFirst_parameter :
    ∃ (functions : List (Function (Constant Int) Text)) (decls : Decls)
      (lowered : List (LoweredFunction Int)),
      compile 40 "{ var a = fun (a) { return a; }; }".toList = .ok functions ∧
      lowering 40 "{ var a = fun (a) { return a; }; }".toList = some (decls, lowered) ∧
      functions = lowered.map LoweredFunction.assemble ∧
      (∀ entry ∈ decls.initializing {}, ∃ function ∈ lowered,
        ∃ emission ∈ function.code.plains, emission.IsAt entry.occurrence) ∧
      (InitializedFirst decls lowered ↔ ∀ entry ∈ decls.initializing {}, ¬ entry.Premature) := by
  have succeeds : (compile 40 "{ var a = fun (a) { return a; }; }".toList :
      Except Error (List (Function (Constant Int) Text))).isOk = true := by decide +kernel
  obtain ⟨functions, accepted⟩ := exists_ok succeeds
  obtain ⟨decls, lowered, rest⟩ := compile_initializedFirst accepted
  exact ⟨functions, decls, lowered, accepted, rest⟩

/-- Here the closure captures the slot of `a` while the closure itself is being made. -/
def ownInitializerSource : Text := "{ var a = fun () { return a; }; }".toList

theorem compile_not_initializedFirst :
    ∃ (functions : List (Function (Constant Int) Text)) (decls : Decls)
      (lowered : List (LoweredFunction Int)), compile 40 ownInitializerSource = .ok functions ∧
      lowering 40 ownInitializerSource = some (decls, lowered) ∧
      ¬ InitializedFirst decls lowered := by
  have succeeds : (compile 40 ownInitializerSource :
      Except Error (List (Function (Constant Int) Text))).isOk = true := by decide +kernel
  have fails : (lowering 40 ownInitializerSource : Option (Decls × List (LoweredFunction Int))).any
      (fun (decls, lowered) => !decide (InitializedFirst decls lowered)) = true := by
    decide +kernel
  obtain ⟨functions, accepted⟩ := exists_ok succeeds
  obtain ⟨⟨decls, lowered⟩, lowers, wrong⟩ := (Option.any_eq_true _ _).mp fails
  exact ⟨functions, decls, lowered, accepted, lowers, by simpa using wrong⟩

end Cpplox
