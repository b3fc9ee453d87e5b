import Cpplox.Contexts.Lowers
import Cpplox.Scoping.Resolution

namespace Cpplox

open Data Structured Lower

variable {N : Type} {l l₁ l₂ final : Lower N} {code : LoweredCode} {token : SourceMapToken Text}

/-! Lowering emits one instruction at every occurrence. -/

/-- Whether an emission was written: here or in a function made since. -/
def Written (emissions : List Emission) (made : List (LoweredFunction N)) (emission : Emission) :
    Prop :=
  emission ∈ emissions ∨ ∃ function ∈ made, emission ∈ function.code.plains

/-- What was written for a program is in its functions, the root script last. -/
theorem Written.inside {code : LoweredCode} {made : List (LoweredFunction N)} {emission : Emission}
    (functions : l.functions = [] ++ made) (written : Written code.plains made emission) :
    ∃ function ∈ l.functions ++ [l.script code], emission ∈ function.code.plains := by
  rcases written with here | ⟨function, inside, there⟩
  · exact ⟨l.script code, by simp, here⟩
  · exact ⟨function, by simp [functions, inside], there⟩

theorem Written.of_inside {code : LoweredCode} {made : List (LoweredFunction N)}
    {emission : Emission} {function : LoweredFunction N} (functions : l.functions = [] ++ made)
    (inside : function ∈ l.functions ++ [l.script code]) (there : emission ∈ function.code.plains) :
    Written code.plains made emission := by
  rcases List.mem_append.mp inside with inner | root
  · exact .inr ⟨function, by simpa [functions] using inner, there⟩
  · rw [List.mem_singleton.mp root] at there
    exact .inl there

/-- Between two states of lowering the emissions at identifiers are those of some
occurrences. -/
def Lower.Writes (l : Lower N) (emissions : List Emission) (final : Lower N)
    (occurrences : List Occurrence) : Prop :=
  ∃ made, final.functions = l.functions ++ made ∧
    (∀ occurrence ∈ occurrences, ∃ emission, Written emissions made emission ∧
      emission.Resolves occurrence) ∧
    ∀ emission, Written emissions made emission → emission.occurrence ≠ none →
      ∃ occurrence ∈ occurrences, emission.Resolves occurrence

def Silent (emissions : List Emission) : Prop := ∀ emission ∈ emissions, emission.occurrence = none

namespace Lower.Writes

variable {emissions others : List Emission} {occurrences more : List Occurrence}

theorem silent (silent : Silent emissions) (same : final.functions = l.functions) :
    l.Writes emissions final [] := by
  refine ⟨[], by simp [same], by simp, ?_⟩
  rintro emission (here | ⟨_, inside, -⟩) occurs
  · exact absurd (silent emission here) occurs
  · cases inside

theorem append (first : l.Writes emissions l₁ occurrences) (second : l₁.Writes others final more) :
    l.Writes (emissions ++ others) final (occurrences ++ more) := by
  obtain ⟨made, functions, covers, resolves⟩ := first
  obtain ⟨laterMade, laterFunctions, laterCovers, laterResolves⟩ := second
  refine ⟨made ++ laterMade, by simp [functions, laterFunctions], fun occurrence member => ?_,
    fun emission written occurs => ?_⟩
  · rcases List.mem_append.mp member with early | late
    · obtain ⟨emission, here | ⟨function, inside, there⟩, found⟩ := covers occurrence early
      · exact ⟨emission, .inl (List.mem_append_left _ here), found⟩
      · exact ⟨emission, .inr ⟨function, List.mem_append_left _ inside, there⟩, found⟩
    · obtain ⟨emission, here | ⟨function, inside, there⟩, found⟩ := laterCovers occurrence late
      · exact ⟨emission, .inl (List.mem_append_right _ here), found⟩
      · exact ⟨emission, .inr ⟨function, List.mem_append_right _ inside, there⟩, found⟩
  · have either : Written emissions made emission ∨ Written others laterMade emission := by
      rcases written with here | ⟨function, inside, there⟩
      · exact (List.mem_append.mp here).imp .inl .inl
      · exact (List.mem_append.mp inside).imp (fun early => .inr ⟨function, early, there⟩)
          fun late => .inr ⟨function, late, there⟩
    rcases either with early | late
    · obtain ⟨occurrence, member, found⟩ := resolves emission early occurs
      exact ⟨occurrence, List.mem_append_left _ member, found⟩
    · obtain ⟨occurrence, member, found⟩ := laterResolves emission late occurs
      exact ⟨occurrence, List.mem_append_right _ member, found⟩

/-- Emissions without an identifier do not matter. -/
theorem then_silent (first : l.Writes emissions l₁ occurrences) (quiet : Silent others)
    (same : final.functions = l₁.functions) : l.Writes (emissions ++ others) final occurrences := by
  have both := first.append (silent quiet same)
  rwa [List.append_nil] at both

theorem after_silent (quiet : Silent emissions) (same : l₁.functions = l.functions)
    (second : l₁.Writes others final more) : l.Writes (emissions ++ others) final more :=
  (silent quiet same).append second

theorem occurrence {emission : Emission} {occurrence : Occurrence}
    (resolves : emission.Resolves occurrence) (same : final.functions = l.functions) :
    l.Writes [emission] final [occurrence] := by
  refine ⟨[], by simp [same], ?_, ?_⟩
  · intro other member
    obtain rfl := List.mem_singleton.mp member
    exact ⟨emission, .inl List.mem_cons_self, resolves⟩
  · rintro other (here | ⟨_, inside, -⟩) -
    · obtain rfl := List.mem_singleton.mp here
      exact ⟨_, List.mem_cons_self, resolves⟩
    · cases inside

/-- The emissions of a function, once it is made. -/
theorem function {function : LoweredFunction N}
    (made : final.functions = l₁.functions ++ [function])
    (body : l.Writes function.code.plains l₁ occurrences) (quiet : Silent others) :
    l.Writes others final occurrences := by
  obtain ⟨earlier, functions, covers, resolves⟩ := body
  refine ⟨earlier ++ [function], by simp [made, functions], fun occurrence member => ?_,
    fun emission written occurs => ?_⟩
  · obtain ⟨emission, here | ⟨other, inside, there⟩, found⟩ := covers occurrence member
    · exact ⟨emission, .inr ⟨function, by simp, here⟩, found⟩
    · exact ⟨emission, .inr ⟨other, List.mem_append_left _ inside, there⟩, found⟩
  · rcases written with here | ⟨other, inside, there⟩
    · exact absurd (quiet emission here) occurs
    · rcases List.mem_append.mp inside with early | last
      · exact resolves emission (.inr ⟨other, early, there⟩) occurs
      · rw [List.mem_singleton.mp last] at there
        exact resolves emission (.inl there) occurs

end Lower.Writes

theorem Silent.append {emissions others : List Emission} (first : Silent emissions)
    (second : Silent others) : Silent (emissions ++ others) := fun emission member =>
  (List.mem_append.mp member).elim (first emission) (second emission)

theorem silent_nil : Silent [] := fun _ member => nomatch member

theorem silent_single {emission : Emission} (none : emission.occurrence = none) :
    Silent [emission] := fun _ member => List.mem_singleton.mp member ▸ none

namespace Lower

theorem silent_simple (l : Lower N) (opcode : Opcode) (token : SourceMapToken Text) :
    Silent (l.simple opcode token).plains := silent_single rfl

theorem silent_simples (l : Lower N) (token : SourceMapToken Text) (opcodes : List Opcode) :
    Silent (l.simples token opcodes).plains := by
  induction opcodes with
  | nil => exact silent_nil
  | cons opcode rest ih => exact (silent_simple l opcode token).append ih

theorem silent_declared (tracked : TrackedLocal) : Silent (declared tracked).plains := by
  unfold declared
  split <;> exact silent_nil

theorem silent_pops (l : Lower N) (depth : Nat) (token : SourceMapToken Text)
    (locals : List TrackedLocal) : Silent (l.pops depth token locals).plains := by
  induction locals with
  | nil => exact silent_nil
  | cons tracked rest ih =>
      unfold pops
      split
      · exact (silent_simple _ _ _).append ih
      · exact silent_nil

theorem popTopScopeDepth_silent (runs : (popTopScopeDepth token).run l = some (code, final)) :
    Silent code.plains := by
  obtain ⟨rfl, -⟩ := popTopScopeDepth_some runs
  exact silent_pops _ _ _ _

theorem emitIndex_silent {opcode : Opcode} {index : Nat}
    (runs : (emitIndex opcode index token).run l = some (code, final)) : Silent code.plains := by
  obtain ⟨rfl, -⟩ := emitIndex_some runs
  exact silent_single rfl

theorem emitDefaultReturnValue_silent
    (runs : (emitDefaultReturnValue token).run l = some (code, final)) : Silent code.plains := by
  obtain ⟨-, ⟨-, rfl⟩ | ⟨-, rfl⟩⟩ := emitDefaultReturnValue_some runs <;> exact silent_single rfl

theorem trackDeclared_silent {initialized : Bool}
    (runs : (trackDeclared token initialized).run l = some (code, final)) : Silent code.plains := by
  rcases trackDeclared_some runs with ⟨-, tracks⟩ | ⟨-, rfl, -⟩
  · obtain ⟨-, rfl, -⟩ := trackLocal_some tracks
    exact silent_declared _
  · exact silent_nil

theorem initializeDeclared_silent (runs : initializeDeclared.run l = some (code, final)) :
    Silent code.plains := by
  rcases initializeDeclared_some runs with ⟨-, _, _, -, rfl, -⟩ | ⟨-, rfl, -⟩ <;> exact silent_nil

theorem endSuperclass_silent {superclass : Token}
    (runs : (endSuperclass superclass).run l = some (code, final)) : Silent code.plains := by
  obtain ⟨_, _, _, scope, placeholder, rfl⟩ := endSuperclass_some runs
  rcases popPlaceholder_some placeholder with ⟨-, rfl, -⟩ | ⟨-, rfl, -⟩ <;>
    exact (silent_simple _ _ _).append ((popTopScopeDepth_silent scope).append silent_nil)

theorem trackDeclared_visible {initialized : Bool}
    (runs : (trackDeclared token initialized).run l = some (code, final)) :
    final.visible = l.visible.declare token.lexeme := by
  rcases trackDeclared_some runs with ⟨inside, tracks⟩ | ⟨top, -, rfl⟩
  · obtain ⟨-, -, rfl⟩ := trackLocal_some tracks
    have depth : l.visible.depth ≠ 0 := Nat.ne_of_gt inside
    rw [Visible.declare, if_neg depth]
    rfl
  · exact (if_pos top).symm

theorem initializeDeclared_visible (runs : initializeDeclared.run l = some (code, final)) :
    final.visible = l.visible := by
  rcases initializeDeclared_some runs with ⟨-, tracked, rest, found, -, rfl⟩ | ⟨-, -, rfl⟩
  · simp [visible, withLocals, found, namesOf]
  · rfl

theorem enterFunction_visible {isClassInitMethod : Bool} {tokens : List (SourceMapToken Text)}
    {done : Unit}
    (runs : (trackAll tokens).run (l.enterFunction isClassInitMethod) = some (done, final)) :
    final.visible = l.visible.enterFunction (tokens.map (·.lexeme)) := by
  rw [trackAll_some runs]
  simp only [visible, Visible.enterFunction, Visible.functions, withLocals, enterFunction,
    List.append_nil, Visible.mk.injEq]
  refine ⟨?_, rfl, trivial⟩
  simp [namesOf, newLocals, newLocal, Function.comp_def]

theorem pushPlaceholder_visible (runs : pushPlaceholder.run l = some (code, final)) :
    final.enterScope.visible = l.visible.enterSuperclass := by
  rcases pushPlaceholder_some runs with ⟨top, -, rfl⟩ | ⟨inside, -, rfl⟩
  · have depth : l.visible.depth = 0 := top
    simp only [Visible.enterSuperclass, if_pos depth]
    rfl
  · have depth : final.visible.depth ≠ 0 := Nat.ne_of_gt inside
    simp only [Visible.enterSuperclass, if_neg depth]
    rfl

variable [Number N]

theorem emitWithConstant_silent {opcode : Opcode} {value : Constant N}
    (runs : (emitWithConstant opcode value token).run l = some (code, final)) :
    Silent code.plains := by
  obtain ⟨rfl, -⟩ := emitWithConstant_some runs
  exact silent_single rfl

theorem FollowsPath.silent {names : List Token} (follows : FollowsPath l names code final) :
    Silent code.plains := by
  induction follows with
  | last runs => exact emitWithConstant_silent runs
  | step runs _ ih => exact (emitWithConstant_silent runs).append ih

theorem withFunction_functions (l : Lower N) (function : LoweredFunction N) :
    (l.withFunction function).functions = l.functions ++ [function] := rfl

theorem emitFunction_silent {function : LoweredFunction N} {leading : Bool}
    (runs : (emitFunction function token leading).run l = some (code, final)) :
    Silent code.plains := by
  obtain ⟨-, rfl⟩ := emitFunction_some runs
  exact silent_single rfl

theorem defineGlobalAtTop_silent {name : Text}
    (runs : (defineGlobalAtTop name token).run l = some (code, final)) : Silent code.plains := by
  rcases defineGlobalAtTop_some runs with ⟨-, emits⟩ | ⟨-, rfl, -⟩
  · exact emitWithConstant_silent emits
  · exact silent_nil

theorem emitGetter_writes (runs : (emitGetter token).run l = some (code, final)) :
    l.Writes code.plains final [l.visible.occurrence token] := by
  obtain ⟨emission, rfl, resolves⟩ :=
    emitGetterSetter_resolves (.inl rfl) (.inl rfl) (.inl rfl) runs
  exact .occurrence resolves (emitGetterSetter_functions runs)

theorem emitAssignment_writes {target : Token} {names : List Token}
    (runs : (emitAssignment target names).run l = some (code, final)) :
    l.Writes code.plains final [l.visible.occurrence (sourceMapToken target)] := by
  rcases emitAssignment_some runs with ⟨-, sets⟩ | ⟨object, path, l₁, gets, follows, rfl⟩
  · obtain ⟨emission, rfl, resolves⟩ :=
      emitGetterSetter_resolves (.inr rfl) (.inr rfl) (.inr rfl) sets
    exact .occurrence resolves (emitGetterSetter_functions sets)
  · exact (emitGetter_writes gets).then_silent follows.silent follows.functions

theorem beginSuperclass_writes {name superclass : Token}
    (runs : (beginSuperclass name superclass).run l = some (code, final)) :
    l.Writes code.plains final
        [l.visible.enterSuperclass.occurrence (sourceMapToken superclass)] ∧
      final.visible = l.visible.enterSuperclass.declare superName := by
  obtain ⟨placeholder, parent, declared, l₁, l₂, pushes, gets, names, rfl⟩ :=
    beginSuperclass_some runs
  have around := pushPlaceholder_visible pushes
  have reads := emitGetterSetter_steady gets
  have writes := emitGetter_writes gets
  obtain ⟨-, rfl, rfl⟩ := trackLocal_some names
  let super := l₂.newLocal (superTokenAt superclass.line) true
  let after := l₂.withLocals (super :: l₂.back.trackedLocals)
  rw [around] at writes
  have quiet : Silent placeholder.plains := by
    rcases pushPlaceholder_some pushes with ⟨-, rfl, -⟩ | ⟨-, rfl, -⟩ <;> exact silent_nil
  have inherits : Silent ((Lower.declared super).plains ++
      (after.simple .inherit (sourceMapToken superclass)).plains) :=
    (silent_declared _).append (silent_simple _ _ _)
  have functions : after.functions = l₂.functions := rfl
  refine ⟨.after_silent quiet (pushPlaceholder_functions pushes)
    (writes.then_silent inherits functions), ?_⟩
  have depth : l.visible.enterSuperclass.depth ≠ 0 := Nat.succ_ne_zero _
  rw [Visible.declare, if_neg depth, ← around, ← reads.visible]
  rfl

/-- What a node of the tree is about. -/
def Node.occurrences (visible : Visible) : Node → List Occurrence
  | .expr _ tree => tree.occurrences visible
  | .args trees => trees.occurrences visible
  | .function _ _ self params body _ _ =>
      body.occurrences (visible.enterFunction (self.map (·.lexeme) ++ paramNames params))
  | .stmt tree => tree.occurrences visible
  | .decl tree => tree.occurrences visible
  | .decls trees => trees.occurrences visible
  | .methods trees => trees.occurrences visible

/-- What is visible after a declaration. -/
theorem Lowers.visible_decl {tree : Decl} (lowers : Lowers l (.decl tree) code final)
    (ready : l.Tracks ∧ l.Settled) : final.visible = tree.declares l.visible := by
  cases lowers with
  | statement body => exact (body.outcome ready).visible
  | baseClass klass declared methods define =>
      have named := emitWithConstant_steady klass
      obtain ⟨names, grows, declares, linked⟩ := trackDeclared_grows declared
      have ready₁ := named.ready ready
      have body := methods.outcome (grows.ready declares (linked ready₁.1.linked) ready₁)
      rw [(defineGlobalAtTop_steady define).visible, body.visible, trackDeclared_visible declared,
        named.visible]
      rfl
  | subclass klass declared before methods after define =>
      have named := emitWithConstant_steady klass
      obtain ⟨names, grows, declares, linked⟩ := trackDeclared_grows declared
      have ready₁ := named.ready ready
      have ready₂ := grows.ready declares (linked ready₁.1.linked) ready₁
      obtain ⟨_, _, supers, pushes, begins, declaresSuper, tracks₃, settled₃⟩ :=
        beginSuperclass_tracks ready₂.1 ready₂.2 before
      have body := methods.outcome ⟨tracks₃, settled₃⟩
      obtain ⟨later, all, captures⟩ := begins.then_steady body.grows
      have scope := endSuperclass_steady (pushPlaceholder_tracks ready₂.1 ready₂.2 pushes).1 pushes
        all (declaresSuper.captures captures) (body.linked tracks₃.linked) after
      rw [(defineGlobalAtTop_steady define).visible, scope.visible, trackDeclared_visible declared,
        named.visible]
      rfl
  | fun_ closure define declared =>
      have made := closure.outcome ready.1
      rw [trackDeclared_visible declared, (defineGlobalAtTop_steady define).visible, made.visible]
      rfl
  | var tracked value define declared =>
      have steady := value.outcome (trackWaiting_tracks ready.1 ready.2 tracked)
      rw [initializeDeclared_visible declared, (defineGlobalAtTop_steady define).visible,
        steady.visible, trackDeclared_visible tracked]
      rfl

end Lower

/-- Lowering a tree emits one instruction at each of its occurrences. -/
theorem Lower.Lowers.writes [Number N] {node : Node} (lowers : Lowers l node code final) (ready : node.Ready l) :
    l.Writes code.plains final (node.occurrences l.visible) := by
  induction lowers with
  | false_ | true_ | nil => exact .silent (silent_simple _ _ _) rfl
  | argsNil | empty | declsNil | methodsNil => exact .silent silent_nil rfl
  | number runs | string runs =>
      exact .silent (emitWithConstant_silent runs) (emitWithConstant_functions runs)
  | occurrence runs => exact emitGetter_writes runs
  | super receiver superclass method =>
      have second := emitGetter_writes superclass
      rw [(emitGetterSetter_steady receiver).visible] at second
      exact (emitGetter_writes receiver).append
        (second.then_silent (emitWithConstant_silent method) (emitWithConstant_functions method))
  | functionExpr _ ih => exact ih ready
  | call callee args call ihCallee ihArgs =>
      have steady := callee.outcome ready
      have rest := ihArgs (steady.tracks ready)
      rw [steady.visible] at rest
      obtain ⟨-, rfl⟩ := emitIndex_some call
      exact (ihCallee ready).append (rest.then_silent (emitIndex_silent call) rfl)
  | getProperty _ property ihObject =>
      exact (ihObject ready).then_silent (emitWithConstant_silent property)
        (emitWithConstant_functions property)
  | unary _ ihOperand => exact (ihOperand ready).then_silent (silent_simple _ _ _) rfl
  | binary _ left right ihLeft ihRight =>
      have steady := left.outcome ready
      have rest := ihRight (steady.tracks ready)
      rw [steady.visible] at rest
      exact (ihLeft ready).append (rest.then_silent (silent_simples _ _ _) rfl)
  | and_ left right ihLeft ihRight | or_ left right ihLeft ihRight =>
      have steady := left.outcome ready
      have rest := ihRight (steady.tracks ready)
      rw [steady.visible] at rest
      exact (ihLeft ready).append (.after_silent (silent_simple _ _ _) rfl rest)
  | assign value assignment ihValue =>
      have rest := emitAssignment_writes assignment
      rw [(value.outcome ready).visible] at rest
      exact (ihValue ready).append rest
  | argsCons head tail ihHead ihTail =>
      have steady := head.outcome ready
      have rest := ihTail (steady.tracks ready)
      rw [steady.visible] at rest
      exact (ihHead ready).append rest
  | @function l l₁ l₂ l₃ l₄ l₅ _ _ _ _ _ token _ _ _ _ _ tracks body returns leaves closure ihBody =>
      have ready₁ := enterFunction_tracks ready.linked _ tracks
      have inner := ihBody ready₁
      rw [enterFunction_visible tracks] at inner
      have entered : l₁.functions = l.functions := by
        rw [trackAll_some tracks]
        rfl
      have returned : l₃.functions = l₂.functions := emitDefaultReturnValue_functions returns
      have left : l₄.functions = l₂.functions := by
        obtain ⟨-, outer, rest, -, rfl⟩ := leaveFunction_some leaves
        exact returned
      have ends : Silent _ :=
        (emitDefaultReturnValue_silent returns).append (silent_simple l₃ .return_ token)
      have all := Writes.after_silent silent_nil entered (inner.then_silent ends left)
      have names : ∀ self : List (SourceMapToken Text), ∀ params : List Token,
          (self ++ params.map sourceMapToken).map (·.lexeme) =
            self.map (·.lexeme) ++ paramNames params := fun self params => by
        simp [paramNames, sourceMapToken, Function.comp_def]
      rw [names] at all
      have quiet := emitFunction_silent closure
      obtain ⟨rfl, -⟩ := emitFunction_some closure
      exact .function (withFunction_functions l₄ _) all quiet
  | expression _ ihValue | print _ ihValue =>
      exact (ihValue ready.1).then_silent (silent_simple _ _ _) rfl
  | if_ condition thenBranch elseBranch ihCondition ihThen ihElse =>
      have test := condition.outcome ready.1
      have ready₁ := test.ready ready
      have yes := thenBranch.outcome ready₁
      have first := ihThen ready₁
      have second := ihElse (yes.ready ready₁)
      rw [test.visible] at first
      rw [yes.visible, test.visible] at second
      exact (ihCondition ready.1).append
        ((Writes.after_silent (silent_simple _ _ _) rfl first).append
          (.after_silent (silent_simple _ _ _) rfl second))
  | for_ initializer condition increment body pops ihInitializer ihCondition ihIncrement ihBody =>
      have entered := ready.1.enterScope
      obtain ⟨declared, grows, declares, linked⟩ := initializer.outcome ⟨entered, ready.2⟩
      have ready₁ := grows.ready declares linked ⟨entered, ready.2⟩
      have test := condition.outcome ready₁.1
      have ready₂ := test.ready ready₁
      have step := increment.outcome ready₂
      have around := initializer.visible_decl ⟨entered, ready.2⟩
      have first := ihInitializer ⟨entered, ready.2⟩
      have second := ihCondition ready₁.1
      have third := ihIncrement ready₂
      have fourth := ihBody (step.ready ready₂)
      rw [around] at second
      rw [test.visible, around] at third
      rw [step.visible, test.visible, around] at fourth
      exact first.append ((second.append
          (third.append (.after_silent (silent_simple _ _ _) rfl fourth))).then_silent
        ((silent_simple _ _ _).append (popTopScopeDepth_silent pops))
        (popTopScopeDepth_functions pops))
  | block body pops ihBody =>
      exact (ihBody ⟨ready.1.enterScope, ready.2⟩).then_silent (popTopScopeDepth_silent pops)
        (popTopScopeDepth_functions pops)
  | returnDefault _ value =>
      exact .silent ((emitDefaultReturnValue_silent value).append (silent_simple _ _ _))
        (emitDefaultReturnValue_functions value)
  | return_ _ _ _ ihValue => exact (ihValue ready.1).then_silent (silent_simple _ _ _) rfl
  | while_ condition body ihCondition ihBody =>
      have test := condition.outcome ready.1
      have rest := ihBody (test.ready ready)
      rw [test.visible] at rest
      exact ((ihCondition ready.1).append
        (.after_silent (silent_simple _ _ _) rfl rest)).then_silent (silent_simple _ _ _) rfl
  | statement _ ihBody => exact ihBody ready
  | baseClass klass declared methods define ihMethods =>
      have named := emitWithConstant_steady klass
      obtain ⟨names, grows, declares, linked⟩ := trackDeclared_grows declared
      have ready₁ := named.ready ready
      have inner := ihMethods (grows.ready declares (linked ready₁.1.linked) ready₁)
      rw [trackDeclared_visible declared, named.visible] at inner
      exact .after_silent (emitWithConstant_silent klass) (emitWithConstant_functions klass)
        (.after_silent (trackDeclared_silent declared) (trackDeclared_functions declared)
          (inner.then_silent (defineGlobalAtTop_silent define) (defineGlobalAtTop_functions define)))
  | subclass klass declared before methods after define ihMethods =>
      have named := emitWithConstant_steady klass
      obtain ⟨names, grows, declares, linked⟩ := trackDeclared_grows declared
      have ready₁ := named.ready ready
      have ready₂ := grows.ready declares (linked ready₁.1.linked) ready₁
      obtain ⟨_, _, _, -, -, -, tracks₃, settled₃⟩ :=
        beginSuperclass_tracks ready₂.1 ready₂.2 before
      obtain ⟨superclass, around⟩ := beginSuperclass_writes before
      have inner := ihMethods ⟨tracks₃, settled₃⟩
      rw [around, trackDeclared_visible declared, named.visible] at inner
      rw [trackDeclared_visible declared, named.visible] at superclass
      have body := superclass.append (inner.then_silent (endSuperclass_silent after)
        (endSuperclass_functions after))
      exact .after_silent (emitWithConstant_silent klass) (emitWithConstant_functions klass)
        (.after_silent (trackDeclared_silent declared) (trackDeclared_functions declared)
          (body.then_silent (defineGlobalAtTop_silent define) (defineGlobalAtTop_functions define)))
  | fun_ _ define declared ihClosure =>
      have tail : Silent _ := (defineGlobalAtTop_silent define).append (trackDeclared_silent declared)
      exact (ihClosure ready.1).then_silent tail
        ((trackDeclared_functions declared).trans (defineGlobalAtTop_functions define))
  | var tracked _ define declared ihValue =>
      have inner := ihValue (trackWaiting_tracks ready.1 ready.2 tracked)
      rw [trackDeclared_visible tracked] at inner
      have tail : Silent _ :=
        (defineGlobalAtTop_silent define).append (initializeDeclared_silent declared)
      have all := Writes.after_silent silent_nil (trackDeclared_functions tracked)
        (inner.then_silent tail
          ((initializeDeclared_functions declared).trans (defineGlobalAtTop_functions define)))
      exact all
  | declsCons head tail ihHead ihTail =>
      obtain ⟨first, grows, declares, linked⟩ := head.outcome ready
      have rest := ihTail (grows.ready declares linked ready)
      rw [head.visible_decl ready] at rest
      exact (ihHead ready).append rest
  | methodsCons closure method tail ihClosure ihTail =>
      have both := (closure.outcome ready.1).trans (emitWithConstant_steady method)
      have rest := ihTail (both.ready ready)
      rw [both.visible] at rest
      exact (ihClosure ready.1).append (.after_silent (emitWithConstant_silent method)
        (emitWithConstant_functions method) rest)

end Cpplox
