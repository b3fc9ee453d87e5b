import Cpplox.Contexts.Lowers

namespace Cpplox

open Structured Data Lower

variable {N : Type} [Number N] {l final : Lower N} {node : Node} {code : LoweredCode}

/-! Every tree is lowered to typed code. -/

theorem Lower.Lowers.flows (lowers : Lowers l node code final) (ready : node.Ready l)
    (around : Surroundings N) : node.Flows around l final code := by
  induction lowers with
  | false_ | true_ | nil =>
      intro locals temporaries covers tall _
      exact Surroundings.flows_literal _ rfl ⟨rfl, rfl⟩ _ covers tall temporaries
  | number runs =>
      intro locals temporaries covers tall _
      exact Surroundings.flows_number runs covers tall temporaries
  | string runs =>
      intro locals temporaries covers tall _
      exact Surroundings.flows_string runs covers tall temporaries
  | occurrence runs =>
      intro locals temporaries covers tall _
      exact Surroundings.flows_getter ready runs covers tall temporaries
  | super receiver superclass method =>
      intro locals temporaries covers tall _
      have first := emitGetterSetter_steady receiver
      have second := emitGetterSetter_steady superclass
      have third := emitWithConstant_steady method
      have reads := Surroundings.flows_getter ready receiver
        (covers.before (second.trans third).grows) tall temporaries
      have laterReads := Surroundings.flows_getter (first.tracks ready) superclass
        (covers.before third.grows) tall (1 + temporaries)
      rw [show 1 + (1 + temporaries) = 2 + temporaries by omega] at laterReads
      exact .seq reads (.seq laterReads (Surroundings.flows_name rfl method covers tall temporaries))
  | functionExpr lowers ih =>
      intro locals temporaries covers tall leading
      exact ih ready locals temporaries covers tall (.inr leading)
  | call callee args call ihCallee ihArgs =>
      intro locals temporaries covers tall leading
      have first := callee.outcome ready
      have tracks := first.tracks ready
      have second := args.outcome tracks
      have third := emitIndex_steady call
      exact .seq (ihCallee ready locals temporaries
          (covers.before (second.trans third).grows) tall leading)
        (.seq (ihArgs tracks locals (1 + temporaries) (covers.before third.grows) tall (by omega))
          (Surroundings.flows_call call covers tall temporaries))
  | getProperty object property ihObject =>
      intro locals temporaries covers tall leading
      have last := emitWithConstant_steady property
      exact .seq (ihObject ready locals temporaries (covers.before last.grows) tall leading)
        (Surroundings.flows_name rfl property covers tall temporaries)
  | unary operand ihOperand =>
      intro locals temporaries covers tall leading
      exact .seq (ihOperand ready locals temporaries covers tall leading)
        (Surroundings.flows_unary _ _ covers tall temporaries)
  | binary operator left right ihLeft ihRight =>
      intro locals temporaries covers tall leading
      have first := left.outcome ready
      have tracks := first.tracks ready
      have second := right.outcome tracks
      have flows := ihRight tracks locals (1 + temporaries) covers tall (by simp)
      rw [show 1 + (1 + temporaries) = 2 + temporaries by omega] at flows
      exact .seq (ihLeft ready locals temporaries (covers.before second.grows) tall leading)
        (.seq flows (Surroundings.flows_binary operator covers tall temporaries))
  | and_ left right ihLeft ihRight =>
      intro locals temporaries covers tall leading
      have tracks := (left.outcome ready).tracks ready
      have laterCovers := covers.before (right.outcome tracks).grows
      exact .seq (ihLeft ready locals temporaries laterCovers tall leading)
        (Surroundings.flows_and laterCovers tall _
          (ihRight tracks locals temporaries covers tall leading))
  | or_ left right ihLeft ihRight =>
      intro locals temporaries covers tall leading
      have tracks := (left.outcome ready).tracks ready
      have laterCovers := covers.before (right.outcome tracks).grows
      exact .seq (ihLeft ready locals temporaries laterCovers tall leading)
        (Surroundings.flows_or laterCovers tall _
          (ihRight tracks locals temporaries covers tall leading))
  | assign value assignment ihValue =>
      intro locals temporaries covers tall leading
      have first := value.outcome ready
      have last := emitAssignment_steady assignment
      exact .seq (ihValue ready locals temporaries (covers.before last.grows) tall leading)
        (Surroundings.flows_assignment (first.tracks ready) assignment covers tall temporaries)
  | argsNil =>
      intro locals temporaries _ _ _
      rw [Exprs.length, Nat.zero_add]
      exact .nil
  | argsCons head tail ihHead ihTail =>
      intro locals temporaries covers tall above
      have tracks := (head.outcome ready).tracks ready
      have laterCovers := covers.before (tail.outcome tracks).grows
      have flows := ihTail tracks locals (1 + temporaries) covers tall (by omega)
      rw [← Nat.add_assoc] at flows
      exact .seq (ihHead ready locals temporaries laterCovers tall (by simp [above])) flows
  | function tracks body returns leaves closure ihBody =>
      intro locals temporaries covers tall leads
      obtain ⟨declared, grows, declares, linked⟩ :=
        body.outcome (enterFunction_tracks ready.linked _ tracks)
      obtain ⟨rfl, -⟩ := emitDefaultReturnValue_some returns
      have left := leaveFunction_steady tracks grows linked leaves
      obtain ⟨rfl, outer, rest, enclosing, rfl⟩ := leaveFunction_some leaves
      rw [enclosing] at linked
      exact Surroundings.flows_function (left.tracks ready) linked.1 closure covers tall
        (leads.imp_left left.settled)
  | empty =>
      intro locals _ _
      exact .nil
  | expression value ihValue =>
      intro locals covers tall
      exact .seq (ihValue ready.1 locals 0 covers tall (by simp))
        (Surroundings.flows_pop covers tall _ 0)
  | if_ condition thenBranch elseBranch ihCondition ihThen ihElse =>
      intro locals covers tall
      have test := condition.outcome ready.1
      have ready₁ := test.ready ready
      have yes := thenBranch.outcome ready₁
      have ready₂ := yes.ready ready₁
      have covers₂ := covers.before (elseBranch.outcome ready₂).grows
      have covers₁ := covers₂.before yes.grows
      exact .seq (ihCondition ready.1 locals 0 covers₁ tall (by simp))
        (Surroundings.flows_if covers₁ covers₂ tall _ (ihThen ready₁ locals covers₂ tall)
          (ihElse ready₂ locals covers tall))
  | for_ initializer condition increment body pops ihInitializer ihCondition ihIncrement ihBody =>
      intro locals covers tall
      have entered := ready.1.enterScope
      obtain ⟨declared, grows, declares, linked⟩ := initializer.outcome ⟨entered, ready.2⟩
      have ready₁ := grows.ready declares linked ⟨entered, ready.2⟩
      have test := condition.outcome ready₁.1
      have ready₂ := test.ready ready₁
      have step := increment.outcome ready₂
      have ready₃ := step.ready ready₂
      have inner := body.outcome ready₃
      have rest := (test.trans step).trans inner
      obtain ⟨later, all, same⟩ := grows.then_steady rest.grows
      have steady := leaveScope_steady ready.1 all (declares.captures same)
        (rest.linked linked) pops
      obtain ⟨covers₄, scope⟩ := Surroundings.flows_scope ready.1 all (declares.captures same)
        tall pops covers
      have tall₄ := Surroundings.Tall.above tall later
      have length := covers.length steady.grows
      have covers₃ := covers₄.before inner.grows
      have covers₂ := covers₃.before step.grows
      have covers₁ := covers₂.before test.grows
      exact .seq (ihInitializer ⟨entered, ready.2⟩ later locals covers₁ length tall)
        (.seq (Surroundings.flows_for covers₂ covers₃ tall₄ _
            (ihCondition ready₁.1 _ 0 covers₂ tall₄ (by simp)) (ihIncrement ready₂ _ covers₃ tall₄)
            (ihBody ready₃ _ covers₄ tall₄))
          (.seq (Surroundings.flows_pop covers₄ tall₄ _ 0) scope))
  | block body pops ihBody =>
      intro locals covers tall
      obtain ⟨declared, grows, declares, linked⟩ := body.outcome ⟨ready.1.enterScope, ready.2⟩
      have steady := leaveScope_steady ready.1 grows declares linked pops
      obtain ⟨covers₁, scope⟩ := Surroundings.flows_scope ready.1 grows declares tall pops covers
      have length := covers.length steady.grows
      exact .seq (ihBody ⟨ready.1.enterScope, ready.2⟩ declared locals covers₁ length tall) scope
  | print value ihValue =>
      intro locals covers tall
      exact .seq (ihValue ready.1 locals 0 covers tall (by simp))
        (Surroundings.flows_simple .print _ rfl covers tall 0)
  | returnDefault _ value =>
      intro locals covers tall
      exact .seq (Surroundings.flows_defaultReturn ready.2 value covers tall)
        (Surroundings.flows_return covers tall)
  | return_ _ _ value ihValue =>
      intro locals covers tall
      exact .seq (ihValue ready.1 locals 0 covers tall (by simp))
        (Surroundings.flows_return covers tall)
  | while_ condition body ihCondition ihBody =>
      intro locals covers tall
      have test := condition.outcome ready.1
      have ready₁ := test.ready ready
      have covers₁ := covers.before (body.outcome ready₁).grows
      exact .seq (Surroundings.flows_while covers₁ tall _
          (ihCondition ready.1 locals 0 covers₁ tall (by simp)) (ihBody ready₁ locals covers tall))
        (Surroundings.flows_pop covers tall _ 0)
  | statement body ihBody =>
      intro above locals covers same tall
      obtain rfl := covers.nothing (body.outcome ready).grows same
      exact ihBody ready locals covers tall
  | baseClass klass declared methods define ihMethods =>
      intro above locals covers same tall
      have named := emitWithConstant_steady klass
      obtain ⟨names, grows, declares, linked⟩ := trackDeclared_grows declared
      have ready₁ := named.ready ready
      have ready₂ := grows.ready declares (linked ready₁.1.linked) ready₁
      exact Surroundings.flows_class klass declared (methods.outcome ready₂)
        (fun locals covers tall => ihMethods ready₂ locals _ covers tall) define covers same tall
  | subclass klass declared before methods after define ihMethods =>
      intro above locals covers same tall
      have named := emitWithConstant_steady klass
      obtain ⟨names, grows, declares, linked⟩ := trackDeclared_grows declared
      have ready₁ := named.ready ready
      have ready₂ := grows.ready declares (linked ready₁.1.linked) ready₁
      obtain ⟨_, _, supers, pushes, begins, declaresSuper, tracks₃, settled₃⟩ :=
        beginSuperclass_tracks ready₂.1 ready₂.2 before
      have body := methods.outcome ⟨tracks₃, settled₃⟩
      obtain ⟨later, all, captures⟩ := begins.then_steady body.grows
      have scope := endSuperclass_steady (pushPlaceholder_tracks ready₂.1 ready₂.2 pushes).1 pushes
        all (declaresSuper.captures captures) (body.linked tracks₃.linked) after
      exact Surroundings.flows_class klass declared scope
        (fun locals covers tall => Surroundings.flows_superclass ready₂.1 ready₂.2 before body
          (fun locals covers tall => ihMethods ⟨tracks₃, settled₃⟩ locals 1 covers tall)
          after covers tall) define covers same tall
  | fun_ closure define declared ihClosure =>
      intro above locals covers same tall
      have defined := defineGlobalAtTop_steady define
      have both := (closure.outcome ready.1).trans defined
      obtain ⟨names, grows, -, -⟩ := trackDeclared_grows declared
      have same₂ := same.trans both.grows.length_locals.symm
      have covers₁ := (covers.below grows same₂).1.before defined.grows
      exact .seq (ihClosure ready.1 locals 0 covers₁ tall (.inl ready.2))
        (Surroundings.flows_fun define declared covers same₂ tall)
  | var tracked value define declared ihValue =>
      intro above locals covers same tall
      have tracks := trackWaiting_tracks ready.1 ready.2 tracked
      exact Surroundings.flows_var ready.2 tracked (value.outcome tracks)
        (fun locals covers tall => ihValue tracks locals 0 covers tall (by simp)) define declared
        covers same tall
  | declsNil =>
      intro above locals covers same _
      obtain rfl := covers.nothing (.refl _) same
      exact .nil
  | declsCons head tail ihHead ihTail =>
      intro above locals covers same tall
      obtain ⟨first, grows, declares, linked⟩ := head.outcome ready
      have ready₁ := grows.ready declares linked ready
      obtain ⟨more, laterGrows, -, -⟩ := tail.outcome ready₁
      obtain ⟨upper, lower, rfl, covers₁⟩ := covers.both grows laterGrows same
      rw [List.append_assoc] at covers ⊢
      exact .seq (ihHead ready lower locals covers₁ same tall)
        (ihTail ready₁ upper (lower ++ locals) covers covers₁.captures.length
          (Surroundings.Tall.above tall lower))
  | methodsNil =>
      intro locals temporaries _ _
      exact .nil
  | methodsCons closure method tail ihClosure ihTail =>
      intro locals temporaries covers tall
      have made := closure.outcome ready.1
      have bound := emitWithConstant_steady method
      have both := made.trans bound
      have ready₂ := both.ready ready
      have covers₂ := covers.before (tail.outcome ready₂).grows
      exact .seq (ihClosure ready.1 locals temporaries (covers₂.before bound.grows) tall
          (.inl ready.2))
        (.seq (Surroundings.flows_method method covers₂ tall temporaries)
          (ihTail ready₂ locals temporaries covers tall))

/-- All functions made while a tree is lowered are certified. -/
theorem Lower.Lowers.certifies (lowers : Lowers l node code final) (ready : node.Ready l)
    (selves : node.Selves) : l.Certifies final := by
  induction lowers with
  | false_ | true_ | nil | argsNil | empty | declsNil | methodsNil => exact .refl _
  | number runs | string runs => exact .of_functions (emitWithConstant_functions runs)
  | occurrence runs => exact .of_functions (emitGetterSetter_functions runs)
  | super receiver superclass method =>
      exact .of_functions ((emitWithConstant_functions method).trans
        ((emitGetterSetter_functions superclass).trans (emitGetterSetter_functions receiver)))
  | functionExpr _ ih => exact ih ready ⟨by decide, rfl⟩
  | call callee args call ihCallee ihArgs =>
      have tracks := (callee.outcome ready).tracks ready
      obtain ⟨-, rfl⟩ := emitIndex_some call
      exact (ihCallee ready trivial).trans (ihArgs tracks trivial)
        (args.outcome tracks).grows.functions
  | getProperty _ property ihObject =>
      exact (ihObject ready trivial).then_same (emitWithConstant_functions property)
  | unary _ ihOperand => exact ihOperand ready trivial
  | binary _ left right ihLeft ihRight | and_ left right ihLeft ihRight
  | or_ left right ihLeft ihRight =>
      have tracks := (left.outcome ready).tracks ready
      exact (ihLeft ready trivial).trans (ihRight tracks trivial)
        (right.outcome tracks).grows.functions
  | assign _ assignment ihValue =>
      exact (ihValue ready trivial).then_same (emitAssignment_functions assignment)
  | argsCons head tail ihHead ihTail =>
      have tracks := (head.outcome ready).tracks ready
      exact (ihHead ready trivial).trans (ihTail tracks trivial)
        (tail.outcome tracks).grows.functions
  | @function l l₁ l₂ l₃ l₄ l₅ _ _ _ _ _ _ _ _ _ _ _ tracks body returns leaves closure ihBody =>
      have ready₁ := enterFunction_tracks ready.linked _ tracks
      obtain ⟨declared, grows, declares, linked⟩ := body.outcome ready₁
      have entered : l₁.functions = l.functions := by
        rw [trackAll_some tracks]
        rfl
      have left : l₄.functions = l₃.functions := by
        obtain ⟨-, outer, rest, -, rfl⟩ := leaveFunction_some leaves
        rfl
      have longer := (emitFunction_steady closure).grows.functions
      have made := emitFunction_certifies closure fun functions all => And.intro selves.1
        (Surroundings.certified_function selves.1 selves.2 body.filled tracks ready₁.2 grows declares
          (body.flows ready₁) returns leaves (longer.trans all))
      have inner : l.Certifies l₂ :=
        (Certifies.of_functions entered).trans (ihBody ready₁ trivial) grows.functions
      exact ((inner.then_same (emitDefaultReturnValue_functions returns)).then_same left).trans made
        longer
  | expression _ ihValue | print _ ihValue => exact ihValue ready.1 trivial
  | if_ condition thenBranch elseBranch ihCondition ihThen ihElse =>
      have test := condition.outcome ready.1
      have ready₁ := test.ready ready
      have yes := thenBranch.outcome ready₁
      have ready₂ := yes.ready ready₁
      have no := elseBranch.outcome ready₂
      exact ((ihCondition ready.1 trivial).trans (ihThen ready₁ trivial) yes.grows.functions).trans
        (ihElse ready₂ trivial) no.grows.functions
  | @for_ l l₁ l₂ l₃ l₄ l₅ _ _ _ _ _ _ _ _ _ _ initializer condition increment body pops ihInitializer
      ihCondition ihIncrement ihBody =>
      have entered := ready.1.enterScope
      obtain ⟨declared, grows, declares, linked⟩ := initializer.outcome ⟨entered, ready.2⟩
      have ready₁ := grows.ready declares linked ⟨entered, ready.2⟩
      have test := condition.outcome ready₁.1
      have ready₂ := test.ready ready₁
      have step := increment.outcome ready₂
      have ready₃ := step.ready ready₂
      have inner := body.outcome ready₃
      have first : l.Certifies l₁ := ihInitializer ⟨entered, ready.2⟩ trivial
      have all := ((first.trans (ihCondition ready₁.1 trivial) test.grows.functions).trans
        (ihIncrement ready₂ trivial) step.grows.functions).trans (ihBody ready₃ trivial)
          inner.grows.functions
      exact all.then_same (popTopScopeDepth_functions pops)
  | @block l l₁ l₂ _ _ _ _ body pops ihBody =>
      have inner : l.Certifies l₁ := ihBody ⟨ready.1.enterScope, ready.2⟩ trivial
      exact inner.then_same (popTopScopeDepth_functions pops)
  | returnDefault _ value => exact .of_functions (emitDefaultReturnValue_functions value)
  | return_ _ _ _ ihValue => exact ihValue ready.1 trivial
  | while_ condition body ihCondition ihBody =>
      have test := condition.outcome ready.1
      have ready₁ := test.ready ready
      exact (ihCondition ready.1 trivial).trans (ihBody ready₁ trivial)
        (body.outcome ready₁).grows.functions
  | statement _ ihBody => exact ihBody ready trivial
  | @baseClass l l₁ l₂ l₃ l₄ _ _ _ _ _ _ _ klass declared methods define ihMethods =>
      have named := emitWithConstant_steady klass
      obtain ⟨names, grows, declares, linked⟩ := trackDeclared_grows declared
      have ready₁ := named.ready ready
      have ready₂ := grows.ready declares (linked ready₁.1.linked) ready₁
      have before : l₂.functions = l.functions :=
        (trackDeclared_functions declared).trans (emitWithConstant_functions klass)
      have all := (Certifies.of_functions before).trans (ihMethods ready₂ trivial)
        (methods.outcome ready₂).grows.functions
      exact all.then_same (defineGlobalAtTop_functions define)
  | @subclass l l₁ l₂ l₃ l₄ l₅ l₆ _ _ _ _ _ _ _ _ _ _ klass declared before methods after define
      ihMethods =>
      have named := emitWithConstant_steady klass
      obtain ⟨names, grows, declares, linked⟩ := trackDeclared_grows declared
      have ready₁ := named.ready ready
      have ready₂ := grows.ready declares (linked ready₁.1.linked) ready₁
      obtain ⟨_, _, _, -, -, -, tracks₃, settled₃⟩ :=
        beginSuperclass_tracks ready₂.1 ready₂.2 before
      have same : l₃.functions = l.functions := (beginSuperclass_functions before).trans
        ((trackDeclared_functions declared).trans (emitWithConstant_functions klass))
      have all := (Certifies.of_functions same).trans (ihMethods ⟨tracks₃, settled₃⟩ trivial)
        (methods.outcome ⟨tracks₃, settled₃⟩).grows.functions
      exact (all.then_same (endSuperclass_functions after)).then_same
        (defineGlobalAtTop_functions define)
  | fun_ _ define declared ihClosure =>
      exact ((ihClosure ready.1 ⟨by decide, rfl⟩).then_same
        (defineGlobalAtTop_functions define)).then_same (trackDeclared_functions declared)
  | @var l l₁ l₂ l₃ l₄ _ _ _ _ _ _ _ tracked value define declared ihValue =>
      have tracks := trackWaiting_tracks ready.1 ready.2 tracked
      have all := (Certifies.of_functions (trackDeclared_functions tracked)).trans
        (ihValue tracks trivial) (value.outcome tracks).grows.functions
      exact (all.then_same (defineGlobalAtTop_functions define)).then_same
        (initializeDeclared_functions declared)
  | declsCons head tail ihHead ihTail =>
      obtain ⟨first, grows, declares, linked⟩ := head.outcome ready
      have ready₁ := grows.ready declares linked ready
      obtain ⟨more, laterGrows, -, -⟩ := tail.outcome ready₁
      exact (ihHead ready trivial).trans (ihTail ready₁ trivial) laterGrows.functions
  | methodsCons closure method tail ihClosure ihTail =>
      have both := (closure.outcome ready.1).trans (emitWithConstant_steady method)
      have ready₂ := both.ready ready
      exact ((ihClosure ready.1 ⟨by decide, rfl⟩).then_same
        (emitWithConstant_functions method)).trans (ihTail ready₂ trivial)
          (tail.outcome ready₂).grows.functions

omit [Number N] in
theorem Lower.ready_program : (Node.decls .nil).Ready ({} : Lower N) :=
  ⟨⟨by simp, by simp, by simp, rfl⟩, by simp [Settled]⟩

/-- A lowered program leaves no local and captures nothing. -/
theorem Lower.Lowers.outcome_program {decls : Decls}
    (lowers : Lowers ({} : Lower N) (.decls decls) code l) :
    l.back.trackedLocals = [] ∧ l.back.trackedUpvalues = [] ∧
      l.back.isClassInitMethod = false ∧ l.enclosing = [] := by
  obtain ⟨declared, grows, declares, linked⟩ := lowers.outcome ready_program
  obtain ⟨rest, split, extends_⟩ := grows.back
  obtain rfl := List.length_eq_zero_iff.mp (Captures.length extends_.locals)
  have enclosing : l.enclosing = [] :=
    List.length_eq_zero_iff.mp (List.Forall₂.length_eq grows.enclosing).symm
  rw [enclosing] at linked
  refine ⟨?_, linked, extends_.isClassInitMethod, enclosing⟩
  rw [split, declares.top rfl, List.nil_append]

/-- Every function of a lowered program but the root script. -/
theorem Lower.Lowers.certified_functions {decls : Decls}
    (lowers : Lowers ({} : Lower N) (.decls decls) code l) :
    ∀ function ∈ l.functions, function.kind ≠ .script ∧
      function.Certified (l.functions ++ [l.script code]) :=
  lowers.certifies ready_program trivial _ (List.prefix_append _ _) (by simp)

theorem Lower.Lowers.covers_script {decls : Decls}
    (lowers : Lowers ({} : Lower N) (.decls decls) code l) :
    ((l.script code).surroundings (l.functions ++ [l.script code])).Covers l [] := by
  obtain ⟨locals, upvalues, ordinary, -⟩ := lowers.outcome_program
  refine ⟨?_, List.prefix_rfl, ?_, List.prefix_append _ _, fun initializer => ?_⟩
  · rw [locals]
    exact .nil
  · rw [upvalues]
    exact List.nil_prefix
  · rw [ordinary] at initializer
    cases initializer

theorem Lower.Lowers.certified_script {decls : Decls}
    (lowers : Lowers ({} : Lower N) (.decls decls) code l) :
    (l.script code).Certified (l.functions ++ [l.script code]) :=
  ⟨lowers.filled, fun other => absurd rfl other, [], by simp, rfl,
    lowers.flows ready_program _ [] [] lowers.covers_script rfl (Nat.zero_le _)⟩

/-- Every function of a lowered program is certified. -/
theorem Lower.Lowers.certified_program {decls : Decls}
    (lowers : Lowers ({} : Lower N) (.decls decls) code l) :
    ∀ function ∈ l.functions ++ [l.script code],
      function.Certified (l.functions ++ [l.script code]) := by
  intro function member
  rcases List.mem_append.mp member with inner | root
  · exact (lowers.certified_functions function inner).2
  · rw [List.mem_singleton.mp root]
    exact lowers.certified_script

end Cpplox
