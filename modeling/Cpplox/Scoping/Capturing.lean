import Cpplox.Scoping.Walk

namespace Cpplox

open Data Structured Lower

/-! Which variables the functions around a point of the source capture directly. -/

variable {N : Type} {l l₁ l₂ final : Lower N} {code : LoweredCode} {token : SourceMapToken Text}

namespace Lower

/-- The upvalues tracked so far, of the innermost function first. -/
def captured (l : Lower N) : List (List TrackedUpvalue) :=
  (l.back :: l.enclosing).map (·.trackedUpvalues)

/-- A function at a depth captures a local of the function around it. -/
def Directly (l : Lower N) (depth index : Nat) : Prop :=
  ∃ upvalues, slot? l.captured depth = some upvalues ∧ .upvalueIndex index ∈ upvalues

theorem Directly.congr (same : final.captured = l.captured) (depth index : Nat) :
    final.Directly depth index ↔ l.Directly depth index := by
  rw [Directly, Directly, same]

end Lower

/-- The function at a depth has to capture a local of the function around it for the variable
that an occurrence comes to. -/
def Occurrence.Captures (occurrence : Occurrence) (depth index : Nat) : Prop :=
  ∃ level, occurrence.found = some (level + 1, index) ∧
    occurrence.functions.length = depth + level + 1

section Upvalues

variable {K : Type} {name : Text} {inner laterInner : FunctionChunk (List K)}
  {enclosing laterEnclosing : List (FunctionChunk (List K))} {index : Nat}

def upvaluesOf (functions : List (FunctionChunk (List K))) : List (List TrackedUpvalue) :=
  functions.map (·.trackedUpvalues)

/-- Some list at a depth, the head at the greatest, has a property. -/
theorem exists_slot?_cons {A : Type} {value : A} {rest : List A} {depth : Nat} {holds : A → Prop} :
    (∃ found, slot? (value :: rest) depth = some found ∧ holds found) ↔
      depth = rest.length ∧ holds value ∨ ∃ found, slot? rest depth = some found ∧ holds found := by
  rw [slot?_cons]
  by_cases atHead : depth = rest.length
  · subst atHead
    simp [slot?_none (Nat.le_refl rest.length)]
  · simp [atHead]

/-- An upvalue adds one direct capture, in the function inside the one that declares the name. -/
theorem trackUpvalue_directly (named : name ≠ [])
    (tracks : trackUpvalue name inner enclosing = some (index, laterInner, laterEnclosing))
    (depth local_ : Nat) :
    (∃ upvalues, slot? (upvaluesOf (laterInner :: laterEnclosing)) depth = some upvalues ∧
        .upvalueIndex local_ ∈ upvalues) ↔
      (∃ upvalues, slot? (upvaluesOf (inner :: enclosing)) depth = some upvalues ∧
        .upvalueIndex local_ ∈ upvalues) ∨
      ∃ level, nearest earliest (outerNames enclosing) name = some (level, local_) ∧
        depth + level = enclosing.length := by
  induction enclosing generalizing inner laterInner laterEnclosing index with
  | nil => cases tracks
  | cons outer rest ih =>
      obtain ⟨upvalue, rfl, rfl, ways⟩ := trackUpvalue_cases tracks
      have names : outerNames (outer :: rest) = namesOf outer.trackedLocals :: outerNames rest := rfl
      have conses (head : FunctionChunk (List K)) (tail : List (FunctionChunk (List K))) :
          upvaluesOf (head :: tail) = head.trackedUpvalues :: upvaluesOf tail := rfl
      have lengths (functions : List (FunctionChunk (List K))) :
          (upvaluesOf functions).length = functions.length := List.length_map _
      rw [names, nearest, earliest_namesOf, conses, conses inner, exists_slot?_cons, exists_slot?_cons,
        mem_insertUpvalue, lengths, lengths]
      rcases ways with ⟨outer, rest, localIndex, split, rfl, found, rfl⟩ |
        ⟨outer, rest, outerIndex, laterOuter, laterRest, split, rfl, missing, further, rfl⟩
      · obtain ⟨rfl, rfl⟩ := List.cons.inj split
        have level (level : Nat) : (some (0, localIndex) : Option (Nat × Nat)) = some (level, local_) ↔
            level = 0 ∧ localIndex = local_ := by simp [eq_comm]
        simp only [found, level, TrackedUpvalue.upvalueIndex.injEq, List.length_cons]
        constructor
        · rintro (⟨rfl, old | rfl⟩ | old)
          · exact .inl (.inl ⟨rfl, old⟩)
          · exact .inr ⟨0, ⟨rfl, rfl⟩, rfl⟩
          · exact .inl (.inr old)
        · rintro ((⟨rfl, old⟩ | old) | ⟨_, ⟨rfl, rfl⟩, rfl⟩)
          · exact .inl ⟨rfl, .inl old⟩
          · exact .inr old
          · exact .inl ⟨rfl, .inr rfl⟩
      · obtain ⟨rfl, rfl⟩ := List.cons.inj split
        have grows : laterRest.length = rest.length :=
          (List.Forall₂.length_eq (trackUpvalue_extends named further).2.2.2).symm
        rw [ih further]
        simp only [missing, List.length_cons, grows, reduceCtorEq, or_false]
        have deep : (∃ level, (nearest earliest (outerNames rest) name).map deeper =
              some (level, local_) ∧ depth + level = rest.length + 1) ↔
            ∃ level, nearest earliest (outerNames rest) name = some (level, local_) ∧
              depth + level = rest.length := by
          cases nearest earliest (outerNames rest) name with
          | none => simp
          | some place =>
              simp only [Option.map_some, deeper, Option.some.injEq, Prod.ext_iff]
              constructor
              · rintro ⟨_, ⟨rfl, same⟩, total⟩
                exact ⟨place.1, ⟨rfl, same⟩, by omega⟩
              · rintro ⟨_, ⟨rfl, same⟩, total⟩
                exact ⟨place.1 + 1, ⟨rfl, same⟩, by omega⟩
        rw [deep, or_assoc]

end Upvalues

namespace Lower

variable {depth index : Nat} {occurrences more : List Occurrence}

/-- Between two states of lowering the functions around have captured what the occurrences come
to. -/
structure Capturing (l final : Lower N) (occurrences : List Occurrence) : Prop where
  length : final.captured.length = l.captured.length
  directly : ∀ depth < l.captured.length, ∀ index, final.Directly depth index ↔
    l.Directly depth index ∨ ∃ occurrence ∈ occurrences, occurrence.Captures depth index

theorem Capturing.keeps (same : final.captured = l.captured) : l.Capturing final [] :=
  ⟨congrArg _ same, fun depth _ index => by simp [Directly.congr same]⟩

theorem Capturing.append (first : l.Capturing l₁ occurrences) (second : l₁.Capturing final more) :
    l.Capturing final (occurrences ++ more) := by
  refine ⟨second.length.trans first.length, fun depth bound index => ?_⟩
  rw [second.directly depth (first.length ▸ bound), first.directly depth bound, or_assoc]
  simp only [List.mem_append, or_and_right, exists_or]

theorem Capturing.then_keeps (first : l.Capturing l₁ occurrences) (same : final.captured = l₁.captured) :
    l.Capturing final occurrences := by
  have both := first.append (.keeps same)
  rwa [List.append_nil] at both

theorem Capturing.after_keeps (same : l₁.captured = l.captured) (second : l₁.Capturing final more) :
    l.Capturing final more := (Capturing.keeps same).append second

/-- A scope does not matter. -/
theorem Capturing.scope (inside : l.enterScope.Capturing final occurrences) :
    l.Capturing final occurrences := ⟨inside.length, inside.directly⟩

theorem trackLocal_captured {initialized : Bool}
    (runs : (trackLocal token initialized).run l = some (code, final)) : final.captured = l.captured := by
  obtain ⟨-, -, rfl⟩ := trackLocal_some runs
  rfl

theorem trackDeclared_captured {initialized : Bool}
    (runs : (trackDeclared token initialized).run l = some (code, final)) :
    final.captured = l.captured := by
  rcases trackDeclared_some runs with ⟨-, tracks⟩ | ⟨-, -, rfl⟩
  · exact trackLocal_captured tracks
  · rfl

theorem initializeDeclared_captured (runs : initializeDeclared.run l = some (code, final)) :
    final.captured = l.captured := by
  rcases initializeDeclared_some runs with ⟨-, _, _, -, -, rfl⟩ | ⟨-, -, rfl⟩ <;> rfl

theorem popTopScopeDepth_captured (runs : (popTopScopeDepth token).run l = some (code, final)) :
    final.captured = l.captured := by
  obtain ⟨-, rfl⟩ := popTopScopeDepth_some runs
  rfl

theorem pushPlaceholder_captured (runs : pushPlaceholder.run l = some (code, final)) :
    final.captured = l.captured := by
  rcases pushPlaceholder_some runs with ⟨-, -, rfl⟩ | ⟨-, -, rfl⟩ <;> rfl

theorem endSuperclass_captured {superclass : Token}
    (runs : (endSuperclass superclass).run l = some (code, final)) : final.captured = l.captured := by
  obtain ⟨_, _, middle, scopes, pops, -⟩ := endSuperclass_some runs
  have popped := popTopScopeDepth_captured scopes
  rcases popPlaceholder_some pops with ⟨-, -, rfl⟩ | ⟨-, -, rfl⟩ <;> exact popped

theorem emitDefaultReturnValue_captured
    (runs : (emitDefaultReturnValue token).run l = some (code, final)) : final.captured = l.captured := by
  obtain ⟨rfl, -⟩ := emitDefaultReturnValue_some runs
  rfl

variable [Number N]

theorem emitWithConstant_captured {opcode : Opcode} {value : Constant N} {occurrence : Option Text}
    (runs : (emitWithConstant opcode value token occurrence).run l = some (code, final)) :
    final.captured = l.captured := by
  obtain ⟨-, rfl⟩ := emitWithConstant_some runs
  rfl

theorem defineGlobalAtTop_captured {name : Text}
    (runs : (defineGlobalAtTop name token).run l = some (code, final)) : final.captured = l.captured := by
  rcases defineGlobalAtTop_some runs with ⟨-, emits⟩ | ⟨-, -, rfl⟩
  · exact emitWithConstant_captured emits
  · rfl

theorem FollowsPath.captured {names : List Token} (follows : FollowsPath l names code final) :
    final.captured = l.captured := by
  induction follows with
  | last runs => exact emitWithConstant_captured runs
  | step runs _ ih => exact ih.trans (emitWithConstant_captured runs)

theorem emitFunction_captured {function : LoweredFunction N} {leading : Bool}
    (runs : (emitFunction function token leading).run l = some (code, final)) :
    final.captured = l.captured := by
  obtain ⟨rfl, -⟩ := emitFunction_some runs
  rfl

/-- An occurrence captures what the search of the functions around comes to. -/
theorem emitGetterSetter_capturing {localOpcode upvalueOpcode globalOpcode : Opcode}
    (runs : (emitGetterSetter localOpcode upvalueOpcode globalOpcode token).run l = some (code, final)) :
    l.Capturing final [l.visible.occurrence token] := by
  obtain ⟨named, accesses⟩ := emitGetterSetter_some runs
  have late := latest_namesOf l.back.trackedLocals token.lexeme
  have searches : (l.visible.occurrence token).found =
      (latest (namesOf l.back.trackedLocals) token.lexeme).elim
        ((nearest earliest (outerNames l.enclosing) token.lexeme).map deeper)
        fun index => some (0, index) := by
    cases known : latest (namesOf l.back.trackedLocals) token.lexeme <;>
      simp [Visible.occurrence, Visible.functions, visible, Occurrence.found, outerNames, known]
  have height : (l.visible.occurrence token).functions.length = l.enclosing.length + 1 := by
    simp [Visible.occurrence, Visible.functions, visible, outerNames]
  cases accesses with
  | local_ found =>
      rw [found] at late
      have here (depth index : Nat) : ¬ (l.visible.occurrence token).Captures depth index := by
        rintro ⟨level, found, -⟩
        rw [searches, late] at found
        cases found
      exact ⟨rfl, fun depth _ index => by simp [here]⟩
  | global missing untracked =>
      rw [missing] at late
      have none (depth index : Nat) : ¬ (l.visible.occurrence token).Captures depth index := by
        rintro ⟨level, found, -⟩
        rw [searches, late, trackUpvalue_none untracked] at found
        cases found
      exact ⟨rfl, fun depth _ index => by simp [none, Directly.congr (show
        (l.withConstant (.string token.lexeme)).captured = l.captured from rfl)]⟩
  | upvalue missing found =>
      rw [missing] at late
      have captures (depth index : Nat) : (l.visible.occurrence token).Captures depth index ↔
          ∃ level, nearest earliest (outerNames l.enclosing) token.lexeme = some (level, index) ∧
            depth + level = l.enclosing.length := by
        rw [Occurrence.Captures, height, searches, late, Option.map_none, Option.elim_none]
        cases nearest earliest (outerNames l.enclosing) token.lexeme with
        | none => simp
        | some place =>
            simp only [Option.map_some, deeper, Option.some.injEq, Prod.ext_iff, Nat.add_right_cancel_iff]
            exact exists_congr fun level => and_congr_right fun _ => eq_comm
      obtain ⟨-, -, -, others⟩ := trackUpvalue_extends named found
      refine ⟨?_, fun depth _ index => ?_⟩
      · simp [captured, List.Forall₂.length_eq others]
      · have one := trackUpvalue_directly named found depth index
        simp only [List.mem_singleton, exists_eq_left, captures]
        exact one

omit [Number N] in
theorem directly_cons {upvalues : List TrackedUpvalue} {rest : List (List TrackedUpvalue)}
    (inside : l.captured = upvalues :: rest) (depth index : Nat) :
    l.Directly depth index ↔ depth = rest.length ∧ .upvalueIndex index ∈ upvalues ∨
      ∃ found, slot? rest depth = some found ∧ .upvalueIndex index ∈ found := by
  rw [Directly, inside]
  exact exists_slot?_cons

omit [Number N] in
/-- A function captures what the occurrences in its body come to, of the function around it; and
so do the functions around. -/
theorem Capturing.function {tokens : List (SourceMapToken Text)} {isClassInitMethod : Bool} {done : Unit}
    {l₃ l₄ : Lower N} {compiled : FunctionChunk (List (Constant N))}
    (tracks : (trackAll tokens).run (l.enterFunction isClassInitMethod) = some (done, l₁))
    (inner : l₁.Capturing l₂ occurrences) (same : l₃.captured = l₂.captured)
    (leaves : l₃.leaveFunction = some (compiled, l₄)) :
    l.Capturing l₄ occurrences ∧ ∀ index, .upvalueIndex index ∈ compiled.trackedUpvalues ↔
      ∃ occurrence ∈ occurrences, occurrence.Captures l.captured.length index := by
  have entered : l₁.captured = [] :: l.captured := by
    rw [trackAll_some tracks]
    rfl
  obtain ⟨rfl, outer, rest, split, rfl⟩ := leaveFunction_some leaves
  have left : l₃.captured = l₃.back.trackedUpvalues :: upvaluesOf (outer :: rest) := by
    rw [captured, split]
    rfl
  have total := inner.length
  rw [← same, left, entered, List.length_cons, List.length_cons] at total
  have height : (upvaluesOf (outer :: rest)).length = l.captured.length := Nat.succ.inj total
  have step (depth index : Nat) (bound : depth < l₁.captured.length) := inner.directly depth bound index
  simp only [← Directly.congr same, directly_cons left, directly_cons entered] at step
  refine ⟨⟨height, fun depth bound index => ?_⟩, fun index => ?_⟩
  · have here := step depth index (by rw [entered, List.length_cons]; omega)
    have below : depth ≠ (upvaluesOf (outer :: rest)).length := by omega
    have under : depth ≠ l.captured.length := by omega
    simp only [below, under, false_and, false_or] at here
    exact here
  · have here := step l.captured.length index (by rw [entered, List.length_cons]; omega)
    have above : slot? (upvaluesOf (outer :: rest)) l.captured.length = none :=
      slot?_none (Nat.le_of_eq height)
    have top : slot? l.captured l.captured.length = none := slot?_none (Nat.le_refl _)
    simpa [height, above, top] using here

theorem emitAssignment_capturing {target : Token} {names : List Token}
    (runs : (emitAssignment target names).run l = some (code, final)) :
    l.Capturing final [l.visible.occurrence (sourceMapToken target)] := by
  rcases emitAssignment_some runs with ⟨-, sets⟩ | ⟨object, path, l₁, gets, follows, rfl⟩
  · exact emitGetterSetter_capturing sets
  · exact (emitGetterSetter_capturing gets).then_keeps follows.captured

theorem beginSuperclass_capturing {name superclass : Token}
    (runs : (beginSuperclass name superclass).run l = some (code, final)) :
    l.Capturing final [l.visible.enterSuperclass.occurrence (sourceMapToken superclass)] := by
  obtain ⟨placeholder, parent, declared, l₁, l₂, pushes, gets, names, rfl⟩ := beginSuperclass_some runs
  have around := pushPlaceholder_visible pushes
  have reads := emitGetterSetter_capturing gets
  rw [around] at reads
  have pushed : l₁.captured = l.captured := pushPlaceholder_captured pushes
  have inside : l₁.Capturing l₂ _ := .scope reads
  exact (Capturing.after_keeps pushed inside).then_keeps (trackLocal_captured names)

/-- Lowering a tree captures what its occurrences come to. -/
theorem Lowers.capturing {node : Node} (lowers : Lowers l node code final) (ready : node.Ready l) :
    l.Capturing final (node.occurrences l.visible) := by
  induction lowers with
  | false_ | true_ | nil | argsNil | empty | declsNil | methodsNil => exact .keeps rfl
  | number runs | string runs => exact .keeps (emitWithConstant_captured runs)
  | occurrence runs => exact emitGetterSetter_capturing runs
  | super receiver superclass method =>
      have second := emitGetterSetter_capturing superclass
      rw [(emitGetterSetter_steady receiver).visible] at second
      exact (emitGetterSetter_capturing receiver).append
        (second.then_keeps (emitWithConstant_captured method))
  | functionExpr _ ih => exact ih ready
  | call callee args call ihCallee ihArgs =>
      have steady := callee.outcome ready
      have rest := ihArgs (steady.tracks ready)
      rw [steady.visible] at rest
      obtain ⟨-, rfl⟩ := emitIndex_some call
      exact (ihCallee ready).append rest
  | getProperty _ property ihObject => exact (ihObject ready).then_keeps (emitWithConstant_captured property)
  | unary _ ihOperand => exact ihOperand ready
  | binary _ left right ihLeft ihRight | and_ left right ihLeft ihRight | or_ left right ihLeft ihRight
  | argsCons left right ihLeft ihRight =>
      have steady := left.outcome ready
      have rest := ihRight (steady.tracks ready)
      rw [steady.visible] at rest
      exact (ihLeft ready).append rest
  | assign value assignment ihValue =>
      have rest := emitAssignment_capturing assignment
      rw [(value.outcome ready).visible] at rest
      exact (ihValue ready).append rest
  | function tracks body returns leaves closure ihBody =>
      have inner := ihBody (enterFunction_tracks ready.linked _ tracks)
      rw [enterFunction_visible tracks] at inner
      have all := (inner.function tracks (emitDefaultReturnValue_captured returns) leaves).1
      simpa [Node.occurrences, paramNames, sourceMapToken, Function.comp_def] using
        all.then_keeps (emitFunction_captured closure)
  | expression _ ihValue | print _ ihValue | return_ _ _ _ ihValue => exact ihValue ready.1
  | if_ condition thenBranch elseBranch ihCondition ihThen ihElse =>
      have test := condition.outcome ready.1
      have ready₁ := test.ready ready
      have yes := thenBranch.outcome ready₁
      have first := ihThen ready₁
      have second := ihElse (yes.ready ready₁)
      rw [test.visible] at first
      rw [yes.visible, test.visible] at second
      exact (ihCondition ready.1).append (first.append second)
  | for_ initializer condition increment body pops ihInitializer ihCondition ihIncrement ihBody =>
      have entered := ready.1.enterScope
      obtain ⟨declared, grows, declares, linked⟩ := initializer.outcome ⟨entered, ready.2⟩
      have ready₁ := grows.ready declares linked ⟨entered, ready.2⟩
      have test := condition.outcome ready₁.1
      have ready₂ := test.ready ready₁
      have step := increment.outcome ready₂
      have around := initializer.visible_decl ⟨entered, ready.2⟩
      have first := ihInitializer ⟨entered, ready.2⟩
      have second := ihCondition ready₁.1
      have third := ihIncrement ready₂
      have fourth := ihBody (step.ready ready₂)
      rw [around] at second
      rw [test.visible, around] at third
      rw [step.visible, test.visible, around] at fourth
      exact .scope (first.append (second.append (third.append
        (fourth.then_keeps (popTopScopeDepth_captured pops)))))
  | block body pops ihBody =>
      exact .scope ((ihBody ⟨ready.1.enterScope, ready.2⟩).then_keeps (popTopScopeDepth_captured pops))
  | returnDefault _ value => exact .keeps (emitDefaultReturnValue_captured value)
  | while_ condition body ihCondition ihBody =>
      have test := condition.outcome ready.1
      have rest := ihBody (test.ready ready)
      rw [test.visible] at rest
      exact (ihCondition ready.1).append rest
  | statement _ ihBody => exact ihBody ready
  | baseClass klass declared methods define ihMethods =>
      have named := emitWithConstant_steady klass
      obtain ⟨names, grows, declares, linked⟩ := trackDeclared_grows declared
      have ready₁ := named.ready ready
      have inner := ihMethods (grows.ready declares (linked ready₁.1.linked) ready₁)
      rw [trackDeclared_visible declared, named.visible] at inner
      exact .after_keeps ((trackDeclared_captured declared).trans (emitWithConstant_captured klass))
        (inner.then_keeps (defineGlobalAtTop_captured define))
  | subclass klass declared before methods after define ihMethods =>
      have named := emitWithConstant_steady klass
      obtain ⟨names, grows, declares, linked⟩ := trackDeclared_grows declared
      have ready₁ := named.ready ready
      have ready₂ := grows.ready declares (linked ready₁.1.linked) ready₁
      obtain ⟨_, _, _, -, -, -, tracks₃, settled₃⟩ :=
        beginSuperclass_tracks ready₂.1 ready₂.2 before
      have superclass := beginSuperclass_capturing before
      have inner := ihMethods ⟨tracks₃, settled₃⟩
      rw [(beginSuperclass_writes before).2, trackDeclared_visible declared, named.visible] at inner
      rw [trackDeclared_visible declared, named.visible] at superclass
      have body := superclass.append (inner.then_keeps
        ((defineGlobalAtTop_captured define).trans (endSuperclass_captured after)))
      exact .after_keeps ((trackDeclared_captured declared).trans (emitWithConstant_captured klass)) body
  | fun_ _ define declared ihClosure =>
      exact (ihClosure ready.1).then_keeps
        ((trackDeclared_captured declared).trans (defineGlobalAtTop_captured define))
  | var tracked _ define declared ihValue =>
      have inner := ihValue (trackWaiting_tracks ready.1 ready.2 tracked)
      rw [trackDeclared_visible tracked] at inner
      exact .after_keeps (trackDeclared_captured tracked) (inner.then_keeps
        ((initializeDeclared_captured declared).trans (defineGlobalAtTop_captured define)))
  | declsCons head tail ihHead ihTail =>
      obtain ⟨first, grows, declares, linked⟩ := head.outcome ready
      have rest := ihTail (grows.ready declares linked ready)
      rw [head.visible_decl ready] at rest
      exact (ihHead ready).append rest
  | methodsCons closure method tail ihClosure ihTail =>
      have both := (closure.outcome ready.1).trans (emitWithConstant_steady method)
      have rest := ihTail (both.ready ready)
      rw [both.visible] at rest
      exact (ihClosure ready.1).append (.after_keeps (emitWithConstant_captured method) rest)

end Lower

end Cpplox
