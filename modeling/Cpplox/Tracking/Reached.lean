import Cpplox.Tracking.Scopes

namespace Cpplox

open Data Routine

/-! The scopes in every state that the compiler reaches. -/

variable {N α β : Type} [Number N] {outline : Outline}

namespace Stays

variable {rest : Unit → Control N β}

theorem primary (allows : outline.Allows .primary) :
    Stays outline (Control.primary : Control N Unit) := by
  rw [Control.primary]
  refine .still (Stills.get.bind fun _ => .pure _) fun token => ?_
  split
  · exact .still stills_next fun _ => .last (stills_emitWith _)
  · exact .still stills_next fun _ => .call (allows.to _ Bool.noConfusion Bool.noConfusion rfl) rfl fun _ =>
      .last (stills_emitFunction _ _ _)
  · exact .still stills_next fun _ => .lastCapture (mayCapture_emitGetter _)
  · exact .still stills_next fun _ => .lastCapture (mayCapture_emitGetter _)
  · exact .still stills_next fun _ => .call (allows.to _ Bool.noConfusion Bool.noConfusion rfl) rfl fun _ =>
      .still (stills_expectNext _) fun _ => .done ()
  · exact .still stills_next fun _ => .last (stills_emitWith _)
  · exact .still stills_next fun _ => .last (stills_emitWith _)
  · exact .still stills_next fun _ => .last (stills_emitWith _)
  · exact .still stills_next fun _ => .mayCapture (mayCapture_emitGetter _) fun _ =>
      .mayCapture (mayCapture_emitGetter _) fun _ => .still (stills_expectNext _) fun _ =>
        .still (stills_expectCurrent _) fun _ => .last (stills_emitName _ _ _)
  · exact .still stills_next fun _ => .last (stills_emitWith _)
  · exact .still (Stills.get.bind fun _ => .pure _) fun _ => .last .throw

theorem property {rest : SourceMapToken Text → Control N β}
    (two : ∀ token, Stays outline (rest token)) :
    Stays outline (Control.property >>= rest) :=
  .still stills_next fun _ => .still (stills_expectCurrent _) fun _ =>
    .still (stills_emitName _ _ _) fun _ => two _

theorem callLoop {calleeToken : SourceMapToken Text} (allows : outline.Allows (.callLoop calleeToken)) :
    Stays outline (Control.callLoop calleeToken : Control N Unit) := by
  rw [Control.callLoop]
  refine .still (Stills.get.bind fun _ => .pure _) fun token => ?_
  split
  · refine .still stills_next fun _ => .call (allows.to _ Bool.noConfusion Bool.noConfusion rfl) rfl fun _ =>
      .still (stills_emitWith _) fun _ => .still (Stills.get.bind fun _ => .pure _) fun _ => ?_
    split
    · exact .property fun _ => .tail (allows.to _ Bool.noConfusion Bool.noConfusion rfl) rfl
    · exact .tail (allows.to _ Bool.noConfusion Bool.noConfusion rfl) rfl
  · exact .property fun _ => .tail (allows.to _ Bool.noConfusion Bool.noConfusion rfl) rfl
  · exact .done ()

omit [Number N] in
theorem unary (allows : outline.Allows .unary) :
    Stays outline (Control.unary : Control N Unit) := by
  rw [Control.unary]
  refine .still (Stills.get.bind fun _ => .pure _) fun token => ?_
  split
  · exact .still stills_next fun _ => .call allows rfl fun _ => .last (stills_emitWith _)
  · exact .still stills_next fun _ => .call allows rfl fun _ => .last (stills_emitWith _)
  · exact .tail (allows.to _ Bool.noConfusion Bool.noConfusion rfl) rfl

omit [Number N] in
theorem callOperand (allows : outline.Allows .unary) (level : Level)
    (two : Stays outline (rest ())) :
    Stays outline (Control.callOperand level >>= rest) := by
  cases level with
  | or_ => exact .call (allows.to (.level .and_) Bool.noConfusion Bool.noConfusion rfl) rfl fun _ => two
  | and_ => exact .call (allows.to (.level .equality) Bool.noConfusion Bool.noConfusion rfl) rfl fun _ => two
  | equality => exact .call (allows.to (.level .comparison) Bool.noConfusion Bool.noConfusion rfl) rfl fun _ => two
  | comparison => exact .call (allows.to (.level .term) Bool.noConfusion Bool.noConfusion rfl) rfl fun _ => two
  | term => exact .call (allows.to (.level .factor) Bool.noConfusion Bool.noConfusion rfl) rfl fun _ => two
  | factor => exact .call (allows.to .unary Bool.noConfusion Bool.noConfusion rfl) rfl fun _ => two

omit [Number N] in
theorem operatorStep (allows : outline.Allows .unary) (level : Level)
    (operatorToken : Token) (two : Stays outline (rest ())) :
    Stays outline (Control.operatorStep level operatorToken >>= rest) := by
  have binary (level : Level) : Stays outline (do
      Control.callOperand level
      perform (emitAll (binaryOpcodes operatorToken.type) (sourceMapToken operatorToken))
      rest ()) := .callOperand allows level (.still (stills_emitAll _ _) fun _ => two)
  cases level with
  | or_ =>
      exact .still (stills_emitJump _ _) fun _ => .still (stills_emitJump _ _) fun _ =>
        .still (stills_emitWith _) fun _ => .still (stills_emitWith _) fun _ =>
          .callOperand allows .or_ (.still (stills_emitWith _) fun _ => two)
  | and_ =>
      exact .still (stills_emitJump _ _) fun _ => .still (stills_emitWith _) fun _ =>
        .callOperand allows .and_ (.still (stills_emitWith _) fun _ => two)
  | equality => exact binary .equality
  | comparison => exact binary .comparison
  | term => exact binary .term
  | factor => exact binary .factor

omit [Number N] in
theorem operatorLoop {level : Level} (allows : outline.Allows (.operatorLoop level)) :
    Stays outline (Control.operatorLoop level : Control N Unit) := by
  rw [Control.operatorLoop]
  refine .still (Stills.get.bind fun _ => .pure _) fun token => ?_
  split
  · exact .still stills_next fun _ =>
      .operatorStep (allows.to .unary Bool.noConfusion Bool.noConfusion rfl) level _ (.tail allows rfl)
  · exact .done ()

/-- The look-ahead moves the iterator and nothing else. -/
theorem assignment (allows : outline.Allows .assignment) :
    Stays outline (Control.assignment : Control N Unit) := by
  intro before here
  rw [Control.assignment]
  refine Goes.get here (Goes.still here .lift fun found middle runs there => ?_)
  obtain ⟨-, rfl⟩ := lookAhead_run runs
  cases found with
  | none => exact Stays.tail (allows.to (.level .or_) Bool.noConfusion Bool.noConfusion rfl) rfl middle there
  | some found =>
      have moved : Stays outline (do
          let equalToken ← perform next
          Control.call .assignment
          perform (emitAssignment middle.tokenIter.token equalToken found.1) : Control N Unit) :=
        .still stills_next fun _ => .call allows rfl fun _ => .lastCapture (mayCapture_emitAssignment _ _ _)
      refine Goes.act there fun _ after runs => ?_
      cases runs
      have moves : middle.Moves { middle with tokenIter := found.2 } := .still ⟨rfl, rfl⟩ rfl
      exact ⟨moves, moved _ (there.moved moves rfl)⟩

omit [Number N] in
theorem expressionStatement (allows : outline.Allows .expressionStatement) :
    Stays outline (Control.expressionStatement : Control N Unit) := by
  rw [Control.expressionStatement]
  refine .call (allows.to _ Bool.noConfusion Bool.noConfusion rfl) rfl fun _ => .still (Stills.get.bind fun _ => .pure _)
    fun token => ?_
  split
  · exact .last .throw
  · exact .still (stills_expectCurrent _) fun _ => .last (stills_emitWith _)

omit [Number N] in
theorem ifStatement (allows : outline.Allows .ifStatement) :
    Stays outline (Control.ifStatement : Control N Unit) := by
  rw [Control.ifStatement]
  refine .still stills_next fun _ => .still (stills_expectNext _) fun _ =>
    .call (allows.to _ Bool.noConfusion Bool.noConfusion rfl) rfl fun _ => .still (stills_expectNext _) fun _ =>
      .still (stills_emitJump _ _) fun _ => .still (stills_emitWith _) fun _ =>
        .call (allows.to _ id Bool.noConfusion rfl) rfl fun _ => .still (stills_emitJump _ _) fun _ =>
          .still (stills_emitWith _) fun _ => .still (stills_emitWith _) fun _ =>
            .still (stills_advanceIfMatch _) fun matched => ?_
  cases matched with
  | true => exact .call (allows.to .statement id Bool.noConfusion rfl) rfl fun _ => .last (stills_emitWith _)
  | false => exact .last (stills_emitWith _)

omit [Number N] in
theorem returnStatement (allows : outline.Allows .returnStatement) :
    Stays outline (Control.returnStatement : Control N Unit) := by
  rw [Control.returnStatement]
  refine .still .get fun compiler => ?_
  split
  · exact .last .throw
  · refine .still stills_next fun _ => .found_or_missing
      (.still (stills_emitDefaultReturnValue _) fun _ => .last (stills_emitWith _))
      (.still .get fun compiler => ?_)
    split
    · exact .still (Stills.get.bind fun _ => .pure _) fun _ => .last .throw
    · exact .call (allows.to _ Bool.noConfusion Bool.noConfusion rfl) rfl fun _ => .still (stills_expectNext _) fun _ =>
        .last (stills_emitWith _)

omit [Number N] in
theorem whileStatement (allows : outline.Allows .whileStatement) :
    Stays outline (Control.whileStatement : Control N Unit) :=
  .still stills_next fun _ => .still (Stills.get.bind fun _ => .pure _) fun _ =>
    .still (stills_expectNext _) fun _ => .call (allows.to _ Bool.noConfusion Bool.noConfusion rfl) rfl fun _ =>
      .still (stills_expectNext _) fun _ => .still (stills_emitJump _ _) fun _ =>
        .still (stills_emitWith _) fun _ => .call (allows.to _ id Bool.noConfusion rfl) rfl fun _ =>
          .still (stills_emitWith _) fun _ => .still (stills_emitWith _) fun _ =>
            .last (stills_emitWith _)

omit [Number N] in
theorem statement (allows : outline.Allows .statement) :
    Stays outline (Control.statement : Control N Unit) := by
  rw [Control.statement]
  refine .still (Stills.get.bind fun _ => .pure _) fun token => ?_
  split
  · exact .tail (allows.to _ id Bool.noConfusion rfl) rfl
  · exact .tail (allows.to _ id Bool.noConfusion rfl) rfl
  · exact .tail (allows.to _ id Bool.noConfusion rfl) rfl
  · exact .tail (allows.to _ Bool.noConfusion Bool.noConfusion rfl) rfl
  · exact .tail (allows.to _ Bool.noConfusion Bool.noConfusion rfl) rfl
  · exact .tail (allows.to _ id Bool.noConfusion rfl) rfl
  · exact .tail (allows.to _ Bool.noConfusion Bool.noConfusion rfl) rfl

theorem methodLoop (allows : outline.Allows .methodLoop) :
    Stays outline (Control.methodLoop : Control N Unit) := by
  rw [Control.methodLoop]
  refine .still (Stills.get.bind fun _ => .pure _) fun token => ?_
  split
  · exact .still stills_next fun _ => .call (allows.to _ Bool.noConfusion Bool.noConfusion rfl) rfl fun _ =>
      .still (stills_emitFunction _ _ _) fun _ => .still (stills_emitName _ _ _) fun _ =>
        .tail allows rfl
  · exact .done ()

omit [Number N] in
/-- A scope, whatever it declares. -/
theorem inScope {inside : Control N α} {token : α → SourceMapToken Text}
    (inner : ∀ middle, At outline.deeper middle →
      Goes inside (fun _ => Leaves true outline.deeper) middle) :
    Stays outline (Control.inScope inside token) := by
  intro before here
  rw [← bind_done (Control.inScope inside token)]
  exact Goes.inScope here inner fun after there => Goes.done there there.outline

end Stays

omit [Number N] in
/-- Where only scopes are left, the function has not declared anything. -/
theorem Leaves.nil {declares : Bool} {after : Compiler N} (same : after.outline = outline) :
    Leaves declares outline after := ⟨[], same, .nil outline, fun _ => rfl⟩

omit [Number N] in
theorem Stays.leaves {routine : Control N α} {declares : Bool} {before : Compiler N}
    (stays : Stays outline routine) (here : At outline before) :
    Goes routine (fun _ => Leaves declares outline) before :=
  (stays before here).mono (fun _ => id) fun _ _ => .nil

theorem Outline.Allows.deeper {outer : Proc} (allows : outline.Allows outer) (inner : Proc)
    (settles : outer.settles = true) : outline.deeper.Allows inner :=
  ⟨allows.ready.deeper, fun _ => nofun, fun _ => allows.settled settles, fun _ => Nat.succ_pos _⟩

theorem Outline.Allows.declare {outer : Proc} (allows : outline.Allows outer)
    {declared : List Declared} (declares : outline.Declares declared) :
    (outline.declare declared).Allows outer :=
  ⟨allows.ready, fun bare => (allows.bare bare).declare declares, fun settles => (allows.settled settles).declare declares,
    allows.inside⟩

namespace Goes

variable {before : Compiler N}

omit [Number N] in
/-- The last call, after what was declared before it. -/
theorem tail {procedure : Proc} {declares : Bool} (declared : List Declared)
    (here : At (outline.declare declared) before) (earlier : outline.Declares declared)
    (allows : (outline.declare declared).Allows procedure) (some_ : declares = true) :
    Goes (Control.call procedure : Control N _) (fun _ => Leaves declares outline) before :=
  call here allows fun _ after more later _ there => by
    refine done there ⟨more ++ declared, ?_, earlier.append ⟨later.depth, later.initialized, later.top⟩,
      fun none => absurd (some_.symm.trans none) nofun⟩
    rw [there.outline, Outline.declare_declare]

theorem declarationLoop {isEnd : TokenType → Bool} (allows : outline.Allows (.declarationLoop isEnd))
    (here : At outline before) :
    Goes (Control.body (.declarationLoop isEnd)) (fun _ => Leaves true outline) before := by
  refine still here (Stills.get.bind fun _ => .pure _) fun token middle _ there => ?_
  split
  · exact done there (.nil there.outline)
  · refine call there (allows.to _ id Bool.noConfusion rfl) fun _ after declared declares _ there => ?_
    exact tail _ there declares (allows.declare declares) rfl

theorem forInitializer (allows : outline.Allows .forInitializer) (here : At outline before) :
    Goes (Control.body .forInitializer) (fun _ => Leaves true outline) before := by
  refine still here (stills_advanceIfMatch _) fun matched middle _ there => ?_
  cases matched with
  | true => exact done there (.nil there.outline)
  | false =>
      refine still there (Stills.get.bind fun _ => .pure _) fun token after _ there => ?_
      split
      · exact tail [] there (.nil outline) (allows.to _ id Bool.noConfusion rfl) rfl
      · exact tail [] there (.nil outline) (allows.to _ Bool.noConfusion Bool.noConfusion rfl) rfl

omit [Number N] in
theorem parameterLoop (allows : outline.Allows .parameterLoop) (here : At outline before) :
    Goes (Control.parameterLoop) (fun _ => Leaves true outline) before := by
  refine still here (stills_expectCurrent _) fun token middle _ there => ?_
  refine trackLocal there (allows.settled rfl) fun after there _ => ?_
  have declares := declares_single ⟨token.lexeme, outline.scopeDepth, true⟩ rfl rfl
    (allows.inside rfl)
  refine still there (stills_advanceIfMatch _) fun matched last _ there => ?_
  have leaves {last : Compiler N} (there : At _ last) : Leaves true outline last :=
    ⟨_, there.outline, declares, nofun⟩
  cases matched with
  | true =>
      refine call there (allows.declare declares) fun count after more later _ there => ?_
      refine done there ⟨_, there.outline.trans (Outline.declare_declare _ _ _), ?_, nofun⟩
      exact declares.append ⟨later.depth, later.initialized, later.top⟩
  | false => exact still there (stills_expectNext _) fun _ after _ there => done there (leaves there)

theorem parameters (allows : outline.Allows .parameters) (here : At outline before) :
    Goes (Control.body .parameters) (fun _ => Leaves true outline) before := by
  refine still here (stills_advanceIfMatch _) fun matched middle _ there => ?_
  cases matched with
  | true => exact done there (.nil there.outline)
  | false => exact tail [] there (.nil outline) (allows.to .parameterLoop id id rfl) rfl

omit [Number N] in
theorem functionRest {token : SourceMapToken Text} (allows : outline.Allows (.functionRest token))
    (here : At outline before) :
    Goes (Control.functionRest token) (fun _ => Leaves true outline) before := by
  refine still here (stills_expectNext _) fun _ _ _ there => ?_
  refine call there (allows.to .parameters id id rfl) fun count _ one declares _ there => ?_
  refine still there (stills_expectNext _) fun _ _ _ there => ?_
  refine call there ((allows.declare declares).to (.declarationLoop _) id Bool.noConfusion rfl)
    fun _ _ two later _ there => ?_
  refine still there (stills_expectNext _) fun _ _ _ there => ?_
  refine still there (stills_emitDefaultReturnValue _) fun _ _ _ there => ?_
  refine still there (stills_emitWith _) fun _ after _ there => ?_
  refine done there ⟨_, there.outline.trans (Outline.declare_declare _ _ _), ?_, nofun⟩
  exact declares.append ⟨later.depth, later.initialized, later.top⟩

omit [Number N] in
theorem blockScope (allows : outline.deeper.Allows (.declarationLoop atBlockEnd))
    (here : At outline.deeper before) :
    Goes Control.blockScope (fun _ => Leaves true outline.deeper) before := by
  refine call here allows fun _ _ declared declares _ there => ?_
  refine still there (stills_expectCurrent _) fun _ _ _ there => ?_
  exact done there ⟨declared, there.outline, declares, nofun⟩

omit [Number N] in
theorem forScope {token : SourceMapToken Text} (allows : outline.Allows .forInitializer)
    (here : At outline before) :
    Goes (Control.forScope token) (fun _ => Leaves true outline) before := by
  refine still here (stills_expectNext _) fun _ _ _ there => ?_
  refine call there allows fun _ _ declared declares _ there => ?_
  have allows := allows.declare declares
  have rest : Stays (outline.declare declared) (do
      let conditionBeginBytecodeIndex ← perform bytecodeSize
      Control.call (.forCondition token)
      let toEndJumpBackpatch ← perform (emitJump .jumpIfFalse token)
      let toBodyJumpBackpatch ← perform (emitJump .jump token)
      let incrementBeginBytecodeIndex ← perform bytecodeSize
      Control.call (.forIncrement token)
      let _ ← perform (expectNext .rightParen)
      perform (emitLoop conditionBeginBytecodeIndex token)
      perform (toNextOpcode toBodyJumpBackpatch)
      perform (emit .pop token)
      Control.call .statement
      perform (emitLoop incrementBeginBytecodeIndex token)
      perform (toNextOpcode toEndJumpBackpatch)
      perform (emit .pop token) : Control N Unit) :=
    .still (Stills.get.bind fun _ => .pure _) fun _ => .call (allows.to _ Bool.noConfusion Bool.noConfusion rfl) rfl fun _ =>
      .still (stills_emitJump _ _) fun _ => .still (stills_emitJump _ _) fun _ =>
        .still (Stills.get.bind fun _ => .pure _) fun _ => .call (allows.to _ Bool.noConfusion Bool.noConfusion rfl) rfl fun _ =>
          .still (stills_expectNext _) fun _ => .still (stills_emitWith _) fun _ =>
            .still (stills_emitWith _) fun _ => .still (stills_emitWith _) fun _ =>
              .call (allows.to _ id Bool.noConfusion rfl) rfl fun _ => .still (stills_emitWith _) fun _ =>
                .still (stills_emitWith _) fun _ => .last (stills_emitWith _)
  exact (rest _ there).mono (fun _ => id) fun _ _ same => ⟨declared, same, declares, nofun⟩

theorem superclassScope {token : SourceMapToken Text} (allows : outline.Allows .classBody)
    (settled : outline.Settled) (inside : 0 < outline.scopeDepth) (here : At outline before) :
    Goes (Control.superclassScope token) (fun _ => Leaves true outline) before := by
  refine mayCapture here (mayCapture_emitGetter _) fun _ _ _ there => ?_
  refine trackLocal there settled fun after there _ => ?_
  have declares := declares_single ⟨superName, outline.scopeDepth, true⟩ rfl rfl inside
  have rest : Stays (outline.declare [⟨superName, outline.scopeDepth, true⟩]) (do
      perform (emit .inherit token)
      Control.call .classBody
      perform (emit .pop token) : Control N Unit) :=
    .still (stills_emitWith _) fun _ => .call (allows.declare declares) rfl fun _ =>
      .last (stills_emitWith _)
  exact (rest _ there).mono (fun _ => id) fun _ _ same => ⟨_, same, declares, nofun⟩

theorem function {isClassInitMethod : Bool} {first : Option (SourceMapToken Text)}
    {token : SourceMapToken Text} (ready : outline.Ready) (here : At outline before) :
    Goes (Control.body (.function isClassInitMethod first token))
      (fun _ after => after.outline = outline) before := by
  have allows (procedure : Proc) : outline.enter.Allows procedure :=
    ⟨here.orderly.ready_enter ready, fun _ => nofun, fun _ => outline.settled_enter,
      fun _ => Nat.succ_pos _⟩
  rw [Control.body, ← bind_done (Control.inFunction isClassInitMethod _)]
  refine inFunction here (fun middle there => ?_) fun _ after there => done there there.outline
  cases first with
  | none => exact tail [] there (.nil _) (allows _) rfl
  | some token =>
      refine trackLocal there outline.settled_enter fun after there _ => ?_
      have declares := declares_single ⟨token.lexeme, outline.enter.scopeDepth, true⟩ rfl rfl
        (Nat.succ_pos _)
      exact tail _ there declares ((allows _).declare declares) rfl

omit [Number N] in
/-- The placeholder stands where a global class is not tracked. -/
theorem subclass {className superclassName : Token} {rest : Unit → Control N β}
    {post : β → Compiler N → Prop} (allows : outline.Allows .classDeclaration)
    (here : At outline before)
    (two : ∀ after, At outline after → Goes (rest ()) post after) :
    Goes (Control.subclass className superclassName >>= rest) post before := by
  rw [Control.subclass]
  simp only [Routine.assoc]
  refine still here (stills_ensureOtherClass _ _) fun _ middle _ there => get there ?_
  have depth : middle.scopeDepth = outline.scopeDepth := congrArg Outline.scopeDepth there.outline
  by_cases zero : outline.scopeDepth = 0
  · let placed := outline.declare [⟨[], 0, true⟩]
    have bare : outline.back = [] := allows.bare rfl zero
    have orderly : placed.Orderly := there.orderly.declare (allows.settled rfl) zero.symm fun _ member => by
      rw [bare] at member
      cases member
    have scope : placed.Allows (.superclassScope superclassName) :=
      ⟨allows.ready, Bool.noConfusion,
        fun _ => List.forall_mem_cons.mpr ⟨rfl, allows.settled rfl⟩, Bool.noConfusion⟩
    rw [depth, zero]
    refine act there fun _ after runs => ?_
    cases runs
    have pushes : middle.Moves { middle with back := { middle.back with
        trackedLocals := { name := [] } :: middle.back.trackedLocals } } := .declares _ rfl rfl rfl rfl
    refine ⟨pushes, call (there.to pushes ?_ orderly) scope fun _ last declared _ none inside => ?_⟩
    · exact congrArg (Outline.declare · [⟨[], 0, true⟩]) there.outline
    obtain rfl := none rfl
    have depth : last.scopeDepth = 0 := (congrArg Outline.scopeDepth inside.outline).trans zero
    refine get inside ?_
    rw [depth]
    refine act inside fun _ after runs => ?_
    cases runs
    have back : last.back.declared = ⟨[], 0, true⟩ :: outline.back := congrArg Outline.back inside.outline
    cases locals : last.back.trackedLocals with
    | nil =>
        rw [FunctionChunk.declared, locals] at back
        cases back
    | cons tracked others =>
        have pops : last.Moves { last with back := { last.back with
            trackedLocals := last.back.trackedLocals.tail } } :=
          .drops tracked (by rw [locals]; rfl) rfl rfl
        refine ⟨pops, two _ (inside.to pops ?_ there.orderly)⟩
        rw [FunctionChunk.declared, locals] at back
        change Outline.mk last.scopeDepth (last.back.trackedLocals.tail.map (·.declared))
          (last.enclosing.map (·.declared)) = outline
        rw [locals, List.tail_cons, (List.cons_eq_cons.mp back).2,
          show last.scopeDepth = _ from congrArg Outline.scopeDepth inside.outline,
          show last.enclosing.map (·.declared) = _ from congrArg Outline.enclosing inside.outline]
        rfl
  · have other : middle.scopeDepth ≠ 0 := depth ▸ zero
    rw [optionally, if_neg (by simpa using other)]
    refine still there (.pure ()) fun _ _ _ there => call there (allows.to _ id Bool.noConfusion rfl)
      fun _ last declared _ none there => ?_
    obtain rfl := none rfl
    have other : last.scopeDepth ≠ 0 := by
      rwa [show last.scopeDepth = _ from congrArg Outline.scopeDepth there.outline]
    refine get there ?_
    rw [optionally, if_neg (by simpa using other)]
    exact still there (.pure ()) fun _ after _ there => two after there

theorem classDeclaration (allows : outline.Allows .classDeclaration)
    (here : At outline before) :
    Goes Control.classDeclaration (fun _ => Leaves true outline) before := by
  refine still here stills_next fun classToken _ _ there => still there (stills_expectCurrent _)
    fun className _ _ there => still there (stills_emitName _ _ _) fun _ _ _ there => get there ?_
  refine trackInside there (allows.settled rfl) fun _ declared listed there _ => ?_
  have declares : outline.Declares declared := listed ▸ declares_inside outline className.lexeme
  have allows := allows.declare declares
  refine still there (stills_advanceIfMatch _) fun matched _ _ there => ?_
  have last {after : Compiler N} (there : At (outline.declare declared) after) :
      Goes (perform (defineGlobalAtTop className.lexeme (sourceMapToken classToken)))
        (fun _ => Leaves true outline) after :=
    (Stays.last (stills_defineGlobalAtTop _ _) _ there).mono (fun _ => id) fun _ _ same =>
      ⟨declared, same, declares, nofun⟩
  cases matched with
  | true =>
      exact still there (stills_expectCurrent _) fun _ _ _ there => subclass allows there
        fun _ there => last there
  | false =>
      refine call there (allows.to .classBody Bool.noConfusion Bool.noConfusion rfl) fun _ _ _ _ none there => ?_
      obtain rfl := none rfl
      exact last there

theorem funDeclaration (allows : outline.Allows .funDeclaration) (here : At outline before) :
    Goes Control.funDeclaration (fun _ => Leaves true outline) before := by
  refine still here stills_next fun _ _ _ there => still there (stills_expectCurrent _)
    fun funName _ _ there => call there (allows.to _ Bool.noConfusion Bool.noConfusion rfl) fun _ _ _ _ none there => ?_
  obtain rfl := none rfl
  refine still there (stills_emitFunction _ _ _) fun _ _ _ there =>
    still there (stills_defineGlobalAtTop _ _) fun _ _ _ there => get there ?_
  rw [← bind_done (perform (optionally _ _))]
  refine trackInside there (allows.settled rfl) fun _ declared listed there _ => ?_
  exact done there ⟨declared, there.outline, listed ▸ declares_inside outline funName.lexeme, nofun⟩

/-- The local that waits for its value is the one that gets it. -/
theorem varDeclaration (allows : outline.Allows .varDeclaration) (here : At outline before) :
    Goes Control.varDeclaration (fun _ after => Leaves true outline after ∧
      (0 < outline.scopeDepth → ∃ name, before.tokenIter.advance = .ok name ∧
        after.outline = outline.declare [⟨name.token.lexeme, outline.scopeDepth, true⟩])) before := by
  rw [Control.varDeclaration]
  refine still here stills_next fun varToken named takes there => ?_
  refine still there (stills_expectCurrent _) fun name middle expects there => get there ?_
  have advances := (next_run takes).2
  obtain rfl : name = named.tokenIter.token := by
    rw [expectCurrent, run_current_bind] at expects
    obtain ⟨_, -, expects⟩ := run_lift_bind_ok.mp expects
    exact (next_run expects).1
  refine trackInside there (allows.settled rfl) fun _ declared listed there _ => ?_
  have value : (outline.declare declared).Allows (.initializer (sourceMapToken varToken)) := by
    refine ⟨allows.ready, fun _ (zero : outline.scopeDepth = 0) => ?_, Bool.noConfusion,
      Bool.noConfusion⟩
    rw [listed, if_pos zero]
    exact allows.bare rfl zero
  simp only [Control.variableValue, Routine.assoc]
  refine call there value fun _ _ _ _ none there => ?_
  obtain rfl := none rfl
  refine still there (stills_expectNext _) fun _ _ _ there =>
    still there (stills_defineGlobalAtTop _ _) fun _ last _ there => get there ?_
  have depth : last.scopeDepth = outline.scopeDepth := congrArg Outline.scopeDepth there.outline
  rw [← bind_done (perform (optionally _ _))]
  by_cases zero : outline.scopeDepth = 0
  · rw [listed, if_pos zero] at there
    rw [depth, zero]
    refine still there (.pure ()) fun _ after _ there => done there ⟨.nil there.outline, fun inside => ?_⟩
    exact absurd inside (Nat.lt_irrefl 0)
  · have inside : 0 < outline.scopeDepth := Nat.pos_of_ne_zero zero
    rw [listed, if_neg zero] at there
    rw [depth, optionally, if_pos (decide_eq_true inside)]
    refine act there fun _ after runs => ?_
    have back : last.back.declared = ⟨named.tokenIter.token.lexeme, outline.scopeDepth, false⟩ :: outline.back :=
      congrArg Outline.back there.outline
    cases locals : last.back.trackedLocals with
    | nil =>
        rw [FunctionChunk.declared, locals] at back
        cases back
    | cons tracked others =>
        rw [FunctionChunk.declared, locals] at back
        obtain ⟨head, below⟩ := List.cons_eq_cons.mp back
        have gets : last.Moves { last with back := { last.back with
            trackedLocals := { tracked with initialized := true } :: others } } :=
          .initializes tracked others locals rfl rfl rfl
        have orderly : (outline.declare [⟨named.tokenIter.token.lexeme, outline.scopeDepth, true⟩]).Orderly := by
          obtain ⟨here, others⟩ := List.forall_mem_cons.mp there.orderly
          exact List.forall_mem_cons.mpr ⟨here.head rfl rfl, others⟩
        have same : ({ last with back := { last.back with
            trackedLocals := { tracked with initialized := true } :: others } } :
              Compiler N).outline =
              outline.declare [⟨named.tokenIter.token.lexeme, outline.scopeDepth, true⟩] := by
          change Outline.mk last.scopeDepth (⟨tracked.name, tracked.depth, true⟩ ::
            others.map (·.declared)) (last.enclosing.map (·.declared)) = _
          rw [below, depth, show tracked.name = _ from congrArg Declared.name head,
            show tracked.depth = _ from congrArg Declared.depth head,
            show last.enclosing.map (·.declared) = _ from congrArg Outline.enclosing there.outline]
          rfl
        have there := there.to gets same orderly
        obtain rfl := initializeBack_run locals runs
        refine ⟨gets, done there ⟨⟨_, same, ?_, Bool.noConfusion⟩,
          fun _ => ⟨named.tokenIter, advances, same⟩⟩⟩
        exact declares_single ⟨_, outline.scopeDepth, true⟩ rfl rfl inside

end Goes

/-- A function that declares nothing keeps its contract. -/
theorem Stays.keeps {procedure : Proc} {before : Compiler N}
    (stays : Stays outline (Control.body procedure : Control N _))
    (here : At outline before) (other : procedure ≠ .varDeclaration) :
    Goes (Control.body procedure) ((tracking N).ensures procedure before) before :=
  (stays.leaves here).mono (fun _ => id) fun _ _ leaves =>
    ⟨here.outline ▸ leaves, fun same => absurd same other⟩

theorem tracking_kept : (tracking N).Kept Control.body where
  trans _ _ := trivial
  body procedure before holds allows := by
    have here : At before.outline before := ⟨holds, rfl⟩
    have allows : before.outline.Allows procedure := allows
    have quiet (stays : Stays before.outline (Control.body procedure : Control N _))
        (other : procedure ≠ .varDeclaration) := stays.keeps here other
    have declaring (goes : Goes (Control.body procedure)
          (fun _ => Leaves procedure.declares before.outline) before)
        (other : procedure ≠ .varDeclaration) :
        Goes (Control.body procedure) ((tracking N).ensures procedure before) before :=
      goes.mono (fun _ => id) fun _ _ leaves => ⟨leaves, fun same => absurd same other⟩
    cases procedure with
    | primary => exact quiet (.primary allows) nofun
    | call =>
        exact quiet (.still (Stills.get.bind fun _ => .pure _) fun _ =>
          .call (allows.to .primary Bool.noConfusion Bool.noConfusion rfl) rfl fun _ =>
            .tail (allows.to (.callLoop _) Bool.noConfusion Bool.noConfusion rfl) rfl) nofun
    | callLoop calleeToken => exact quiet (.callLoop allows) nofun
    | arguments =>
        exact quiet (.found_or_missing (.done _) (.call (allows.to .argumentLoop Bool.noConfusion Bool.noConfusion rfl) rfl
          fun _ => .still (stills_expectNext _) fun _ => .done _)) nofun
    | argumentLoop =>
        exact quiet (.call (allows.to .assignment Bool.noConfusion Bool.noConfusion rfl) rfl fun _ =>
          .found_or_missing (.call allows rfl fun _ => .done _) (.done _)) nofun
    | unary => exact quiet (.unary allows) nofun
    | level level =>
        exact quiet (.callOperand (allows.to .unary Bool.noConfusion Bool.noConfusion rfl) level
          (.tail (allows.to (.operatorLoop level) Bool.noConfusion Bool.noConfusion rfl) rfl)) nofun
    | operatorLoop level => exact quiet (.operatorLoop allows) nofun
    | assignment => exact quiet (.assignment allows) nofun
    | expressionStatement => exact quiet (.expressionStatement allows) nofun
    | parameterLoop => exact declaring (Goes.parameterLoop allows here) nofun
    | parameters => exact declaring (Goes.parameters allows here) nofun
    | functionRest token => exact declaring (Goes.functionRest allows here) nofun
    | declarationLoop isEnd => exact declaring (Goes.declarationLoop allows here) nofun
    | ifStatement => exact quiet (.ifStatement allows) nofun
    | forInitializer => exact declaring (Goes.forInitializer allows here) nofun
    | forCondition token =>
        exact quiet (.found_or_missing (.last (stills_emitWith _))
          (.call (allows.to .assignment Bool.noConfusion Bool.noConfusion rfl) rfl fun _ =>
            .still (stills_expectNext _) fun _ => .done ())) nofun
    | forIncrement token =>
        refine quiet (.still (Stills.get.bind fun _ => .pure _) fun token => ?_) nofun
        split
        · exact .done ()
        · exact .call (allows.to .assignment Bool.noConfusion Bool.noConfusion rfl) rfl fun _ => .last (stills_emitWith _)
    | forStatement =>
        exact quiet (.still stills_next fun token =>
          .tail (allows.to (.forScope (sourceMapToken token)) id Bool.noConfusion rfl) rfl) nofun
    | block =>
        exact quiet (.still stills_next fun _ => .tail (allows.to .blockScope id Bool.noConfusion rfl) rfl) nofun
    | printStatement =>
        exact quiet (.still stills_next fun _ => .call (allows.to .assignment Bool.noConfusion Bool.noConfusion rfl) rfl
          fun _ => .still (stills_expectNext _) fun _ => .last (stills_emitWith _)) nofun
    | returnStatement => exact quiet (.returnStatement allows) nofun
    | whileStatement => exact quiet (.whileStatement allows) nofun
    | statement => exact quiet (.statement allows) nofun
    | methodLoop => exact quiet (.methodLoop allows) nofun
    | classBody =>
        exact quiet (.still (stills_expectNext _) fun _ =>
          .call (allows.to .methodLoop Bool.noConfusion Bool.noConfusion rfl) rfl fun _ =>
            .still (stills_expectNext _) fun _ => .done ()) nofun
    | classDeclaration => exact declaring (Goes.classDeclaration allows here) nofun
    | funDeclaration => exact declaring (Goes.funDeclaration allows here) nofun
    | varDeclaration =>
        exact (Goes.varDeclaration allows here).mono (fun _ => id) fun _ _ ends =>
          ⟨ends.1, fun _ => ends.2⟩
    | initializer token =>
        exact quiet (.found_or_missing (.tail (allows.to .assignment Bool.noConfusion Bool.noConfusion rfl) rfl)
          (.last (stills_emitWith _))) nofun
    | declaration =>
        refine declaring (Goes.still here (Stills.get.bind fun _ => .pure _)
          fun token middle _ there => ?_) nofun
        split
        · exact Goes.tail [] there (.nil _) (allows.to .classDeclaration id Bool.noConfusion rfl) rfl
        · exact Goes.tail [] there (.nil _) (allows.to .funDeclaration id Bool.noConfusion rfl) rfl
        · exact Goes.tail [] there (.nil _) (allows.to .varDeclaration id Bool.noConfusion rfl) rfl
        · exact Goes.tail [] there (.nil _) (allows.to .statement id Bool.noConfusion rfl) rfl
    | blockScope =>
        exact quiet (.inScope fun _ => Goes.blockScope (allows.deeper _ rfl)) nofun
    | forScope token =>
        exact quiet (.inScope fun _ => Goes.forScope (allows.deeper _ rfl)) nofun
    | superclassScope name =>
        exact quiet (.inScope fun _ => Goes.superclassScope (allows.deeper _ rfl)
          (allows.settled rfl) (Nat.succ_pos _)) nofun
    | function isClassInitMethod first token =>
        exact (Goes.function allows.ready here).mono (fun _ => id) fun _ _ same =>
          ⟨.nil same, nofun⟩

end Cpplox
