import Cpplox.Compiler.Machine

namespace Cpplox

open Data Routine TokenIterator Dialect

/-! Every cycle through the functions of the compiler reads a token. -/

/-- This many tokens lie between the two, none of them the end. -/
def TokenIterator.Reads (before after : TokenIterator) (count : Nat) : Prop :=
  ∃ types, before.Consumes types after ∧ .eof ∉ types ∧ types.length = count

namespace TokenIterator.Reads

variable {before middle after : TokenIterator} {count more : Nat}

theorem refl (iter : TokenIterator) : iter.Reads iter 0 := ⟨[], rfl, List.not_mem_nil, rfl⟩

theorem trans (first : before.Reads middle count) (second : middle.Reads after more) :
    before.Reads after (count + more) := by
  obtain ⟨types, consumes, inside, rfl⟩ := first
  obtain ⟨others, laterConsumes, laterInside, rfl⟩ := second
  refine ⟨types ++ others, consumes.append laterConsumes, ?_, List.length_append⟩
  rw [List.mem_append]
  exact not_or.mpr ⟨inside, laterInside⟩

theorem advance (advances : before.advance = .ok after) (inside : before.token.type ≠ .eof) :
    before.Reads after 1 :=
  ⟨[before.token.type], .single rfl advances, by simpa using inside.symm, rfl⟩

theorem remaining (reads : before.Reads after count) :
    after.remaining + count ≤ before.remaining := by
  obtain ⟨types, consumes, inside, rfl⟩ := reads
  exact consumes.remaining inside

end TokenIterator.Reads

namespace Proc

/-- How far a function is from the tokens: without reading one, it calls only lower ones. -/
def rank : Proc → Nat
  | blockScope => 15
  | declarationLoop _ | forInitializer => 14
  | declaration => 13
  | statement | arguments => 12
  | expressionStatement | argumentLoop | forCondition _ | forIncrement _ => 11
  | assignment => 10
  | level .or_ => 9
  | level .and_ => 8
  | level .equality => 7
  | level .comparison => 6
  | level .term => 5
  | level .factor => 4
  | unary => 3
  | call | parameters | superclassScope _ | function _ _ _ => 2
  | _ => 1

/-- The tokens that a function reads at least. -/
def least : Proc → Nat
  | declaration | statement | expressionStatement | ifStatement | forStatement | block
  | printStatement | returnStatement | whileStatement
  | classDeclaration | funDeclaration | varDeclaration => 1
  | _ => 0

/-- The keyword that a function is called at. -/
def keyword : Proc → Option TokenType
  | ifStatement => some .if_
  | forStatement => some .for_
  | block => some .leftBrace
  | printStatement => some .print
  | returnStatement => some .return_
  | whileStatement => some .while_
  | classDeclaration => some .class_
  | funDeclaration => some .fun_
  | varDeclaration => some .var
  | _ => none

/-- The same function, perhaps with other tokens. -/
inductive Same : Proc → Proc → Prop where
  | refl (procedure : Proc) : Same procedure procedure
  | callLoop (one other : SourceMapToken Text) : Same (callLoop one) (callLoop other)
  | functionRest (one other : SourceMapToken Text) : Same (functionRest one) (functionRest other)
  | declarationLoop (one other : TokenType → Bool) :
      Same (declarationLoop one) (declarationLoop other)
  | forCondition (one other : SourceMapToken Text) : Same (forCondition one) (forCondition other)
  | forIncrement (one other : SourceMapToken Text) : Same (forIncrement one) (forIncrement other)
  | initializer (one other : SourceMapToken Text) : Same (initializer one) (initializer other)
  | forScope (one other : SourceMapToken Text) : Same (forScope one) (forScope other)
  | superclassScope (one other : Token) : Same (superclassScope one) (superclassScope other)
  | function (isClassInitMethod laterIsClassInitMethod : Bool)
      (first laterFirst : Option (SourceMapToken Text)) (one other : SourceMapToken Text) :
      Same (function isClassInitMethod first one) (function laterIsClassInitMethod laterFirst other)

theorem Same.rank {one other : Proc} (same : Same one other) : other.rank = one.rank := by
  cases same <;> rfl

end Proc

variable {N α β : Type}

section

variable {before after : Compiler N} {token : Token} {type : TokenType}

theorem expectNext_run (runs : (expectNext type).run before = .ok (token, after)) :
    before.tokenIter.token.type = type ∧ before.tokenIter.advance = .ok after.tokenIter := by
  obtain ⟨_, _, takes, runs⟩ := run_bind_ok.mp runs
  obtain ⟨_, ensures, runs⟩ := run_lift_bind_ok.mp runs
  cases runs
  obtain ⟨rfl, advances⟩ := next_run takes
  exact ⟨ensureTokenIs_ok ensures, advances⟩

theorem expectCurrent_run (runs : (expectCurrent type).run before = .ok (token, after)) :
    before.tokenIter.token.type = type ∧ before.tokenIter.advance = .ok after.tokenIter := by
  rw [expectCurrent, run_current_bind] at runs
  obtain ⟨_, ensures, takes⟩ := run_lift_bind_ok.mp runs
  exact ⟨ensureTokenIs_ok ensures, (next_run takes).2⟩

theorem advanceIfMatch_found (runs : (advanceIfMatch type).run before = .ok (true, after)) :
    before.tokenIter.token.type = type ∧ before.tokenIter.advance = .ok after.tokenIter := by
  rw [advanceIfMatch, run_current_bind] at runs
  split at runs
  next same =>
      obtain ⟨_, _, takes, runs⟩ := run_bind_ok.mp runs
      cases runs
      exact ⟨same, (next_run takes).2⟩
  next => cases runs

theorem advanceIfMatch_missing (runs : (advanceIfMatch type).run before = .ok (false, after)) :
    after = before := by
  rw [advanceIfMatch, run_current_bind] at runs
  split at runs
  next =>
      obtain ⟨_, _, _, runs⟩ := run_bind_ok.mp runs
      cases runs
  next =>
      cases runs
      rfl

theorem lookAhead_run {iter : TokenIterator} {found : Option (List Token × TokenIterator)}
    (runs : (Control.lookAhead iter).run before = .ok (found, after)) :
    peekAssignment (iter.remaining + 1) iter = .ok found ∧ after = before := by
  rw [Control.lookAhead] at runs
  cases peeks : peekAssignment (iter.remaining + 1) iter with
  | error error =>
      rw [peeks] at runs
      cases runs
  | ok result =>
      rw [peeks] at runs
      cases runs
      exact ⟨rfl, rfl⟩

/-- No token is read, also where the target is `this` and nothing is emitted. -/
theorem emitAssignment_iter [Number N] {target equalToken : Token} {names : List Token} {done : Unit}
    (runs : (emitAssignment target equalToken names).run before = .ok (done, after)) :
    after.tokenIter = before.tokenIter := by
  by_cases other : names ≠ [] ∨ target.lexeme ≠ thisName
  · exact (quiet_emitAssignment other).iter runs
  · obtain ⟨empty, isThis⟩ := not_or.mp other
    obtain rfl := not_not.mp empty
    exact absurd (not_not.mp isThis) (emitAssignment_target runs)

theorem quiet_ensureOtherClass (className superclassName : Token) :
    Quiet (Control.ensureOtherClass className superclassName : CompileM N Unit) := by
  rw [Control.ensureOtherClass]
  split
  · exact .throw (.selfInheritance _)
  · exact .pure ()

theorem quiet_pushPlaceholder : Quiet (Control.pushPlaceholder : CompileM N Unit) :=
  .modify (fun _ => rfl) fun _ => rfl

theorem quiet_popPlaceholder : Quiet (Control.popPlaceholder : CompileM N Unit) :=
  .modify (fun _ => rfl) fun _ => rfl

/-- The function that is left is inside the one that is returned to. -/
theorem leaveFunction_run {result : α} {left : α × FunctionChunk (Chunk.Compiled N)}
    (runs : (Control.leaveFunction result).run before = .ok (left, after)) :
    after.tokenIter = before.tokenIter ∧ after.scopeDepth = before.scopeDepth - 1 ∧
      left = (result, before.back) ∧ before.enclosing = after.back :: after.enclosing := by
  obtain ⟨_, _, gets, runs⟩ := run_bind_ok.mp runs
  cases gets
  split at runs
  next => cases runs
  next outer rest enclosing =>
      cases runs
      exact ⟨rfl, rfl, rfl, enclosing⟩

end

variable (N) in
def reading : Contract (Compiler N) (Proc.Result N) where
  holds _ := True
  moves _ _ := True
  requires procedure compiler := ∀ type, procedure.keyword = some type →
    compiler.tokenIter.token.type = type
  ensures procedure before _ after :=
    ∃ count, before.tokenIter.Reads after.tokenIter count ∧ procedure.least ≤ count
  nests outer inner := ∃ count, outer.2.tokenIter.Reads inner.2.tokenIter count ∧
    (inner.1.rank < outer.1.rank ∨ 0 < count)

/-- From here on, when this many tokens are read. -/
def Progresses (procedure : Proc) (already : Nat) (routine : Control N α) (compiler : Compiler N) :
    Prop :=
  routine.Meets (reading N)
    (fun call => ∃ count, compiler.tokenIter.Reads call.2.tokenIter count ∧
      (call.1.rank < procedure.rank ∨ 0 < already + count))
    (fun _ after => ∃ count, compiler.tokenIter.Reads after.tokenIter count ∧
      procedure.least ≤ already + count)
    compiler

namespace Progresses

variable {procedure : Proc} {already count : Nat} {routine : Control N α} {rest : α → Control N β}
  {before after : Compiler N} {action : CompileM N α}

theorem done (value : α) (enough : procedure.least ≤ already) :
    Progresses procedure already (.done value) before :=
  ⟨trivial, 0, .refl _, enough⟩

/-- After some tokens. -/
theorem later (reads : before.tokenIter.Reads after.tokenIter count)
    (progresses : Progresses procedure (already + count) routine after) :
    routine.Meets (reading N)
      (fun call => ∃ count, before.tokenIter.Reads call.2.tokenIter count ∧
        (call.1.rank < procedure.rank ∨ 0 < already + count))
      (fun _ after => ∃ count, before.tokenIter.Reads after.tokenIter count ∧
        procedure.least ≤ already + count) after := by
  refine Meets.mono progresses ?_ ?_
  · rintro call ⟨more, further, lower⟩
    exact ⟨count + more, reads.trans further, by rwa [← Nat.add_assoc]⟩
  · rintro _ last ⟨more, further, enough⟩
    exact ⟨count + more, reads.trans further, by rwa [← Nat.add_assoc]⟩

theorem act (read : α → Nat)
    (reads : ∀ value after, action.run before = .ok (value, after) →
      before.tokenIter.Reads after.tokenIter (read value) ∧
        Progresses procedure (already + read value) (rest value) after) :
    Progresses procedure already (perform action >>= rest) before := by
  refine ⟨trivial, fun value after runs => ⟨trivial, ?_⟩⟩
  obtain ⟨here, there⟩ := reads value after runs
  exact there.later here

/-- An action that reads no token. -/
theorem still (same : ∀ value after, action.run before = .ok (value, after) →
      after.tokenIter = before.tokenIter)
    (two : ∀ value after, after.tokenIter = before.tokenIter →
      Progresses procedure already (rest value) after) :
    Progresses procedure already (perform action >>= rest) before :=
  act (fun _ => 0) fun value after runs =>
    ⟨same value after runs ▸ .refl _, two value after (same value after runs)⟩

theorem quiet (quiet : Quiet action)
    (two : ∀ value after, after.tokenIter = before.tokenIter →
      Progresses procedure already (rest value) after) :
    Progresses procedure already (perform action >>= rest) before :=
  still (fun _ _ runs => quiet.iter runs) two

/-- The last action. -/
theorem last (same : ∀ value after, action.run before = .ok (value, after) →
      after.tokenIter = before.tokenIter) (enough : procedure.least ≤ already) :
    Progresses procedure already (perform action) before :=
  still same fun value _ _ => done value enough

theorem throw {error : Error} :
    Progresses procedure already (perform (throw error : CompileM N α)) before :=
  ⟨trivial, nofun⟩

theorem current {rest : Token → Control N β}
    (two : Progresses procedure already (rest before.tokenIter.token) before) :
    Progresses procedure already (perform Cpplox.current >>= rest) before :=
  act (fun _ => 0) fun value after runs => by
    cases runs
    exact ⟨.refl _, two⟩

theorem get {rest : Compiler N → Control N β}
    (two : Progresses procedure already (rest before) before) :
    Progresses procedure already (perform get >>= rest) before :=
  act (fun _ => 0) fun value after runs => by
    cases runs
    exact ⟨.refl _, two⟩

theorem next {rest : Token → Control N β} {type : TokenType}
    (same : before.tokenIter.token.type = type) (inside : type ≠ .eof)
    (two : ∀ after, Progresses procedure (already + 1) (rest before.tokenIter.token) after) :
    Progresses procedure already (perform Cpplox.next >>= rest) before :=
  act (fun _ => 1) fun value after runs => by
    obtain ⟨rfl, advances⟩ := next_run runs
    exact ⟨.advance advances (same ▸ inside), two after⟩

theorem expectNext {rest : Token → Control N β} {type : TokenType} (inside : type ≠ .eof)
    (two : ∀ token after, Progresses procedure (already + 1) (rest token) after) :
    Progresses procedure already (perform (Cpplox.expectNext type) >>= rest) before :=
  act (fun _ => 1) fun token after runs => by
    obtain ⟨same, advances⟩ := expectNext_run runs
    exact ⟨.advance advances (same ▸ inside), two token after⟩

theorem expectCurrent {rest : Token → Control N β} {type : TokenType} (inside : type ≠ .eof)
    (two : ∀ token after, Progresses procedure (already + 1) (rest token) after) :
    Progresses procedure already (perform (Cpplox.expectCurrent type) >>= rest) before :=
  act (fun _ => 1) fun token after runs => by
    obtain ⟨same, advances⟩ := expectCurrent_run runs
    exact ⟨.advance advances (same ▸ inside), two token after⟩

theorem advanceIfMatch {type : TokenType} {found missing : Control N β} (inside : type ≠ .eof)
    (here : ∀ after, Progresses procedure (already + 1) found after)
    (there : Progresses procedure already missing before) :
    Progresses procedure already (do
      if ← perform (Cpplox.advanceIfMatch type) then found else missing) before :=
  act (fun matched => if matched then 1 else 0) fun matched after runs => by
    cases matched with
    | true =>
        obtain ⟨same, advances⟩ := advanceIfMatch_found runs
        exact ⟨.advance advances (same ▸ inside), here after⟩
    | false =>
        obtain rfl := advanceIfMatch_missing runs
        exact ⟨.refl _, there⟩

theorem call {called : Proc} {rest : called.Result N → Control N β}
    (requires : ∀ type, called.keyword = some type → before.tokenIter.token.type = type)
    (lower : called.rank < procedure.rank ∨ 0 < already)
    (two : ∀ value after count, called.least ≤ count →
      Progresses procedure (already + count) (rest value) after) :
    Progresses procedure already (Control.call called >>= rest) before :=
  ⟨trivial, requires, ⟨0, .refl _, lower⟩, fun value after _ ⟨count, reads, enough⟩ =>
    (two value after count enough).later reads⟩

/-- A call that requires nothing. -/
theorem phrase {called : Proc} {rest : called.Result N → Control N β} (free : called.keyword = none)
    (lower : called.rank < procedure.rank ∨ 0 < already)
    (two : ∀ value after count, called.least ≤ count →
      Progresses procedure (already + count) (rest value) after) :
    Progresses procedure already (Control.call called >>= rest) before :=
  call (fun _ same => nomatch free.symm.trans same) lower two

/-- The last call. -/
theorem tail {called : Proc} {procedure : Proc}
    (requires : ∀ type, called.keyword = some type → before.tokenIter.token.type = type)
    (lower : called.rank < procedure.rank ∨ 0 < already)
    (enough : procedure.least ≤ already + called.least) :
    Progresses procedure already (Control.call called) before :=
  call requires lower fun value _ count reads => done value (by omega)

theorem tailPhrase {called : Proc} {procedure : Proc} (free : called.keyword = none)
    (lower : called.rank < procedure.rank ∨ 0 < already)
    (enough : procedure.least ≤ already + called.least) :
    Progresses procedure already (Control.call called) before :=
  tail (fun _ same => nomatch free.symm.trans same) lower enough

theorem inFunction {isClassInitMethod : Bool} {inside : Control N α}
    {rest : α × FunctionChunk (Chunk.Compiled N) → Control N β}
    (two : ∀ middle, Progresses procedure already (do
      let result ← inside
      rest (← perform (Control.leaveFunction result))) middle) :
    Progresses procedure already (Control.inFunction isClassInitMethod inside >>= rest) before := by
  rw [Control.inFunction, Routine.assoc]
  refine still ?_ fun _ middle _ => ?_
  · rintro _ _ ⟨⟩
    rfl
  · rw [Routine.assoc]
    exact two middle

theorem leaveFunction {result : α} {rest : α × FunctionChunk (Chunk.Compiled N) → Control N β}
    (two : ∀ value after, Progresses procedure already (rest value) after) :
    Progresses procedure already (perform (Control.leaveFunction result) >>= rest) before :=
  still (fun _ _ runs => (leaveFunction_run runs).1) fun value after _ => two value after

theorem popLocals {rest : Unit → Control N β} (depth : Nat) (token : SourceMapToken Text)
    (locals : List TrackedLocal)
    (two : ∀ after, Progresses procedure already (rest ()) after) :
    Progresses procedure already (Control.popLocals depth token locals >>= rest) before := by
  induction locals generalizing before with
  | nil => exact two before
  | cons tracked others ih =>
      rw [Control.popLocals]
      split
      · exact quiet (quiet_emit _ _) fun _ _ _ => still (fun _ _ runs => by cases runs; rfl)
          fun _ _ _ => ih
      · exact two before

theorem popTopScopeDepth {rest : Unit → Control N β} (token : SourceMapToken Text)
    (two : ∀ after, Progresses procedure already (rest ()) after) :
    Progresses procedure already (Control.popTopScopeDepth token >>= rest) before := by
  rw [Control.popTopScopeDepth, Routine.assoc]
  refine get ?_
  rw [Routine.assoc]
  exact popLocals _ _ _ fun _ => still (fun _ _ runs => by cases runs; rfl) fun _ after _ => two after

theorem popTopScopeDepth_last (token : SourceMapToken Text) (enough : procedure.least ≤ already) :
    Progresses procedure already (Control.popTopScopeDepth token) before := by
  rw [← Routine.bind_done (Control.popTopScopeDepth token)]
  exact popTopScopeDepth token fun _ => done () enough

end Progresses

section

variable [Number N] (before : Compiler N)

theorem primary_progresses : Progresses .primary 0 Control.primary before := by
  rw [Control.primary]
  refine .current ?_
  split
  next type => exact .next type (by decide) fun _ => .last (fun _ _ => (quiet_emit _ _).iter) (by decide)
  next type =>
      exact .next type (by decide) fun _ => .phrase rfl (.inr (by decide)) fun _ _ _ _ =>
        .last (fun _ _ => (quiet_emitFunction _ _ _).iter) (Nat.zero_le _)
  next type =>
      exact .next type (by decide) fun _ => .last (fun _ _ => (quiet_emitGetter _).iter) (by decide)
  next type =>
      exact .next type (by decide) fun _ => .last (fun _ _ => (quiet_emitGetter _).iter) (by decide)
  next type =>
      exact .next type (by decide) fun _ => .phrase rfl (by decide) fun _ _ _ _ =>
        .expectNext (by decide) fun _ _ => .done () (Nat.zero_le _)
  next type => exact .next type (by decide) fun _ => .last (fun _ _ => (quiet_emit _ _).iter) (by decide)
  next type =>
      exact .next type (by decide) fun _ => .last (fun _ _ => (quiet_emitConstant _ _).iter) (by decide)
  next type =>
      exact .next type (by decide) fun _ => .last (fun _ _ => (quiet_emitConstant _ _).iter) (by decide)
  next type =>
      exact .next type (by decide) fun _ => .quiet (quiet_emitGetter _) fun _ _ _ =>
        .quiet (quiet_emitGetter _) fun _ _ _ => .expectNext (by decide) fun _ _ =>
          .expectCurrent (by decide) fun _ _ =>
            .last (fun _ _ => (quiet_emitName _ _ _).iter) (Nat.zero_le _)
  next type => exact .next type (by decide) fun _ => .last (fun _ _ => (quiet_emit _ _).iter) (by decide)
  next => exact .current .throw

variable {before} in
theorem Progresses.property {procedure : Proc} {already : Nat}
    {rest : SourceMapToken Text → Control N β} (dot : before.tokenIter.token.type = .dot)
    (two : ∀ token after, Progresses procedure (already + 2) (rest token) after) :
    Progresses procedure already (Control.property >>= rest) before :=
  .next dot (by decide) fun _ => .expectCurrent (by decide) fun _ _ => .quiet (quiet_emitName _ _ _)
    fun _ after _ => two _ after

theorem callLoop_progresses (calleeToken : SourceMapToken Text) :
    Progresses (.callLoop calleeToken) 0 (Control.callLoop calleeToken) before := by
  rw [Control.callLoop]
  refine .current ?_
  split
  next paren =>
      refine .next paren (by decide) fun _ => .phrase rfl (.inr (by decide)) fun _ _ count _ =>
        .quiet (quiet_emitCall _ _) fun _ _ _ => .current ?_
      have read : 0 < 0 + 1 + count := by omega
      split
      next dot => exact .property dot fun _ _ => .tailPhrase rfl (.inr (by omega)) (Nat.zero_le _)
      next => exact .tailPhrase rfl (.inr read) (Nat.zero_le _)
  next dot => exact .property dot fun _ _ => .tailPhrase rfl (.inr (by decide)) (Nat.zero_le _)
  next => exact .done () (Nat.zero_le _)

omit [Number N] in
theorem unary_progresses : Progresses .unary 0 Control.unary before := by
  rw [Control.unary]
  refine .current ?_
  split
  next minus =>
      exact .next minus (by decide) fun _ => .phrase rfl (by decide) fun _ _ _ _ =>
        .last (fun _ _ => (quiet_emit _ _).iter) (Nat.zero_le _)
  next bang =>
      exact .next bang (by decide) fun _ => .phrase rfl (by decide) fun _ _ _ _ =>
        .last (fun _ _ => (quiet_emit _ _).iter) (Nat.zero_le _)
  next => exact .tailPhrase rfl (by decide) (Nat.zero_le _)

omit [Number N] in
theorem Progresses.callOperand {before : Compiler N} {procedure : Proc} {already : Nat}
    {rest : Unit → Control N β} (level : Level)
    (lower : (Proc.level level).rank ≤ procedure.rank ∨ 0 < already)
    (two : ∀ after count, Progresses procedure (already + count) (rest ()) after) :
    Progresses procedure already (Control.callOperand level >>= rest) before := by
  have lower (called : Proc) (less : called.rank < (Proc.level level).rank) :
      called.rank < procedure.rank ∨ 0 < already := lower.imp_left (Nat.lt_of_lt_of_le less)
  cases level with
  | or_ => exact .phrase rfl (lower (.level .and_) (by decide)) fun _ after count _ => two after count
  | and_ =>
      exact .phrase rfl (lower (.level .equality) (by decide)) fun _ after count _ => two after count
  | equality =>
      exact .phrase rfl (lower (.level .comparison) (by decide)) fun _ after count _ =>
        two after count
  | comparison =>
      exact .phrase rfl (lower (.level .term) (by decide)) fun _ after count _ => two after count
  | term =>
      exact .phrase rfl (lower (.level .factor) (by decide)) fun _ after count _ => two after count
  | factor => exact .phrase rfl (lower .unary (by decide)) fun _ after count _ => two after count

theorem level_progresses (level : Level) :
    Progresses (.level level) 0 (Control.body (.level level)) before := by
  refine .callOperand level (.inl (Nat.le_refl _)) fun _ _ => .tailPhrase rfl (.inl ?_) (Nat.zero_le _)
  cases level <;> decide

omit [Number N] in
theorem Progresses.operatorStep {before : Compiler N} {procedure : Proc} {already : Nat}
    {rest : Unit → Control N β} (level : Level) (operatorToken : Token) (read : 0 < already)
    (two : ∀ after count, Progresses procedure (already + count) (rest ()) after) :
    Progresses procedure already (Control.operatorStep level operatorToken >>= rest) before := by
  have binary (level : Level) : Progresses procedure already (do
      Control.callOperand level
      perform (emitAll (binaryOpcodes operatorToken.type) (sourceMapToken operatorToken))
      rest ()) before :=
    .callOperand level (.inr read) fun _ _ => .quiet (quiet_emitAll _ _) fun _ after _ => two after _
  cases level with
  | or_ =>
      exact .quiet (quiet_emitJump _ _) fun _ _ _ => .quiet (quiet_emitJump _ _) fun _ _ _ =>
        .quiet (quiet_toNextOpcode _) fun _ _ _ => .quiet (quiet_emit _ _) fun _ _ _ =>
          .callOperand .or_ (.inr read) fun _ _ => .quiet (quiet_toNextOpcode _) fun _ after _ =>
            two after _
  | and_ =>
      exact .quiet (quiet_emitJump _ _) fun _ _ _ => .quiet (quiet_emit _ _) fun _ _ _ =>
        .callOperand .and_ (.inr read) fun _ _ => .quiet (quiet_toNextOpcode _) fun _ after _ =>
          two after _
  | equality => exact binary .equality
  | comparison => exact binary .comparison
  | term => exact binary .term
  | factor => exact binary .factor

omit [Number N] in
theorem operatorLoop_progresses (level : Level) :
    Progresses (.operatorLoop level) 0 (Control.operatorLoop level) before := by
  rw [Control.operatorLoop]
  refine .current ?_
  split
  next found =>
      have inside : before.tokenIter.token.type ≠ .eof := by
        intro same
        rw [same] at found
        cases level <;> cases found
      exact .next rfl inside fun _ => .operatorStep level _ (by decide) fun _ count =>
        .tailPhrase rfl (.inr (by omega)) (Nat.zero_le _)
  next => exact .done () (Nat.zero_le _)

theorem assignment_progresses : Progresses .assignment 0 Control.assignment before := by
  rw [Control.assignment]
  refine .get ?_
  dsimp only
  refine .act (fun _ => 0) fun found after runs => ?_
  obtain ⟨peeks, rfl⟩ := lookAhead_run runs
  refine ⟨.refl _, ?_⟩
  cases found with
  | none => exact .tailPhrase rfl (by decide) (Nat.zero_le _)
  | some found =>
      obtain ⟨names, last⟩ := found
      obtain ⟨first, name, -, reads, equal⟩ := peekAssignment_consumes peeks
      have inside : .eof ∉ first :: path names.length := by
        have derives : Derives lox .call (first :: path names.length) :=
          derives_this_or_name name names.length
        exact derives.no_eof Category.noConfusion
      refine .act (fun _ => (first :: path names.length).length) fun _ after runs => ?_
      cases runs
      refine ⟨⟨_, reads, inside, rfl⟩, .next equal (by decide) fun _ => ?_⟩
      refine .phrase rfl (.inr (by omega)) fun _ _ _ _ => .last ?_ (Nat.zero_le _)
      exact fun _ _ runs => emitAssignment_iter runs

omit [Number N] in
theorem expressionStatement_progresses :
    Progresses .expressionStatement 0 Control.expressionStatement before := by
  rw [Control.expressionStatement]
  refine .phrase rfl (by decide) fun _ _ _ _ => .current ?_
  split
  · exact .throw
  · refine .expectCurrent (by decide) fun _ _ => .last (fun _ _ => (quiet_emit _ _).iter) ?_
    exact Nat.le_add_left _ _

omit [Number N] in
theorem ifStatement_progresses (type : before.tokenIter.token.type = .if_) :
    Progresses .ifStatement 0 Control.ifStatement before := by
  rw [Control.ifStatement]
  refine .next type (by decide) fun _ => .expectNext (by decide) fun _ _ =>
    .phrase rfl (.inr (by omega)) fun _ _ one _ => .expectNext (by decide) fun _ _ =>
      .quiet (quiet_emitJump _ _) fun _ _ _ => .quiet (quiet_emit _ _) fun _ _ _ =>
        .phrase rfl (.inr (by omega)) fun _ _ two _ => .quiet (quiet_emitJump _ _) fun _ _ _ =>
          .quiet (quiet_toNextOpcode _) fun _ _ _ => .quiet (quiet_emit _ _) fun _ _ _ => ?_
  have enough : Proc.ifStatement.least ≤ 0 + 1 + 1 + one + 1 + two := by
    rw [show Proc.ifStatement.least = 1 from rfl]
    omega
  refine .act (fun matched => if matched then 1 else 0) fun matched after runs => ?_
  cases matched with
  | true =>
      obtain ⟨same, advances⟩ := advanceIfMatch_found runs
      refine ⟨.advance advances (by rw [same]; decide), .phrase rfl (.inr (by omega)) fun _ _ more _ => ?_⟩
      exact .last (fun _ _ => (quiet_toNextOpcode _).iter) (by omega)
  | false =>
      obtain rfl := advanceIfMatch_missing runs
      exact ⟨.refl _, .last (fun _ _ => (quiet_toNextOpcode _).iter) (by omega)⟩

theorem forScope_progresses (token : SourceMapToken Text) :
    Progresses (.forScope token) 0 (Control.body (.forScope token)) before := by
  simp only [Control.body, Control.inScope, Control.forScope, Routine.assoc]
  exact .quiet quiet_beginScope fun _ _ _ => .expectNext (by decide) fun _ _ =>
    .phrase rfl (.inr (by omega)) fun _ _ _ _ => .quiet quiet_bytecodeSize fun _ _ _ =>
      .phrase rfl (.inr (by omega)) fun _ _ _ _ => .quiet (quiet_emitJump _ _) fun _ _ _ =>
        .quiet (quiet_emitJump _ _) fun _ _ _ => .quiet quiet_bytecodeSize fun _ _ _ =>
          .phrase rfl (.inr (by omega)) fun _ _ _ _ => .expectNext (by decide) fun _ _ =>
            .quiet (quiet_emitLoop _ _) fun _ _ _ => .quiet (quiet_toNextOpcode _) fun _ _ _ =>
              .quiet (quiet_emit _ _) fun _ _ _ => .phrase rfl (.inr (by omega)) fun _ _ _ _ =>
                .quiet (quiet_emitLoop _ _) fun _ _ _ => .quiet (quiet_toNextOpcode _) fun _ _ _ =>
                  .quiet (quiet_emit _ _) fun _ _ _ => .popTopScopeDepth_last _ (Nat.zero_le _)

theorem superclassScope_progresses (superclassName : Token) :
    Progresses (.superclassScope superclassName) 0 (Control.body (.superclassScope superclassName))
      before := by
  simp only [Control.body, Control.inScope, Control.superclassScope, Routine.assoc]
  exact .quiet quiet_beginScope fun _ _ _ => .quiet (quiet_emitGetter _) fun _ _ _ =>
    .quiet (quiet_trackLocal _ _) fun _ _ _ => .quiet (quiet_emit _ _) fun _ _ _ =>
      .phrase rfl (.inl (Nat.lt_succ_self 1)) fun _ _ _ _ => .quiet (quiet_emit _ _) fun _ _ _ =>
        .popTopScopeDepth_last _ (Nat.zero_le _)

theorem function_progresses (isClassInitMethod : Bool) (first : Option (SourceMapToken Text))
    (token : SourceMapToken Text) : Progresses (.function isClassInitMethod first token) 0
      (Control.body (.function isClassInitMethod first token)) before := by
  rw [Control.body, ← Routine.bind_done (Control.inFunction isClassInitMethod _)]
  refine .inFunction fun _ => ?_
  cases first with
  | none =>
      exact .phrase rfl (.inl (Nat.lt_succ_self 1)) fun _ _ _ _ => .leaveFunction fun _ _ =>
        .done _ (Nat.zero_le _)
  | some first =>
      exact .quiet (quiet_trackLocal _ _) fun _ _ _ => .phrase rfl (.inl (Nat.lt_succ_self 1))
        fun _ _ _ _ => .leaveFunction fun _ _ => .done _ (Nat.zero_le _)

theorem blockScope_progresses :
    Progresses .blockScope 0 (Control.body .blockScope) before := by
  simp only [Control.body, Control.inScope, Control.blockScope, Routine.assoc]
  exact .quiet quiet_beginScope fun _ _ _ => .phrase rfl (.inl (Nat.lt_succ_self 14)) fun _ _ _ _ =>
    .expectCurrent (by decide) fun _ _ => .popTopScopeDepth_last _ (Nat.zero_le _)

omit [Number N] in
theorem returnStatement_progresses (type : before.tokenIter.token.type = .return_) :
    Progresses .returnStatement 0 Control.returnStatement before := by
  rw [Control.returnStatement]
  refine .get ?_
  split
  · exact .throw
  · refine .next type (by decide) fun middle => .advanceIfMatch (by decide) (fun _ => ?_) (.get ?_)
    · exact .quiet (quiet_emitDefaultReturnValue _) fun _ _ _ =>
        .last (fun _ _ => (quiet_emit _ _).iter) (Nat.le_add_left _ _)
    · split
      · exact .current .throw
      · exact .phrase rfl (.inr (by omega)) fun _ _ _ _ => .expectNext (by decide) fun _ _ =>
          .last (fun _ _ => (quiet_emit _ _).iter) (Nat.le_add_left _ _)

omit [Number N] in
theorem whileStatement_progresses (type : before.tokenIter.token.type = .while_) :
    Progresses .whileStatement 0 Control.whileStatement before := by
  rw [Control.whileStatement]
  refine .next type (by decide) fun _ => .quiet quiet_bytecodeSize fun _ _ _ => .expectNext (by decide) fun _ _ =>
    .phrase rfl (.inr (by omega)) fun _ _ one _ => .expectNext (by decide) fun _ _ =>
      .quiet (quiet_emitJump _ _) fun _ _ _ => .quiet (quiet_emit _ _) fun _ _ _ =>
        .phrase rfl (.inr (by omega)) fun _ _ two _ => .quiet (quiet_emitLoop _ _) fun _ _ _ =>
          .quiet (quiet_toNextOpcode _) fun _ _ _ => .last (fun _ _ => (quiet_emit _ _).iter) ?_
  rw [show Proc.whileStatement.least = 1 from rfl]
  omega

omit [Number N] in
theorem statement_progresses : Progresses .statement 0 Control.statement before := by
  rw [Control.statement]
  refine .current ?_
  split
  next type => exact .tail (fun _ same => by cases same; exact type) (by decide) (by decide)
  next type => exact .tail (fun _ same => by cases same; exact type) (by decide) (by decide)
  next type => exact .tail (fun _ same => by cases same; exact type) (by decide) (by decide)
  next type => exact .tail (fun _ same => by cases same; exact type) (by decide) (by decide)
  next type => exact .tail (fun _ same => by cases same; exact type) (by decide) (by decide)
  next type => exact .tail (fun _ same => by cases same; exact type) (by decide) (by decide)
  next => exact .tailPhrase rfl (by decide) (by decide)

theorem methodLoop_progresses : Progresses .methodLoop 0 Control.methodLoop before := by
  rw [Control.methodLoop]
  refine .current ?_
  split
  next name =>
      exact .next name (by decide) fun _ => .phrase rfl (.inr (by omega)) fun _ _ _ _ =>
        .quiet (quiet_emitFunction _ _ _) fun _ _ _ => .quiet (quiet_emitName _ _ _) fun _ _ _ =>
          .tailPhrase rfl (.inr (by omega)) (Nat.zero_le _)
  next => exact .done () (Nat.zero_le _)

theorem classDeclaration_progresses (type : before.tokenIter.token.type = .class_) :
    Progresses .classDeclaration 0 Control.classDeclaration before := by
  rw [Control.classDeclaration]
  have enough {already : Nat} (read : 0 < already) : Proc.classDeclaration.least ≤ already := read
  refine .next type (by decide) fun _ => .expectCurrent (by decide) fun _ _ => .quiet (quiet_emitName _ _ _)
    fun _ _ _ => .get (.quiet ((quiet_trackLocal _ _).optionally _) fun _ _ _ =>
      .advanceIfMatch (by decide) (fun _ => ?_) ?_)
  · refine .expectCurrent (by decide) fun className _ => ?_
    simp only [Control.subclass, Routine.assoc]
    exact .quiet (quiet_ensureOtherClass _ _) fun _ _ _ => .get
      (.quiet (quiet_pushPlaceholder.optionally _) fun _ _ _ =>
        .phrase rfl (.inr (by omega)) fun _ _ _ _ => .get
          (.quiet (quiet_popPlaceholder.optionally _) fun _ _ _ =>
            .last (fun _ _ => (quiet_defineGlobalAtTop _ _).iter) (enough (by omega))))
  · exact .phrase rfl (.inr (by omega)) fun _ _ _ _ =>
      .last (fun _ _ => (quiet_defineGlobalAtTop _ _).iter) (enough (by omega))

theorem funDeclaration_progresses (type : before.tokenIter.token.type = .fun_) :
    Progresses .funDeclaration 0 Control.funDeclaration before := by
  rw [Control.funDeclaration]
  have enough {already : Nat} (read : 0 < already) : Proc.funDeclaration.least ≤ already := read
  exact .next type (by decide) fun _ => .expectCurrent (by decide) fun _ _ =>
    .phrase rfl (.inr (by omega)) fun _ _ _ _ => .quiet (quiet_emitFunction _ _ _) fun _ _ _ =>
      .quiet (quiet_defineGlobalAtTop _ _) fun _ _ _ => .get
        (.last (fun _ _ => ((quiet_trackLocal _ _).optionally _).iter) (enough (by omega)))

theorem varDeclaration_progresses (type : before.tokenIter.token.type = .var) :
    Progresses .varDeclaration 0 Control.varDeclaration before := by
  rw [Control.varDeclaration]
  simp only [Control.variableValue, Routine.assoc]
  exact .next type (by decide) fun _ => .expectCurrent (by decide) fun _ _ => .get
    (.quiet ((quiet_trackLocal _ _).optionally _) fun _ _ _ => .phrase rfl (.inr (by omega))
      fun _ _ _ _ => .expectNext (by decide) fun _ _ => .quiet (quiet_defineGlobalAtTop _ _) fun _ _ _ =>
        .get (.last (fun _ _ => (quiet_initializeBack.optionally _).iter) (Nat.le_add_left _ _)))

omit [Number N] in
theorem functionRest_progresses (token : SourceMapToken Text) :
    Progresses (.functionRest token) 0 (Control.functionRest token) before := by
  rw [Control.functionRest]
  exact .expectNext (by decide) fun _ _ => .phrase rfl (.inr (by omega)) fun _ _ _ _ =>
    .expectNext (by decide) fun _ _ => .phrase rfl (.inr (by omega)) fun _ _ _ _ =>
      .expectNext (by decide) fun _ _ => .quiet (quiet_emitDefaultReturnValue _) fun _ _ _ =>
        .quiet (quiet_emit _ _) fun _ _ _ => .done _ (Nat.zero_le _)

theorem body_progresses (procedure : Proc) (requires : (reading N).requires procedure before) :
    Progresses procedure 0 (Control.body procedure) before := by
  cases procedure with
  | primary => exact primary_progresses before
  | call =>
      exact .current (.phrase rfl (by decide) fun _ _ _ _ =>
        .tailPhrase rfl (.inl (Nat.lt_succ_self 1)) (Nat.zero_le _))
  | callLoop calleeToken => exact callLoop_progresses before calleeToken
  | arguments =>
      exact .advanceIfMatch (by decide) (fun _ => .done _ (Nat.zero_le _)) (.phrase rfl (by decide)
        fun _ _ _ _ => .expectNext (by decide) fun _ _ => .done _ (Nat.zero_le _))
  | argumentLoop =>
      exact .phrase rfl (by decide) fun _ _ _ _ => .advanceIfMatch (by decide)
        (fun _ => .phrase rfl (.inr (by omega)) fun _ _ _ _ => .done _ (Nat.zero_le _))
        (.done _ (Nat.zero_le _))
  | unary => exact unary_progresses before
  | level level => exact level_progresses before level
  | operatorLoop level => exact operatorLoop_progresses before level
  | assignment => exact assignment_progresses before
  | expressionStatement => exact expressionStatement_progresses before
  | parameterLoop =>
      exact .expectCurrent (by decide) fun _ _ => .quiet (quiet_trackLocal _ _) fun _ _ _ =>
        .advanceIfMatch (by decide)
          (fun _ => .phrase rfl (.inr (by omega)) fun _ _ _ _ => .done _ (Nat.zero_le _))
          (.expectNext (by decide) fun _ _ => .done _ (Nat.zero_le _))
  | parameters =>
      exact .advanceIfMatch (by decide) (fun _ => .done _ (Nat.zero_le _))
        (.tailPhrase rfl (by decide) (Nat.zero_le _))
  | functionRest token => exact functionRest_progresses before token
  | declarationLoop isEnd =>
      refine .current ?_
      split
      · exact .done () (Nat.zero_le _)
      · exact .phrase rfl (.inl (Nat.lt_succ_self 13)) fun _ _ count (one : 1 ≤ count) =>
          .tailPhrase rfl (.inr (by omega)) (Nat.zero_le _)
  | ifStatement => exact ifStatement_progresses before (requires _ rfl)
  | forInitializer =>
      refine .advanceIfMatch (by decide) (fun _ => .done _ (Nat.zero_le _)) (.current ?_)
      split
      · exact .tailPhrase rfl (by decide) (Nat.zero_le _)
      · exact .tailPhrase rfl (by decide) (Nat.zero_le _)
  | forCondition token =>
      exact .advanceIfMatch (by decide) (fun _ => .last (fun _ _ => (quiet_emit _ _).iter) (Nat.zero_le _))
        (.phrase rfl (.inl (Nat.lt_succ_self 10)) fun _ _ _ _ => .expectNext (by decide) fun _ _ =>
          .done _ (Nat.zero_le _))
  | forIncrement token =>
      refine .current ?_
      split
      · exact .done () (Nat.zero_le _)
      · exact .phrase rfl (.inl (Nat.lt_succ_self 10)) fun _ _ _ _ =>
          .last (fun _ _ => (quiet_emit _ _).iter) (Nat.zero_le _)
  | forStatement =>
      exact .next (requires _ rfl) (by decide) fun _ => .tailPhrase rfl (.inr (by omega)) (Nat.le_refl _)
  | block =>
      exact .next (requires _ rfl) (by decide) fun _ => .tailPhrase rfl (.inr (by omega)) (Nat.le_refl _)
  | printStatement =>
      exact .next (requires _ rfl) (by decide) fun _ => .phrase rfl (.inr (by omega)) fun _ _ _ _ =>
        .expectNext (by decide) fun _ _ => .last (fun _ _ => (quiet_emit _ _).iter) (Nat.le_add_left _ _)
  | returnStatement => exact returnStatement_progresses before (requires _ rfl)
  | whileStatement => exact whileStatement_progresses before (requires _ rfl)
  | statement => exact statement_progresses before
  | methodLoop => exact methodLoop_progresses before
  | classBody =>
      exact .expectNext (by decide) fun _ _ => .phrase rfl (.inr (by omega)) fun _ _ _ _ =>
        .expectNext (by decide) fun _ _ => .done _ (Nat.zero_le _)
  | classDeclaration => exact classDeclaration_progresses before (requires _ rfl)
  | funDeclaration => exact funDeclaration_progresses before (requires _ rfl)
  | varDeclaration => exact varDeclaration_progresses before (requires _ rfl)
  | initializer token =>
      exact .advanceIfMatch (by decide) (fun _ => .tailPhrase rfl (.inr (by omega)) (Nat.zero_le _))
        (.last (fun _ _ => (quiet_emit _ _).iter) (Nat.zero_le _))
  | declaration =>
      refine .current ?_
      split
      next type => exact .tail (fun _ same => by cases same; exact type) (by decide) (by decide)
      next type => exact .tail (fun _ same => by cases same; exact type) (by decide) (by decide)
      next type => exact .tail (fun _ same => by cases same; exact type) (by decide) (by decide)
      next => exact .tailPhrase rfl (by decide) (by decide)
  | blockScope => exact blockScope_progresses before
  | forScope token => exact forScope_progresses before token
  | superclassScope superclassName => exact superclassScope_progresses before superclassName
  | function isClassInitMethod first token =>
      exact function_progresses before isClassInitMethod first token

end

theorem reading_kept [Number N] : (reading N).Kept Control.body where
  trans := by
    rintro outer middle inner ⟨count, reads, lower⟩ ⟨more, further, laterLower⟩
    exact ⟨count + more, reads.trans further, by omega⟩
  body procedure before _ requires := by
    have progresses := body_progresses before procedure requires
    simp only [Progresses, Nat.zero_add] at progresses
    exact progresses

section

variable [Number N] {tokenIter : TokenIterator} {procedure : Proc}
  {rest : procedure.Result N → Control N Unit} {active : Compiler N}

theorem reading_called (steps : Steps Control.body (Control.compile tokenIter)
    ⟨.call procedure rest, active⟩) : (reading N).requires procedure active := by
  have start : (Control.call (.declarationLoop atEnd) : Control N Unit).Meets (reading N)
      (fun _ => True) (fun _ _ => True) (.start tokenIter) :=
    ⟨trivial, nofun, trivial, fun _ _ _ _ => ⟨trivial, trivial⟩⟩
  exact (reading_kept.steps (fun _ _ _ _ => trivial) start steps).2.2.1

/-- While a function is active, it is called again only when a token has been read. -/
theorem reads_between (steps : Steps Control.body (Control.compile tokenIter)
    ⟨.call procedure rest, active⟩) {again : Proc} (same : procedure.Same again)
    {next : again.Result N → Control N (procedure.Result N)} {later : Compiler N}
    (further : Steps Control.body ⟨Control.body procedure, active⟩ ⟨.call again next, later⟩) :
    ∃ count, 0 < count ∧ active.tokenIter.Reads later.tokenIter count := by
  obtain ⟨-, -, count, reads, lower⟩ := reading_kept.nests trivial (reading_called steps) further
  refine ⟨count, lower.resolve_left ?_, reads⟩
  rw [same.rank]
  exact Nat.lt_irrefl _

end

/-- Compilation comes to an end on every source: it returns or throws after finitely many
steps, since no function is called again while it is active before a token is read. -/
theorem compile_ends [Number N] (source : Text) :
    (∃ result : Except Error (List (Function (Constant N) Text)), result ≠ .error .outOfFuel ∧
      ∀ fuel, compileFuel source ≤ fuel → compile fuel source = result) ∧
    ∀ tokenIter, TokenIterator.ofSource source = .ok tokenIter →
      Acc (fun later earlier => Step Control.body earlier later)
        (Control.compile tokenIter : Config (Compiler N) Error (Proc.Result N) Unit) ∧
      (∀ fuel, compileFuel source ≤ fuel →
        Halts Control.body (Control.compile tokenIter : Config (Compiler N) _ _ _)
          ((declarationLoop fuel atEnd).run (.start tokenIter))) ∧
      ∀ (procedure again : Proc) (rest : procedure.Result N → Control N Unit)
        (next : again.Result N → Control N (procedure.Result N)) (active later : Compiler N),
        Steps Control.body (Control.compile tokenIter) ⟨.call procedure rest, active⟩ →
        Steps Control.body ⟨Control.body procedure, active⟩ ⟨.call again next, later⟩ →
        procedure.Same again →
          ∃ count, 0 < count ∧ active.tokenIter.Reads later.tokenIter count := by
  refine ⟨⟨_, compile_terminates source (Nat.le_refl _), fun fuel enough => ?_⟩,
    fun tokenIter scans => ⟨?_, ?_, ?_⟩⟩
  · cases scans : TokenIterator.ofSource source with
    | error error => rw [compile, compile, scans]; rfl
    | ok tokenIter =>
        have one := compile_halts (N := N) scans enough
        have other := compile_halts (N := N) scans (Nat.le_refl _)
        have runs (fuel : Nat) : (compile fuel source : Except Error (List (Function _ Text))) = (do
            let ends ← (declarationLoop fuel atEnd).run (.start tokenIter : Compiler N)
            return ends.2.gcHeap ++ [⟨[], 0, ends.2.back.chunk⟩]) := by
          rw [compile, scans]
          rfl
        rw [runs, runs, one.unique other]
  · exact (compile_halts scans (Nat.le_refl _)).acc
  · exact fun fuel enough => compile_halts scans enough
  · exact fun _ _ _ _ _ _ steps further same => reads_between steps same further

end Cpplox
