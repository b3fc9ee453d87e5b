import Cpplox.Tracking.Outline

namespace Cpplox

open Data Routine

/-! The scopes that each function of the compiler is called in and leaves behind. -/

/-- How the locals of a function are listed, the latest first. -/
structure Orderly (scopeDepth : Nat) (locals : List Declared) : Prop where
  within : ∀ one ∈ locals, one.depth ≤ scopeDepth
  sorted : locals.Pairwise fun later earlier => earlier.depth ≤ later.depth
  distinct : locals.Pairwise fun later earlier =>
    ¬ (earlier.depth = later.depth ∧ earlier.name = later.name)
  initialized : ∀ one ∈ locals.tail, one.initialized = true

namespace Orderly

variable {scopeDepth : Nat} {one : Declared} {locals : List Declared}

theorem nil (scopeDepth : Nat) : Orderly scopeDepth [] := ⟨nofun, .nil, .nil, nofun⟩

theorem tail (orderly : Orderly scopeDepth (one :: locals)) : Orderly scopeDepth locals :=
  ⟨(List.forall_mem_cons.mp orderly.within).2, (List.pairwise_cons.mp orderly.sorted).2,
    (List.pairwise_cons.mp orderly.distinct).2,
    fun other member => orderly.initialized other (List.mem_of_mem_tail member)⟩

/-- Where a local is listed depends on its name and depth. -/
theorem head {other : Declared} (orderly : Orderly scopeDepth (one :: locals))
    (name : other.name = one.name) (depth : other.depth = one.depth) :
    Orderly scopeDepth (other :: locals) := by
  obtain ⟨within, laterWithin⟩ := List.forall_mem_cons.mp orderly.within
  obtain ⟨sorted, laterSorted⟩ := List.pairwise_cons.mp orderly.sorted
  obtain ⟨distinct, laterDistinct⟩ := List.pairwise_cons.mp orderly.distinct
  refine ⟨List.forall_mem_cons.mpr ⟨depth ▸ within, laterWithin⟩, List.pairwise_cons.mpr ⟨?_, laterSorted⟩,
    List.pairwise_cons.mpr ⟨?_, laterDistinct⟩, orderly.initialized⟩
  · rwa [depth]
  · rwa [depth, name]

theorem deeper {deeper : Nat} (orderly : Orderly scopeDepth locals) (less : scopeDepth ≤ deeper) :
    Orderly deeper locals :=
  { orderly with within := fun one member => (orderly.within one member).trans less }

end Orderly

namespace Outline

def Orderly (outline : Outline) : Prop :=
  ∀ locals ∈ outline.back :: outline.enclosing, Cpplox.Orderly outline.scopeDepth locals

/-- The locals of the functions outside are in scopes outside. -/
def Ready (outline : Outline) : Prop :=
  ∀ locals ∈ outline.enclosing, ∀ one ∈ locals, one.depth < outline.scopeDepth

/-- Outside of every scope, no local is tracked. -/
def Bare (outline : Outline) : Prop := outline.scopeDepth = 0 → outline.back = []

/-- No local waits for its value. -/
def Settled (outline : Outline) : Prop := ∀ one ∈ outline.back, one.initialized = true

def declare (outline : Outline) (declared : List Declared) : Outline :=
  { outline with back := declared ++ outline.back }

def deeper (outline : Outline) : Outline := { outline with scopeDepth := outline.scopeDepth + 1 }

/-- Inside a new function. -/
def enter (outline : Outline) : Outline :=
  ⟨outline.scopeDepth + 1, [], outline.back :: outline.enclosing⟩

/-- What may be declared in the current scope. -/
structure Declares (outline : Outline) (declared : List Declared) : Prop where
  depth : ∀ one ∈ declared, one.depth = outline.scopeDepth
  initialized : ∀ one ∈ declared, one.initialized = true
  top : outline.scopeDepth = 0 → declared = []

variable {outline : Outline} {declared more : List Declared}

theorem Declares.nil (outline : Outline) : outline.Declares [] := ⟨nofun, nofun, fun _ => rfl⟩

theorem Declares.append (first : outline.Declares declared) (second : outline.Declares more) :
    outline.Declares (more ++ declared) where
  depth one member := (List.mem_append.mp member).elim (second.depth one) (first.depth one)
  initialized one member :=
    (List.mem_append.mp member).elim (second.initialized one) (first.initialized one)
  top zero := by rw [first.top zero, second.top zero, List.append_nil]

@[simp] theorem declare_nil (outline : Outline) : outline.declare [] = outline := rfl

@[simp] theorem declare_declare (outline : Outline) (declared more : List Declared) :
    (outline.declare declared).declare more = outline.declare (more ++ declared) := by
  simp only [declare, List.append_assoc]

theorem Bare.declare (bare : outline.Bare) (declares : outline.Declares declared) :
    (outline.declare declared).Bare := fun zero => by
  rw [Outline.declare, declares.top zero, bare zero]
  rfl

theorem Settled.declare (settled : outline.Settled) (declares : outline.Declares declared) :
    (outline.declare declared).Settled := fun one member =>
  (List.mem_append.mp member).elim (declares.initialized one) (settled one)

theorem Ready.deeper (ready : outline.Ready) : outline.deeper.Ready :=
  fun locals member one here => Nat.lt_succ_of_lt (ready locals member one here)

theorem Orderly.deeper (orderly : outline.Orderly) : outline.deeper.Orderly :=
  fun locals member => (orderly locals member).deeper (Nat.le_succ _)

theorem Orderly.enter (orderly : outline.Orderly) : outline.enter.Orderly :=
  List.forall_mem_cons.mpr ⟨.nil _, orderly.deeper⟩

theorem Orderly.ready_enter (orderly : outline.Orderly) (ready : outline.Ready) :
    outline.enter.Ready :=
  List.forall_mem_cons.mpr
    ⟨fun one member => Nat.lt_succ_of_le ((orderly _ List.mem_cons_self).within one member),
      ready.deeper⟩

theorem settled_enter (outline : Outline) : outline.enter.Settled := nofun

/-- A new local is the latest one. -/
theorem Orderly.declare (orderly : outline.Orderly) (settled : outline.Settled) {one : Declared}
    (depth : one.depth = outline.scopeDepth)
    (fresh : ∀ other ∈ outline.back, ¬ (other.depth = one.depth ∧ other.name = one.name)) :
    (outline.declare [one]).Orderly := by
  obtain ⟨here, others⟩ := List.forall_mem_cons.mp orderly
  refine List.forall_mem_cons.mpr ⟨⟨?_, ?_, ?_, settled⟩, others⟩
  · exact List.forall_mem_cons.mpr ⟨Nat.le_of_eq depth, here.within⟩
  · exact List.pairwise_cons.mpr ⟨fun other member => depth ▸ here.within other member, here.sorted⟩
  · exact List.pairwise_cons.mpr ⟨fresh, here.distinct⟩

end Outline

namespace Proc

/-- Whether a function declares locals in the scope that it is called in. -/
def declares : Proc → Bool
  | declaration | classDeclaration | funDeclaration | varDeclaration | declarationLoop _
  | forInitializer | parameterLoop | parameters | functionRest _ => true
  | _ => false

/-- Whether a function is called only where every local has its value. -/
def settles : Proc → Bool
  | declaration | classDeclaration | funDeclaration | varDeclaration | declarationLoop _
  | forInitializer | parameterLoop | parameters | functionRest _
  | statement | ifStatement | forStatement | block | whileStatement
  | blockScope | forScope _ | superclassScope _ => true
  | _ => false

/-- Whether a placeholder may stand below the scope. -/
def placed : Proc → Bool
  | superclassScope _ => true
  | _ => false

/-- Whether a function is called only in the scope of a Lox function. -/
def inside : Proc → Bool
  | parameterLoop | parameters | functionRest _ => true
  | _ => false

end Proc

/-- Where a function of the compiler may be called. -/
structure Outline.Allows (outline : Outline) (procedure : Proc) : Prop where
  ready : outline.Ready
  bare : procedure.placed = false → outline.Bare
  settled : procedure.settles = true → outline.Settled
  inside : procedure.inside = true → 0 < outline.scopeDepth

theorem Outline.Allows.to {outline : Outline} {outer : Proc} (allows : outline.Allows outer)
    (inner : Proc) (settles : inner.settles = true → outer.settles = true)
    (inside : inner.inside = true → outer.inside = true)
    (bare : outer.placed = false) : outline.Allows inner :=
  ⟨allows.ready, fun _ => allows.bare bare, fun settled => allows.settled (settles settled), fun here => allows.inside (inside here)⟩

variable {N α β : Type}

/-- The locals declared since, and no others. -/
def Leaves (declares : Bool) (outline : Outline) (after : Compiler N) : Prop :=
  ∃ declared, after.outline = outline.declare declared ∧ outline.Declares declared ∧
    (declares = false → declared = [])

variable (N) in
/-- What every function of the compiler keeps to. -/
def tracking : Contract (Compiler N) (Proc.Result N) where
  holds compiler := compiler.outline.Orderly ∧ compiler.Distinct
  moves := Compiler.Moves
  requires procedure compiler := compiler.outline.Allows procedure
  ensures procedure before _ after := Leaves procedure.declares before.outline after ∧
    (procedure = .varDeclaration → 0 < before.scopeDepth →
      ∃ name, before.tokenIter.advance = .ok name ∧
        after.outline = before.outline.declare [⟨name.token.lexeme, before.scopeDepth, true⟩])
  nests _ _ := True

/-- A state with this outline. -/
structure At (outline : Outline) (compiler : Compiler N) : Prop where
  holds : (tracking N).holds compiler
  outline : compiler.outline = outline

/-- The routine keeps to what is tracked, and ends in `post`. -/
abbrev Goes (routine : Control N α) (post : α → Compiler N → Prop)
    (before : Compiler N) : Prop :=
  routine.Meets (tracking N) (fun _ => True) post before

/-- The routine leaves the scopes as they were. -/
def Stays (outline : Outline) (routine : Control N α) : Prop :=
  ∀ before, At outline before →
    Goes routine (fun _ after => after.outline = outline) before

variable {outline : Outline} {before after : Compiler N} {action : CompileM N α}
  {routine : Control N α} {rest : α → Control N β} {post : β → Compiler N → Prop}

/-- The same scopes, and what is tracked otherwise has moved. -/
theorem At.moved (here : At outline before) (moves : before.Moves after)
    (same : after.outline = before.outline) : At outline after := by
  obtain ⟨⟨orderly, distinct⟩, rfl⟩ := here
  exact ⟨⟨same ▸ orderly, moves.distinct distinct⟩, same⟩

namespace Goes

theorem act (here : At outline before) (two : ∀ value after,
      action.run before = .ok (value, after) →
        before.Moves after ∧ Goes (rest value) post after) :
    Goes (perform action >>= rest) post before :=
  ⟨here.holds, two⟩

theorem mayCapture (here : At outline before) (may : MayCapture action)
    (two : ∀ value after, action.run before = .ok (value, after) → At outline after →
      Goes (rest value) post after) :
    Goes (perform action >>= rest) post before := by
  refine act here fun value after runs => ?_
  rcases may before value after runs with still | captured
  · have moves : before.Moves after := .still still.back still.enclosing
    exact ⟨moves, two value after runs (here.moved moves still.outline)⟩
  · have moves : before.Moves after := .captures captured
    exact ⟨moves, two value after runs (here.moved moves captured.outline)⟩

theorem still (here : At outline before) (stills : Stills action)
    (two : ∀ value after, action.run before = .ok (value, after) → At outline after →
      Goes (rest value) post after) :
    Goes (perform action >>= rest) post before :=
  mayCapture here stills.mayCapture two

theorem get {rest : Compiler N → Control N β} (here : At outline before)
    (two : Goes (rest before) post before) :
    Goes (perform get >>= rest) post before :=
  still here .get fun value after runs _ => by
    cases runs
    exact two

theorem bind (first : Stays outline routine) (here : At outline before)
    (two : ∀ value after, At outline after → Goes (rest value) post after) :
    Goes (routine >>= rest) post before :=
  Meets.bind (first before here) fun value after holds same => two value after ⟨holds, same⟩

/-- After a call that may declare locals. -/
theorem call {procedure : Proc} {rest : procedure.Result N → Control N β}
    (here : At outline before) (allows : outline.Allows procedure)
    (two : ∀ value after declared, outline.Declares declared →
      (procedure.declares = false → declared = []) → At (outline.declare declared) after →
        Goes (rest value) post after) :
    Goes (Control.call procedure >>= rest) post before := by
  obtain ⟨holds, rfl⟩ := here
  refine ⟨holds, allows, trivial, fun value after holds ensures => ?_⟩
  obtain ⟨⟨declared, same, declares, none⟩, -⟩ := ensures
  exact two value after declared declares none ⟨holds, same⟩

theorem done {value : β} (here : At outline before) (ends : post value before) :
    Goes (.done value) post before := ⟨here.holds, ends⟩

end Goes

namespace Stays

theorem done (value : α) : Stays outline (.done value : Control N α) :=
  fun _ here => Goes.done here here.outline

theorem bind (first : Stays outline routine) (two : ∀ value, Stays outline (rest value)) :
    Stays outline (routine >>= rest) :=
  fun _ here => Goes.bind first here fun value after => two value after

theorem mayCapture (may : MayCapture action) (two : ∀ value, Stays outline (rest value)) :
    Stays outline (perform action >>= rest) :=
  fun _ here => Goes.mayCapture here may fun value after _ => two value after

theorem still (stills : Stills action) (two : ∀ value, Stays outline (rest value)) :
    Stays outline (perform action >>= rest) :=
  mayCapture stills.mayCapture two

theorem lastCapture (may : MayCapture action) : Stays outline (perform action) :=
  mayCapture may done

theorem last (stills : Stills action) : Stays outline (perform action) :=
  still stills done

theorem call {procedure : Proc} {rest : procedure.Result N → Control N β}
    (allows : outline.Allows procedure) (quiet : procedure.declares = false)
    (two : ∀ value, Stays outline (rest value)) :
    Stays outline (Control.call procedure >>= rest) :=
  fun _ here => Goes.call here allows fun value after declared _ none there => by
    cases none quiet
    exact two value after there

theorem tail {procedure : Proc} (allows : outline.Allows procedure)
    (quiet : procedure.declares = false) :
    Stays outline (Control.call procedure : Control N _) :=
  call allows quiet done

theorem found_or_missing {type : TokenType} {found missing : Control N β}
    (here : Stays outline found) (there : Stays outline missing) :
    Stays outline (do if ← perform (advanceIfMatch type) then found else missing) :=
  still (stills_advanceIfMatch type) fun matched => by
    cases matched with
    | true => exact here
    | false => exact there

end Stays

theorem At.to {laterOutline : Outline} (here : At outline before) (moves : before.Moves after)
    (same : after.outline = laterOutline) (orderly : laterOutline.Orderly) : At laterOutline after :=
  ⟨⟨same.symm ▸ orderly, moves.distinct here.holds.2⟩, same⟩

theorem At.orderly (here : At outline before) : outline.Orderly :=
  here.outline ▸ here.holds.1

theorem trackLocal_run {token : SourceMapToken Text} {initialized : Bool} {done : Unit}
    (runs : (trackLocal token initialized).run before = .ok (done, after)) :
    isRedeclared before.back.trackedLocals before.scopeDepth token.lexeme = false ∧
      after = { before with back := { before.back with trackedLocals :=
        { name := token.lexeme, depth := before.scopeDepth, initialized } ::
          before.back.trackedLocals } } := by
  rw [trackLocal, run_get_bind] at runs
  split at runs
  · cases runs
  next fresh =>
      cases runs
      exact ⟨eq_false_of_ne_true fresh, rfl⟩

theorem initializeBack_run {tracked : TrackedLocal} {rest : List TrackedLocal} {done : Unit}
    (locals : before.back.trackedLocals = tracked :: rest)
    (runs : initializeBack.run before = .ok (done, after)) :
    after = { before with back := { before.back with
      trackedLocals := { tracked with initialized := true } :: rest } } := by
  cases runs
  simp only [locals]

theorem declares_single (one : Declared) (depth : one.depth = outline.scopeDepth)
    (initialized : one.initialized = true) (inside : 0 < outline.scopeDepth) :
    outline.Declares [one] where
  depth _ member := List.mem_singleton.mp member ▸ depth
  initialized _ member := List.mem_singleton.mp member ▸ initialized
  top zero := absurd zero (Nat.ne_of_gt inside)

theorem declares_inside (outline : Outline) (name : Text) :
    outline.Declares (if outline.scopeDepth = 0 then [] else [⟨name, outline.scopeDepth, true⟩]) := by
  split
  next => exact .nil outline
  next inside => exact declares_single _ rfl rfl (Nat.pos_of_ne_zero inside)

namespace Goes

variable {rest : Unit → Control N β}

theorem trackLocal (here : At outline before) (settled : outline.Settled)
    {token : SourceMapToken Text} {initialized : Bool}
    (two : ∀ after,
      At (outline.declare [⟨token.lexeme, outline.scopeDepth, initialized⟩]) after →
        after.tokenIter = before.tokenIter → Goes (rest ()) post after) :
    Goes (perform (trackLocal token initialized) >>= rest) post before := by
  refine act here fun done after runs => ?_
  obtain ⟨fresh, rfl⟩ := trackLocal_run runs
  obtain rfl := here.outline
  have moves : before.Moves { before with back := { before.back with trackedLocals :=
      { name := token.lexeme, depth := before.scopeDepth, initialized } ::
        before.back.trackedLocals } } := .declares _ rfl rfl rfl rfl
  refine ⟨moves, two _ (here.to moves rfl ?_) rfl⟩
  refine here.orderly.declare settled rfl fun other member => ?_
  obtain ⟨tracked, listed, rfl⟩ := List.mem_map.mp member
  simpa [TrackedLocal.declared, Compiler.outline] using List.any_eq_false.mp fresh tracked listed

/-- A local that is tracked only inside of a scope. -/
theorem trackInside (here : At outline before) (settled : outline.Settled)
    {token : SourceMapToken Text} {initialized : Bool}
    (two : ∀ after declared, (declared = if outline.scopeDepth = 0 then []
        else [⟨token.lexeme, outline.scopeDepth, initialized⟩]) →
      At (outline.declare declared) after → after.tokenIter = before.tokenIter →
        Goes (rest ()) post after) :
    Goes (perform (optionally (before.scopeDepth > 0)
      (Cpplox.trackLocal token initialized)) >>= rest) post before := by
  have depth : before.scopeDepth = outline.scopeDepth := congrArg Outline.scopeDepth here.outline
  by_cases zero : outline.scopeDepth = 0
  · rw [depth, zero]
    refine still here (.pure ()) fun _ after runs there => ?_
    cases runs
    exact two before [] (if_pos zero).symm there rfl
  · have inside : before.scopeDepth > 0 := by omega
    rw [optionally, if_pos (decide_eq_true inside)]
    exact trackLocal here settled fun after there => two after _ (if_neg zero).symm there

theorem popLocals {token : SourceMapToken Text} {declared : List Declared}
    {locals : List TrackedLocal} (here : At (outline.deeper.declare declared) before)
    (depth : ∀ one ∈ declared, one.depth = outline.scopeDepth + 1) (orderly : outline.Orderly)
    (listed : before.back.trackedLocals = locals)
    (two : ∀ after, At outline.deeper after → Goes (rest ()) post after) :
    Goes (Control.popLocals (outline.scopeDepth + 1) token locals >>= rest) post before := by
  have split : locals.map (·.declared) = declared ++ outline.back :=
    listed ▸ congrArg Outline.back here.outline
  induction declared generalizing before locals with
  | nil =>
      cases locals with
      | nil => exact two before here
      | cons tracked others =>
          have member : tracked.declared ∈ outline.back := by
            rw [← List.nil_append outline.back, ← split]
            exact List.mem_cons_self
          have within := (orderly _ List.mem_cons_self).within _ member
          have other : tracked.depth ≠ outline.scopeDepth + 1 := Nat.ne_of_lt (Nat.lt_succ_of_le within)
          rw [Control.popLocals, if_neg other]
          exact two before here
  | cons one declared ih =>
      cases locals with
      | nil => cases split
      | cons tracked others =>
          rw [List.map_cons, List.cons_append] at split
          obtain ⟨rfl, below⟩ := List.cons_eq_cons.mp split
          have same : tracked.depth = outline.scopeDepth + 1 := depth _ List.mem_cons_self
          rw [Control.popLocals, if_pos same]
          refine still here (stills_emitWith _) fun _ middle runs there => ?_
          have listed : middle.back.trackedLocals = tracked :: others :=
            (stills_emitWith _ _ _ _ runs).back.locals.trans listed
          refine act there fun _ after runs => ?_
          cases runs
          have moves : middle.Moves { middle with
              back := { middle.back with trackedLocals := others } } := .drops tracked listed rfl rfl
          refine ⟨moves, ih (there.to moves ?_ ?_) (List.forall_mem_cons.mp depth).2 rfl below⟩
          · have enclosing := congrArg Outline.enclosing there.outline
            have scopeDepth := congrArg Outline.scopeDepth there.outline
            change Outline.mk middle.scopeDepth (others.map (·.declared))
              (middle.enclosing.map (·.declared)) = _
            rw [below, show middle.scopeDepth = _ from scopeDepth,
              show middle.enclosing.map (·.declared) = _ from enclosing]
            rfl
          · obtain ⟨here, others⟩ := List.forall_mem_cons.mp there.orderly
            exact List.forall_mem_cons.mpr ⟨here.tail, others⟩

theorem popTopScopeDepth {token : SourceMapToken Text} {declared : List Declared}
    (here : At (outline.deeper.declare declared) before)
    (declares : outline.deeper.Declares declared) (orderly : outline.Orderly)
    (two : ∀ after, At outline after → Goes (rest ()) post after) :
    Goes (Control.popTopScopeDepth token >>= rest) post before := by
  rw [Control.popTopScopeDepth, Routine.assoc]
  refine get here ?_
  rw [Routine.assoc, show before.scopeDepth = _ from congrArg Outline.scopeDepth here.outline]
  refine popLocals here declares.depth orderly rfl fun middle there => ?_
  refine act there fun _ after runs => ?_
  cases runs
  have moves : middle.Moves { middle with scopeDepth := middle.scopeDepth - 1 } :=
    .still ⟨rfl, rfl⟩ rfl
  refine ⟨moves, two _ (there.to moves ?_ orderly)⟩
  have same := there.outline
  simp only [Compiler.outline, Outline.deeper, Outline.mk.injEq] at same ⊢
  obtain ⟨scopeDepth, back, enclosing⟩ := same
  rw [scopeDepth, back, enclosing]
  rfl

/-- A scope, after what it holds. -/
theorem inScope {inside : Control N α} {token : α → SourceMapToken Text}
    (here : At outline before)
    (inner : ∀ middle, At outline.deeper middle →
      Goes inside (fun _ => Leaves true outline.deeper) middle)
    (two : ∀ after, At outline after → Goes (rest ()) post after) :
    Goes (Control.inScope inside token >>= rest) post before := by
  rw [Control.inScope, Routine.assoc]
  refine act here fun _ middle runs => ?_
  cases runs
  have moves : before.Moves { before with scopeDepth := before.scopeDepth + 1 } := .still ⟨rfl, rfl⟩ rfl
  have deeper : At outline.deeper { before with scopeDepth := before.scopeDepth + 1 } := by
    refine here.to moves ?_ here.orderly.deeper
    rw [← here.outline]
    rfl
  refine ⟨moves, ?_⟩
  rw [Routine.assoc]
  refine Meets.bind (inner _ deeper) fun value after holds leaves => ?_
  obtain ⟨declared, same, declares, -⟩ := leaves
  exact popTopScopeDepth ⟨holds, same⟩ declares here.orderly two

/-- A function, after what it holds. -/
theorem inFunction {isClassInitMethod : Bool} {inside : Control N α}
    {rest : α × FunctionChunk (Chunk.Compiled N) → Control N β} (here : At outline before)
    (inner : ∀ middle, At outline.enter middle →
      Goes inside (fun _ => Leaves true outline.enter) middle)
    (two : ∀ compiled after, At outline after → Goes (rest compiled) post after) :
    Goes (Control.inFunction isClassInitMethod inside >>= rest) post before := by
  rw [Control.inFunction, Routine.assoc]
  refine act here fun _ middle runs => ?_
  cases runs
  have moves : before.Moves { before with
      scopeDepth := before.scopeDepth + 1
      back := { chunk := {}, isClassInitMethod }
      enclosing := before.back :: before.enclosing } := .enters rfl rfl rfl
  refine ⟨moves, ?_⟩
  rw [Routine.assoc]
  refine Meets.bind (inner _ (here.to moves (by rw [← here.outline]; rfl)
    here.orderly.enter)) fun value middle holds leaves => ?_
  obtain ⟨declared, same, -, -⟩ := leaves
  have there : At (outline.enter.declare declared) middle := ⟨holds, same⟩
  refine act there fun compiled after runs => ?_
  obtain ⟨-, scopeDepth, -, enclosing⟩ := leaveFunction_run runs
  refine ⟨.leaves enclosing, two compiled after (there.to (.leaves enclosing) ?_ here.orderly)⟩
  simp only [Compiler.outline, Outline.declare, Outline.enter, Outline.mk.injEq, enclosing,
    List.map_cons, List.cons_eq_cons] at same
  obtain ⟨depth, -, back, others⟩ := same
  rw [Compiler.outline, scopeDepth, depth, back, others]
  rfl

end Goes

end Cpplox
