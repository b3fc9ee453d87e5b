import Cpplox.Tracking.Grows

namespace Cpplox

open Structured Data

namespace Lower

variable {N : Type} {l l₁ l₂ final : Lower N} {declared : List TrackedLocal} {code : LoweredCode}
  {token : SourceMapToken Text}

/-! Scopes. -/

theorem outerLocals_append {depth : Nat} {rest : List TrackedLocal}
    (here : ∀ tracked ∈ declared, tracked.depth = depth)
    (outside : ∀ tracked ∈ rest, tracked.depth < depth) :
    outerLocals depth (declared ++ rest) = rest := by
  induction declared with
  | nil =>
      cases rest with
      | nil => rfl
      | cons tracked others =>
          have different : tracked.depth ≠ depth :=
            Nat.ne_of_lt (outside tracked List.mem_cons_self)
          simp [outerLocals, different]
  | cons tracked others ih =>
      have same : tracked.depth = depth := here tracked List.mem_cons_self
      simp only [List.cons_append, outerLocals, if_pos same]
      exact ih fun other member => here other (List.mem_cons_of_mem _ member)

theorem Tracks.enterScope (tracks : l.Tracks) : l.enterScope.Tracks :=
  ⟨fun tracked member => Nat.le_succ_of_le (tracks.depths tracked member), tracks.initialized,
    tracks.nameless, tracks.linked⟩

/-- What a scope declared is gone after it. -/
theorem leaveScope_some (tracks : l.Tracks) (grows : l.enterScope.Grows declared l₁)
    (declares : l.enterScope.Declares declared)
    (pops : (popTopScopeDepth token).run l₁ = some (code, final)) :
    ∃ rest, l₁.back.trackedLocals = declared ++ rest ∧
      l.back.Extends { l₁.back with trackedLocals := rest } ∧
      code = l₁.pops (l.scopeDepth + 1) token (declared ++ rest) ∧
      final = { l₁.withLocals rest with scopeDepth := l.scopeDepth } := by
  obtain ⟨rfl, rfl⟩ := popTopScopeDepth_some pops
  obtain ⟨rest, split, extends_⟩ := grows.back
  have depth : l₁.scopeDepth = l.scopeDepth + 1 := grows.scopeDepth
  have outside : ∀ tracked ∈ rest, tracked.depth < l.scopeDepth + 1 := by
    intro tracked member
    obtain ⟨before, earlier, same⟩ := extends_.locals.mem member
    exact same.depth ▸ Nat.lt_succ_of_le (tracks.depths before earlier)
  have outer := outerLocals_append declares.depth outside
  refine ⟨rest, split, extends_, by rw [depth, split], ?_⟩
  rw [split, depth]
  simp only [Nat.add_sub_cancel]
  rw [show l.enterScope.scopeDepth = l.scopeDepth + 1 from rfl] at outer
  rw [outer]

theorem leaveScope_steady (tracks : l.Tracks) (grows : l.enterScope.Grows declared l₁)
    (declares : l.enterScope.Declares declared) (linked : Linked l₁.back l₁.enclosing)
    (pops : (popTopScopeDepth token).run l₁ = some (code, final)) : l.Steady final := by
  obtain ⟨rest, -, extends_, -, rfl⟩ := leaveScope_some tracks grows declares pops
  exact ⟨⟨grows.functions, rfl, ⟨rest, rfl, extends_⟩, grows.enclosing⟩,
    fun _ => linked.back rfl⟩

theorem declares_newLocal (inside : 0 < l.scopeDepth) (token : SourceMapToken Text) :
    l.Declares [l.newLocal token true] where
  depth := by simp [newLocal]
  initialized := by simp [newLocal]
  nameless := by simp [newLocal]
  top top := by omega

theorem trackDeclared_grows (runs : (trackDeclared token).run l = some (code, final)) :
    ∃ declared, l.Grows declared final ∧ l.Declares declared ∧
      (Linked l.back l.enclosing → Linked final.back final.enclosing) := by
  rcases trackDeclared_some runs with ⟨inside, tracks⟩ | ⟨-, -, rfl⟩
  · obtain ⟨-, -, rfl⟩ := trackLocal_some tracks
    exact ⟨_, grows_withLocals l [_], declares_newLocal inside token, fun linked => linked.back rfl⟩
  · exact ⟨[], .refl _, .nil _, id⟩

/-- The local of a variable declaration waits for its value. -/
theorem trackWaiting_tracks {waiting : LoweredCode} (tracks : l.Tracks) (settled : l.Settled)
    (runs : (trackDeclared token false).run l = some (waiting, l₁)) : l₁.Tracks := by
  rcases trackDeclared_some runs with ⟨-, runs⟩ | ⟨-, -, rfl⟩
  · obtain ⟨-, -, rfl⟩ := trackLocal_some runs
    refine ⟨fun tracked member => ?_, settled, fun tracked member unnamed => ?_,
      tracks.linked.back rfl⟩
    · rcases List.mem_cons.mp member with rfl | older
      · exact Nat.le_refl _
      · exact tracks.depths tracked older
    · rcases List.mem_cons.mp member with rfl | older
      · rfl
      · exact tracks.nameless tracked older unnamed
  · exact tracks

theorem initializeDeclared_grows {waiting : LoweredCode} (tracks : l₁.Tracks)
    (waits : (trackDeclared token false).run l = some (waiting, l₁)) (value : l₁.Steady l₂)
    (runs : initializeDeclared.run l₂ = some (code, final)) :
    ∃ declared, l.Grows declared final ∧ l.Declares declared ∧ Linked final.back final.enclosing := by
  have linked := value.linked tracks.linked
  obtain ⟨rest, split, extends_⟩ := value.grows.back
  rw [List.nil_append] at split
  rcases trackDeclared_some waits with ⟨inside, laterRuns⟩ | ⟨top, -, rfl⟩
  · obtain ⟨-, -, rfl⟩ := trackLocal_some laterRuns
    have locals : Captures (l.newLocal token false :: l.back.trackedLocals) rest := extends_.locals
    cases locals with
    | @cons _ latest _ older marked captures =>
        have depth : l₂.scopeDepth = l.scopeDepth := value.grows.scopeDepth
        rcases initializeDeclared_some runs with ⟨-, tracked, others, found, -, rfl⟩ | ⟨empty, -, -⟩
        · rw [split] at found
          cases found
          refine ⟨[{ latest with initialized := true }], ⟨value.grows.functions, depth,
            ⟨older, rfl, extends_.chunk, captures, extends_.upvalues, extends_.isClassInitMethod⟩,
            value.grows.enclosing⟩, ⟨?_, by simp, ?_, fun top => by omega⟩, linked.back rfl⟩
          · simpa [newLocal] using marked.depth
          · intro tracked member unnamed
            obtain rfl := List.mem_singleton.mp member
            exact marked.nameless (marked.name ▸ unnamed)
        · rw [empty (by omega)] at split
          cases split
  · rcases initializeDeclared_some runs with ⟨inside, -⟩ | ⟨-, -, rfl⟩
    · have depth := value.grows.scopeDepth
      omega
    · exact ⟨[], value.grows, .nil _, linked⟩

/-- The slot of a global class is tracked only while its superclass is. -/
theorem pushPlaceholder_tracks (tracks : l.Tracks) (settled : l.Settled)
    (runs : pushPlaceholder.run l = some (code, final)) : final.Tracks ∧ final.Settled := by
  rcases pushPlaceholder_some runs with ⟨-, -, rfl⟩ | ⟨-, -, rfl⟩
  · refine ⟨⟨fun tracked member => ?_, settled, fun tracked member unnamed => ?_,
      tracks.linked.back rfl⟩, fun tracked member => ?_⟩
    · rcases List.mem_cons.mp member with rfl | older
      · exact Nat.zero_le _
      · exact tracks.depths tracked older
    · rcases List.mem_cons.mp member with rfl | older
      · rfl
      · exact tracks.nameless tracked older unnamed
    · rcases List.mem_cons.mp member with rfl | older
      · rfl
      · exact settled tracked older
  · exact ⟨tracks, settled⟩

theorem popPlaceholder_steady {placeholder : LoweredCode}
    (pushes : pushPlaceholder.run l = some (placeholder, l₁)) (steady : l₁.Steady l₂)
    (pops : popPlaceholder.run l₂ = some (code, final)) : l.Steady final := by
  have depth := steady.grows.scopeDepth
  rcases pushPlaceholder_some pushes with ⟨top, -, rfl⟩ | ⟨inside, -, rfl⟩
  · rcases popPlaceholder_some pops with ⟨-, -, rfl⟩ | ⟨below, -, -⟩
    · obtain ⟨rest, split, extends_⟩ := steady.grows.back
      have locals : Captures ({ name := [] } :: l.back.trackedLocals) rest := extends_.locals
      cases locals with
      | cons _ captures =>
          rw [show l₂.back.trackedLocals.tail = _ from congrArg List.tail split]
          exact ⟨⟨steady.grows.functions, depth, ⟨_, rfl, extends_.chunk, captures,
            extends_.upvalues, extends_.isClassInitMethod⟩, steady.grows.enclosing⟩,
            fun linked => (steady.linked (linked.back rfl)).back rfl⟩
    · have same : l₂.scopeDepth = l.scopeDepth := depth
      omega
  · rcases popPlaceholder_some pops with ⟨top, -, -⟩ | ⟨-, -, rfl⟩
    · omega
    · exact steady

theorem endSuperclass_steady {superclass : Token} {placeholder code : LoweredCode} (tracks : l₁.Tracks)
    (pushes : pushPlaceholder.run l = some (placeholder, l₁))
    (grows : l₁.enterScope.Grows declared l₂) (declares : l₁.enterScope.Declares declared)
    (linked : Linked l₂.back l₂.enclosing)
    (runs : (endSuperclass superclass).run l₂ = some (code, final)) : l.Steady final := by
  obtain ⟨_, _, _, scope, pops, -⟩ := endSuperclass_some runs
  exact popPlaceholder_steady pushes (leaveScope_steady tracks grows declares linked scope) pops

theorem newLocals_mem {tokens : List (SourceMapToken Text)} {tracked : TrackedLocal}
    (member : tracked ∈ l.newLocals tokens) : ∃ token ∈ tokens, tracked = l.newLocal token true := by
  obtain ⟨token, inside, rfl⟩ := List.mem_map.mp (List.mem_reverse.mp member)
  exact ⟨token, inside, rfl⟩

/-- A function begins with its own name, or `this`, and its parameters. -/
theorem enterFunction_tracks (linked : Linked l.back l.enclosing) (isClassInitMethod : Bool)
    {tokens : List (SourceMapToken Text)} {done : Unit}
    (runs : (trackAll tokens).run (l.enterFunction isClassInitMethod) = some (done, l₁)) :
    l₁.Tracks ∧ l₁.Settled := by
  rw [trackAll_some runs]
  have locals : ((l.enterFunction isClassInitMethod).withLocals
      ((l.enterFunction isClassInitMethod).newLocals tokens ++
        (l.enterFunction isClassInitMethod).back.trackedLocals)).back.trackedLocals =
      (l.enterFunction isClassInitMethod).newLocals tokens := List.append_nil _
  have settled : ∀ tracked ∈ (l.enterFunction isClassInitMethod).newLocals tokens,
      tracked.initialized = true := by
    intro tracked member
    obtain ⟨_, _, rfl⟩ := newLocals_mem member
    rfl
  refine ⟨⟨?_, ?_, ?_, ⟨by simp [withLocals, enterFunction], linked⟩⟩, by rw [Settled, locals]; exact settled⟩
  · intro tracked member
    rw [locals] at member
    obtain ⟨_, _, rfl⟩ := newLocals_mem member
    exact Nat.le_refl _
  · intro tracked member
    rw [locals] at member
    exact settled tracked (List.mem_of_mem_tail member)
  · intro tracked member _
    rw [locals] at member
    obtain ⟨_, _, rfl⟩ := newLocals_mem member
    rfl

/-- The functions around grow while a function is lowered. -/
theorem leaveFunction_steady {isClassInitMethod : Bool} {tokens : List (SourceMapToken Text)}
    {done : Unit} {compiled : FunctionChunk (List (Constant N))}
    (runs : (trackAll tokens).run (l.enterFunction isClassInitMethod) = some (done, l₁))
    (grows : l₁.Grows declared l₂) (linked : Linked l₂.back l₂.enclosing)
    (leaves : l₂.leaveFunction = some (compiled, final)) : l.Steady final := by
  have entered := trackAll_some runs
  have functions : l₁.functions = l.functions := by rw [entered]; rfl
  have depth : l₁.scopeDepth = l.scopeDepth + 1 := by rw [entered]; rfl
  have enclosing : l₁.enclosing = l.back :: l.enclosing := by rw [entered]; rfl
  obtain ⟨-, outer, rest, split, rfl⟩ := leaveFunction_some leaves
  have grown := grows.enclosing
  rw [enclosing, split] at grown
  rw [split] at linked
  cases grown with
  | cons back others =>
      refine ⟨⟨functions ▸ grows.functions, ?_, ⟨_, rfl, back⟩, others⟩, fun _ => linked.2⟩
      simp [grows.scopeDepth, depth]

end Lower

open Lower

variable {N : Type} [Number N]

/-- The scope of `super`, with its placeholder. -/
theorem Lower.beginSuperclass_tracks {l final : Lower N} {name superclass : Token}
    {code : LoweredCode} (tracks : l.Tracks) (settled : l.Settled)
    (runs : (beginSuperclass name superclass).run l = some (code, final)) :
    ∃ placeholder l₁ declared, pushPlaceholder.run l = some (placeholder, l₁) ∧
      l₁.enterScope.Grows declared final ∧ l₁.enterScope.Declares declared ∧ final.Tracks ∧ final.Settled := by
  obtain ⟨placeholder, parent, declared, l₁, l₂, pushes, gets, tracksSuper, -⟩ :=
    beginSuperclass_some runs
  obtain ⟨tracks₁, settled₁⟩ := pushPlaceholder_tracks tracks settled pushes
  have reads := emitGetterSetter_steady gets
  obtain ⟨-, -, rfl⟩ := trackLocal_some tracksSuper
  have inside : 0 < l₂.scopeDepth := by
    have depth : l₂.scopeDepth = l₁.scopeDepth + 1 := reads.grows.scopeDepth
    omega
  have grows := reads.grows.steady
    (grows_withLocals l₂ [l₂.newLocal (superTokenAt superclass.line) true])
  have declares := (declares_newLocal inside (superTokenAt superclass.line)).of_scopeDepth
    reads.grows.scopeDepth.symm
  have settledScope : l₁.enterScope.Settled := settled₁
  refine ⟨placeholder, l₁, _, pushes, grows, declares, ?_, grows.settled declares settledScope⟩
  exact grows.tracks declares tracks₁.enterScope (fun _ => settledScope)
    ((reads.linked tracks₁.linked).back rfl)

/-- What a node of the tree may be lowered in. -/
def Lower.Node.Ready (l : Lower N) : Node → Prop
  | .stmt _ | .decl _ | .decls _ | .methods _ => l.Tracks ∧ l.Settled
  | .expr _ _ | .args _ | .function _ _ _ _ _ _ _ => l.Tracks

def Lower.Node.Outcome (l final : Lower N) : Node → Prop
  | .decl _ | .decls _ => ∃ declared, l.Grows declared final ∧ l.Declares declared ∧
      Linked final.back final.enclosing
  | .expr _ _ | .args _ | .function _ _ _ _ _ _ _ | .stmt _ | .methods _ => l.Steady final

/-- Lowering keeps the tracking in order, and only declarations leave new locals. -/
theorem Lower.Lowers.outcome {l final : Lower N} {node : Node} {code : LoweredCode}
    (lowers : Lowers l node code final) (ready : node.Ready l) : node.Outcome l final := by
  induction lowers with
  | false_ | true_ | nil | argsNil | empty | methodsNil => exact .refl _
  | number runs | string runs => exact emitWithConstant_steady runs
  | occurrence runs => exact emitGetterSetter_steady runs
  | super receiver superclass method =>
      exact ((emitGetterSetter_steady receiver).trans (emitGetterSetter_steady superclass)).trans
        (emitWithConstant_steady method)
  | functionExpr _ ih => exact ih ready
  | call _ _ call callee args =>
      have first := callee ready
      exact (first.trans (args (first.tracks ready))).trans (emitIndex_steady call)
  | getProperty _ property object => exact (object ready).trans (emitWithConstant_steady property)
  | unary _ operand => exact operand ready
  | binary _ _ _ left right | and_ _ _ left right | or_ _ _ left right =>
      have first := left ready
      exact first.trans (right (first.tracks ready))
  | assign _ assignment value => exact (value ready).trans (emitAssignment_steady assignment)
  | argsCons _ _ head tail =>
      have first := head ready
      exact first.trans (tail (first.tracks ready))
  | function tracks _ returns leaves closure body =>
      obtain ⟨declared, grows, declares, linked⟩ := body (enterFunction_tracks ready.linked _ tracks)
      obtain ⟨rfl, -⟩ := emitDefaultReturnValue_some returns
      exact (leaveFunction_steady tracks grows linked leaves).trans (emitFunction_steady closure)
  | expression _ value | print _ value => exact value ready.1
  | if_ _ _ _ condition thenBranch elseBranch =>
      have test := condition ready.1
      have yes := thenBranch (test.ready ready)
      have both := test.trans yes
      exact both.trans (elseBranch (both.ready ready))
  | for_ _ _ _ _ pops initializer condition increment body =>
      have entered := ready.1.enterScope
      obtain ⟨declared, grows, declares, linked⟩ := initializer ⟨entered, ready.2⟩
      have tracks := grows.tracks declares entered (fun _ => ready.2) linked
      have settled := grows.settled declares ready.2
      have test := condition tracks
      have step := test.trans (increment ⟨test.tracks tracks, test.settled settled⟩)
      have inner := step.trans (body ⟨step.tracks tracks, step.settled settled⟩)
      obtain ⟨later, all, same⟩ := grows.then_steady inner.grows
      exact leaveScope_steady ready.1 all (declares.captures same) (inner.linked linked) pops
  | block _ pops body =>
      obtain ⟨declared, grows, declares, linked⟩ := body ⟨ready.1.enterScope, ready.2⟩
      exact leaveScope_steady ready.1 grows declares linked pops
  | returnDefault _ value => exact emitDefaultReturnValue_steady value
  | return_ _ _ _ value => exact value ready.1
  | while_ _ _ condition body =>
      have test := condition ready.1
      exact test.trans (body (test.ready ready))
  | statement _ body =>
      have steady := body ready
      exact ⟨[], steady.grows, .nil _, steady.linked ready.1.linked⟩
  | baseClass klass declared _ define methods =>
      have named := emitWithConstant_steady klass
      obtain ⟨names, grows, declares, linked⟩ := trackDeclared_grows declared
      have steady := named.grows.steady grows
      have declares := declares.of_scopeDepth named.grows.scopeDepth.symm
      have linked := linked (named.linked ready.1.linked)
      have tracks := steady.tracks declares ready.1 (fun _ => ready.2) linked
      have rest := (methods ⟨tracks, steady.settled declares ready.2⟩).trans
        (defineGlobalAtTop_steady define)
      obtain ⟨later, all, same⟩ := steady.then_steady rest.grows
      exact ⟨later, all, declares.captures same, rest.linked linked⟩
  | subclass klass declared before _ after define methods =>
      have named := emitWithConstant_steady klass
      obtain ⟨names, grows, declares, linked⟩ := trackDeclared_grows declared
      have steady := named.grows.steady grows
      have declares := declares.of_scopeDepth named.grows.scopeDepth.symm
      have linked := linked (named.linked ready.1.linked)
      have tracks := steady.tracks declares ready.1 (fun _ => ready.2) linked
      have settled := steady.settled declares ready.2
      obtain ⟨_, _, supers, pushes, begins, declaresSuper, tracksBody, settledBody⟩ :=
        beginSuperclass_tracks tracks settled before
      have body := methods ⟨tracksBody, settledBody⟩
      obtain ⟨later, all, same⟩ := begins.then_steady body.grows
      have scope := endSuperclass_steady (pushPlaceholder_tracks tracks settled pushes).1 pushes all
        (declaresSuper.captures same) (body.linked tracksBody.linked) after
      have rest := scope.trans (defineGlobalAtTop_steady define)
      obtain ⟨later, all, same⟩ := steady.then_steady rest.grows
      exact ⟨later, all, declares.captures same, rest.linked linked⟩
  | fun_ _ define declared closure =>
      have first := (closure ready.1).trans (defineGlobalAtTop_steady define)
      obtain ⟨names, grows, declares, linked⟩ := trackDeclared_grows declared
      exact ⟨names, first.grows.steady grows, declares.of_scopeDepth first.grows.scopeDepth.symm,
        linked (first.linked ready.1.linked)⟩
  | var tracked _ define declared value =>
      have tracks := trackWaiting_tracks ready.1 ready.2 tracked
      exact initializeDeclared_grows tracks tracked
        ((value tracks).trans (defineGlobalAtTop_steady define)) declared
  | declsNil => exact ⟨[], .refl _, .nil _, ready.1.linked⟩
  | declsCons _ _ head tail =>
      obtain ⟨first, grows, declares, linked⟩ := head ready
      have tracks := grows.tracks declares ready.1 (fun _ => ready.2) linked
      obtain ⟨more, laterGrows, laterDeclares, linked⟩ := tail ⟨tracks, grows.settled declares ready.2⟩
      obtain ⟨earlier, all, same⟩ := grows.trans laterGrows
      exact ⟨_, all, (declares.captures same).append
        (laterDeclares.of_scopeDepth grows.scopeDepth.symm), linked⟩
  | methodsCons _ method _ closure tail =>
      have first := (closure ready.1).trans (emitWithConstant_steady method)
      exact first.trans (tail (first.ready ready))

end Cpplox
