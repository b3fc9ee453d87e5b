import Cpplox.Ast.Filled
import Cpplox.Contexts.Leaves

namespace Cpplox

open Structured Data Lower

variable {N : Type}

/-! Every function that lowering makes is certified. -/

/-- The functions made since are certified when the ones before were, among all that are
ever made. -/
def Lower.Certifies (l outcome : Lower N) : Prop :=
  ∀ functions, outcome.functions <+: functions →
    (∀ function ∈ l.functions, function.kind ≠ .script ∧ function.Certified functions) →
    ∀ function ∈ outcome.functions, function.kind ≠ .script ∧ function.Certified functions

namespace Lower.Certifies

variable {l l₁ l₂ : Lower N}

theorem of_functions (same : l₁.functions = l.functions) : l.Certifies l₁ :=
  fun _ _ certified function member => certified function (same ▸ member)

theorem refl (l : Lower N) : l.Certifies l := of_functions rfl

theorem then_same (first : l.Certifies l₁) (same : l₂.functions = l₁.functions) :
    l.Certifies l₂ :=
  fun functions all certified => same ▸ first functions (same ▸ all) certified

theorem trans (first : l.Certifies l₁) (second : l₁.Certifies l₂)
    (longer : l₁.functions <+: l₂.functions) : l.Certifies l₂ :=
  fun functions all certified =>
    second functions all (first functions (longer.trans all) certified)

end Lower.Certifies

namespace Lower

variable {l outcome : Lower N} {code : LoweredCode} {token : SourceMapToken Text} {opcode : Opcode}
  {occurrence : Option Text}

theorem emitDefaultReturnValue_functions
    (runs : (emitDefaultReturnValue token).run l = some (code, outcome)) : outcome.functions = l.functions := by
  obtain ⟨rfl, -⟩ := emitDefaultReturnValue_some runs
  rfl

theorem trackDeclared_functions {initialized : Bool}
    (runs : (trackDeclared token initialized).run l = some (code, outcome)) :
    outcome.functions = l.functions := by
  rcases trackDeclared_some runs with ⟨-, tracks⟩ | ⟨-, -, rfl⟩
  · obtain ⟨-, -, rfl⟩ := trackLocal_some tracks
    rfl
  · rfl

theorem initializeDeclared_functions (runs : initializeDeclared.run l = some (code, outcome)) :
    outcome.functions = l.functions := by
  rcases initializeDeclared_some runs with ⟨-, _, _, -, -, rfl⟩ | ⟨-, -, rfl⟩ <;> rfl

theorem popTopScopeDepth_functions (runs : (popTopScopeDepth token).run l = some (code, outcome)) :
    outcome.functions = l.functions := by
  obtain ⟨-, rfl⟩ := popTopScopeDepth_some runs
  rfl

theorem pushPlaceholder_functions (runs : pushPlaceholder.run l = some (code, outcome)) :
    outcome.functions = l.functions := by
  rcases pushPlaceholder_some runs with ⟨-, -, rfl⟩ | ⟨-, -, rfl⟩ <;> rfl

theorem endSuperclass_functions {superclass : Token}
    (runs : (endSuperclass superclass).run l = some (code, outcome)) : outcome.functions = l.functions := by
  obtain ⟨_, _, l₁, scope, placeholder, -⟩ := endSuperclass_some runs
  have popped := popTopScopeDepth_functions scope
  rcases popPlaceholder_some placeholder with ⟨-, -, rfl⟩ | ⟨-, -, rfl⟩ <;> exact popped

variable [Number N]

theorem emitWithConstant_functions {value : Constant N}
    (runs : (emitWithConstant opcode value token occurrence).run l = some (code, outcome)) :
    outcome.functions = l.functions := by
  obtain ⟨-, rfl⟩ := emitWithConstant_some runs
  rfl

theorem emitGetterSetter_functions {localOpcode upvalueOpcode globalOpcode : Opcode}
    (runs : (emitGetterSetter localOpcode upvalueOpcode globalOpcode token).run l =
      some (code, outcome)) : outcome.functions = l.functions := by
  obtain ⟨-, accesses⟩ := emitGetterSetter_some runs
  cases accesses <;> rfl

theorem FollowsPath.functions {names : List Token} (follows : FollowsPath l names code outcome) :
    outcome.functions = l.functions := by
  induction follows with
  | last runs => exact emitWithConstant_functions runs
  | step runs _ ih => exact ih.trans (emitWithConstant_functions runs)

theorem emitAssignment_functions {target : Token} {names : List Token}
    (runs : (emitAssignment target names).run l = some (code, outcome)) :
    outcome.functions = l.functions := by
  rcases emitAssignment_some runs with ⟨-, sets⟩ | ⟨_, _, _, gets, follows, -⟩
  · exact emitGetterSetter_functions sets
  · exact follows.functions.trans (emitGetterSetter_functions gets)

theorem defineGlobalAtTop_functions {name : Text}
    (runs : (defineGlobalAtTop name token).run l = some (code, outcome)) :
    outcome.functions = l.functions := by
  rcases defineGlobalAtTop_some runs with ⟨-, emits⟩ | ⟨-, -, rfl⟩
  · exact emitWithConstant_functions emits
  · rfl

theorem beginSuperclass_functions {name superclass : Token}
    (runs : (beginSuperclass name superclass).run l = some (code, outcome)) :
    outcome.functions = l.functions := by
  obtain ⟨_, _, _, l₁, l₂, pushes, gets, tracks, -⟩ := beginSuperclass_some runs
  obtain ⟨-, -, rfl⟩ := trackLocal_some tracks
  have pushed : l₁.functions = l.functions := pushPlaceholder_functions pushes
  exact (emitGetterSetter_functions gets).trans pushed

/-- Lowering a function makes it, after those inside of it. -/
theorem emitFunction_certifies {function : LoweredFunction N} {leading : Bool}
    (runs : (emitFunction function token leading).run l = some (code, outcome))
    (certified : ∀ functions, outcome.functions <+: functions →
      function.kind ≠ .script ∧ function.Certified functions) :
    l.Certifies outcome := by
  obtain ⟨rfl, -⟩ := emitFunction_some runs
  intro functions all earlier other member
  rcases List.mem_append.mp member with old | new
  · exact earlier other old
  · rw [List.mem_singleton.mp new]
    exact certified functions all

end Lower

namespace Surroundings

variable {around : Surroundings N} {locals above declared : List TrackedLocal}
  {l l₁ l₂ l₃ outcome : Lower N} {code test step inner body whenTrue whenFalse : LoweredCode}
  {token : SourceMapToken Text}

theorem passes_slots (covers : around.Covers l locals) (token : SourceMapToken Text)
    (temporaries : Nat) :
    around.typing.passes (.live (around.slots temporaries locals)) (l.tagAt token) :=
  ⟨_, rfl, temporaries, locals, covers.captures, rfl⟩

theorem tests_slots (covers : around.Covers l locals) (tall : around.Tall locals)
    (token : SourceMapToken Text) (temporaries : Nat) :
    around.typing.condition (.live (around.slots (1 + temporaries) locals)) (l.tagAt token) := by
  refine ⟨_, rfl, ⟨around.slots temporaries locals, slots_add around 1 temporaries locals, ?_⟩,
    _, locals, covers.captures, rfl⟩
  rw [length_slots]
  exact Nat.le_trans tall (Nat.le_add_left _ _)

theorem flows_pop (covers : around.Covers l locals) (tall : around.Tall locals)
    (token : SourceMapToken Text) (temporaries : Nat) :
    around.Flows (1 + temporaries) locals (l.simple .pop token) temporaries locals := by
  have pops := flows_simple .pop token rfl covers tall temporaries
  rw [show (Instr.simple .pop).pushes = 0 from rfl, Nat.zero_add] at pops
  exact pops

theorem flows_literal (opcode : Opcode) (shape : opcode.shape = .simple)
    (counts : (Instr.simple opcode).pops = 0 ∧ (Instr.simple opcode).pushes = 1)
    (token : SourceMapToken Text) (covers : around.Covers l locals) (tall : around.Tall locals)
    (temporaries : Nat) :
    around.Flows temporaries locals (l.simple opcode token) (1 + temporaries) locals := by
  have flows := flows_simple opcode token shape covers tall temporaries
  rwa [counts.1, counts.2, Nat.zero_add] at flows

theorem flows_unary (type : TokenType) (token : SourceMapToken Text)
    (covers : around.Covers l locals) (tall : around.Tall locals) (temporaries : Nat) :
    around.Flows (1 + temporaries) locals (l.simple (unaryOpcode type) token) (1 + temporaries)
      locals := by
  have counts : (unaryOpcode type).shape = .simple ∧ (Instr.simple (unaryOpcode type)).pops = 1 ∧
      (Instr.simple (unaryOpcode type)).pushes = 1 := by
    cases type <;> exact ⟨rfl, rfl, rfl⟩
  have flows := flows_simple (unaryOpcode type) token counts.1 covers tall temporaries
  rwa [counts.2.1, counts.2.2] at flows

theorem flows_call {count : Nat} (runs : (Lower.emitIndex .call count token).run l = some (code, outcome))
    (covers : around.Covers outcome locals) (tall : around.Tall locals) (temporaries : Nat) :
    around.Flows (count + (1 + temporaries)) locals code (1 + temporaries) locals := by
  obtain ⟨rfl, rfl⟩ := emitIndex_some runs
  have flows := flows_operand .call count token none covers tall temporaries trivial
  rwa [show (Instr.operand .call count).pops + temporaries = count + (1 + temporaries) from
    Nat.add_assoc count 1 temporaries] at flows

theorem flows_and (covers : around.Covers l locals) (tall : around.Tall locals) {temporaries : Nat}
    (token : SourceMapToken Text)
    (second : around.Flows temporaries locals code (1 + temporaries) locals) :
    around.Flows (1 + temporaries) locals
      (.skipIfFalse (l.tagAt token) (.seq (l.simple .pop token) code)) (1 + temporaries) locals :=
  .skipIfFalse (tests_slots covers tall token temporaries)
    (.seq (flows_pop covers tall token temporaries) second)

theorem flows_or (covers : around.Covers l locals) (tall : around.Tall locals) {temporaries : Nat}
    (token : SourceMapToken Text)
    (second : around.Flows temporaries locals code (1 + temporaries) locals) :
    around.Flows (1 + temporaries) locals
      (.skipIfTrue (l.tagAt token) (.seq (l.simple .pop token) code)) (1 + temporaries) locals :=
  .skipIfTrue (tests_slots covers tall token temporaries) (passes_slots covers token _)
    (.seq (flows_pop covers tall token temporaries) second)

theorem flows_if (covers : around.Covers l locals) (laterCovers : around.Covers l₁ locals)
    (tall : around.Tall locals) (token : SourceMapToken Text)
    (yes : around.Flows 0 locals whenTrue 0 locals)
    (no : around.Flows 0 locals whenFalse 0 locals) :
    around.Flows 1 locals (.branch (l.tagAt token) (.seq (l.simple .pop token) whenTrue)
      (.seq (l₁.simple .pop token) whenFalse)) 0 locals :=
  .branch (tests_slots covers tall token 0) (passes_slots covers token 0)
    (.seq (flows_pop covers tall token 0) yes) (.seq (flows_pop laterCovers tall token 0) no)

theorem flows_while (covers : around.Covers l locals) (tall : around.Tall locals)
    (token : SourceMapToken Text) (condition : around.Flows 0 locals test 1 locals)
    (body : around.Flows 0 locals inner 0 locals) :
    around.Flows 0 locals
      (.whileLoop (l.tagAt token) test (.seq (l.simple .pop token) inner)) 1 locals :=
  .whileLoop condition (tests_slots covers tall token 0) (passes_slots covers token 0)
    (.seq (flows_pop covers tall token 0) body)

theorem flows_for (covers : around.Covers l locals) (laterCovers : around.Covers l₁ locals)
    (tall : around.Tall locals) (token : SourceMapToken Text)
    (condition : around.Flows 0 locals test 1 locals)
    (increment : around.Flows 0 locals step 0 locals)
    (body : around.Flows 0 locals inner 0 locals) :
    around.Flows 0 locals
      (.forLoop (l.tagAt token) test step (.seq (l₁.simple .pop token) inner)) 1 locals :=
  .forLoop condition (tests_slots covers tall token 0) (passes_slots covers token 1)
    (passes_slots covers token 0) increment (.seq (flows_pop laterCovers tall token 0) body)

/-- What a scope declares is popped at its end. -/
theorem flows_scope (tracks : l.Tracks) (grows : l.enterScope.Grows declared l₁)
    (declares : l.enterScope.Declares declared) (tall : around.Tall locals)
    (pops : (Lower.popTopScopeDepth token).run l₁ = some (code, outcome)) (covers : around.Covers outcome locals) :
    around.Covers l₁ (declared ++ locals) ∧
      around.Flows 0 (declared ++ locals) code 0 locals := by
  obtain ⟨rest, split, extends_, rfl, rfl⟩ := leaveScope_some tracks grows declares pops
  have captures : Captures rest locals := covers.captures
  refine ⟨⟨?_, covers.constants, covers.upvalues, covers.functions, covers.initializer⟩, ?_⟩
  · rw [split]
    exact Captures.append (Captures.refl declared) captures
  · refine flows_pops declares.depth (fun tracked member => ?_) declares.initialized captures tall
    obtain ⟨before, earlier, same⟩ := extends_.locals.mem member
    exact same.depth ▸ Nat.lt_succ_of_le (tracks.depths before earlier)

/-- A newly named value. -/
theorem flows_trackDeclared (runs : (Lower.trackDeclared token).run l = some (code, l₁))
    (steady : l₁.Steady outcome) (covers : around.Covers outcome (above ++ locals))
    (same : locals.length = l.back.trackedLocals.length) :
    around.Flows 1 locals code (if l.scopeDepth = 0 then 1 else 0) (above ++ locals) ∧
      (l.scopeDepth = 0 → above = []) := by
  have captures := (covers.before steady.grows).captures
  have length := captures.length
  rcases trackDeclared_some runs with ⟨inside, tracks⟩ | ⟨top, rfl, rfl⟩
  · obtain ⟨-, rfl, rfl⟩ := trackLocal_some tracks
    refine ⟨?_, fun top => by omega⟩
    rw [if_neg (by omega)]
    simp only [withLocals, List.length_append, List.length_cons, same] at length
    obtain ⟨marked, rfl⟩ := List.length_eq_one_iff.mp (show above.length = 1 by omega)
    cases captures with
    | cons marks _ => exact flows_declared rfl marks locals
  · rw [if_pos top]
    have empty : above = [] := by
      rw [List.length_append, same] at length
      exact List.length_eq_zero_iff.mp (by omega)
    subst empty
    exact ⟨.nil, fun _ => rfl⟩

/-- What was declared since lies above the earlier locals. -/
theorem Covers.below (grows : l.Grows declared outcome) (covers : around.Covers outcome (above ++ locals))
    (same : locals.length = l.back.trackedLocals.length) :
    around.Covers l locals ∧ Captures declared above := by
  obtain ⟨upper, lower, split, captures, earlier⟩ := Covers.split grows covers
  have length : locals.length = lower.length := by rw [same, ← earlier.captures.length]
  obtain ⟨rfl, rfl⟩ := List.append_inj' split length
  exact ⟨earlier, captures⟩

theorem Covers.length (covers : around.Covers outcome locals) (grows : l.Grows [] outcome) :
    locals.length = l.back.trackedLocals.length :=
  (covers.before grows).captures.length

/-- Nothing was declared since. -/
theorem Covers.nothing (covers : around.Covers outcome (above ++ locals)) (grows : l.Grows [] outcome)
    (same : locals.length = l.back.trackedLocals.length) : above = [] := by
  obtain ⟨-, captures⟩ := Covers.below grows covers same
  cases captures
  rfl

/-- What was declared by two declarations. -/
theorem Covers.both {more : List TrackedLocal} (first : l.Grows declared l₁)
    (second : l₁.Grows more outcome) (covers : around.Covers outcome (above ++ locals))
    (same : locals.length = l.back.trackedLocals.length) :
    ∃ upper lower, above = upper ++ lower ∧ around.Covers l₁ (lower ++ locals) := by
  obtain ⟨upper, below, split, -, earlier⟩ := Covers.split second covers
  obtain ⟨lower, bottom, rfl, -, earliest⟩ := Covers.split first earlier
  have length : locals.length = bottom.length := by rw [same, earliest.captures.length]
  rw [← List.append_assoc] at split
  obtain ⟨rfl, rfl⟩ := List.append_inj' split length
  exact ⟨upper, lower, rfl, earlier⟩

variable [Number N]

theorem flows_define {name : Text}
    (runs : (Lower.defineGlobalAtTop name token).run l = some (code, outcome))
    (covers : around.Covers outcome locals) (tall : around.Tall locals) :
    around.Flows (if l.scopeDepth = 0 then 1 else 0) locals code 0 locals := by
  rcases defineGlobalAtTop_some runs with ⟨top, emits⟩ | ⟨inside, rfl, rfl⟩
  · rw [if_pos top]
    exact flows_name rfl emits covers tall 0
  · rw [if_neg (by omega)]
    exact .nil

theorem flows_method {name : Text}
    (runs : (Lower.emitName .method name token).run l = some (code, outcome))
    (covers : around.Covers outcome locals) (tall : around.Tall locals) (temporaries : Nat) :
    around.Flows (1 + temporaries) locals code temporaries locals := by
  have flows := flows_name rfl runs covers tall temporaries
  rwa [show (Instr.operand .method 0).pushes = 0 from rfl, Nat.zero_add] at flows

/-- A function is defined by its name at once. -/
theorem flows_fun {name : Text} {define declaredCode : LoweredCode}
    {nameToken : SourceMapToken Text}
    (defines : (Lower.defineGlobalAtTop name token).run l = some (define, l₁))
    (names : (Lower.trackDeclared nameToken).run l₁ = some (declaredCode, outcome))
    (covers : around.Covers outcome (above ++ locals))
    (same : locals.length = l₁.back.trackedLocals.length) (tall : around.Tall locals) :
    around.Flows 1 locals (.seq define declaredCode) 0 (above ++ locals) := by
  have depth : l₁.scopeDepth = l.scopeDepth := (defineGlobalAtTop_steady defines).grows.scopeDepth
  obtain ⟨flows, empty⟩ := flows_trackDeclared names (.refl outcome) covers same
  rcases defineGlobalAtTop_some defines with ⟨top, emits⟩ | ⟨inside, rfl, rfl⟩
  · obtain rfl := empty (depth.trans top)
    rcases trackDeclared_some names with ⟨inside, -⟩ | ⟨-, rfl, rfl⟩
    · omega
    · exact .seq (flows_name rfl emits covers tall 0) .nil
  · rw [if_neg (by omega)] at flows
    exact .seq .nil flows

/-- A class is a value while its methods are defined, and a local class has its place. -/
theorem flows_class {name : Text} {classToken nameToken : SourceMapToken Text}
    {klass declaredCode define : LoweredCode}
    (makes : (Lower.emitName .class_ name classToken).run l = some (klass, l₁))
    (names : (Lower.trackDeclared nameToken).run l₁ = some (declaredCode, l₂))
    (steady : l₂.Steady l₃)
    (body : ∀ locals, around.Covers l₃ locals → around.Tall locals →
      around.Flows (if l₂.scopeDepth = 0 then 1 else 0) locals inner
        (if l₂.scopeDepth = 0 then 1 else 0) locals)
    (defines : (Lower.defineGlobalAtTop name classToken).run l₃ = some (define, outcome))
    (covers : around.Covers outcome (above ++ locals))
    (same : locals.length = l.back.trackedLocals.length) (tall : around.Tall locals) :
    around.Flows 0 locals (.seq klass (.seq declaredCode (.seq inner define))) 0
      (above ++ locals) := by
  have made := emitWithConstant_steady makes
  have defined := defineGlobalAtTop_steady defines
  have covers₃ := covers.before defined.grows
  have same₁ := same.trans made.grows.length_locals.symm
  obtain ⟨flows, -⟩ := flows_trackDeclared names steady covers₃ same₁
  obtain ⟨declared, grows, -, -⟩ := trackDeclared_grows names
  have covers₁ := (Covers.below grows (covers₃.before steady.grows) same₁).1
  have depth : l₁.scopeDepth = l₂.scopeDepth := grows.scopeDepth.symm
  have depth₃ : l₃.scopeDepth = l₂.scopeDepth := steady.grows.scopeDepth
  rw [depth] at flows
  have last := flows_define defines covers (Tall.above tall above)
  rw [depth₃] at last
  exact .seq (flows_name rfl makes covers₁ tall 0)
    (.seq flows (.seq (body _ covers₃ (Tall.above tall above)) last))

/-- The scope of `super`, entered with the class below it. -/
theorem flows_super {superclass : Token} {parent scope : LoweredCode} (popToken : SourceMapToken Text)
    (tracks : l.Tracks)
    (gets : (Lower.emitGetter (sourceMapToken superclass)).run l.enterScope = some (parent, l₁))
    (names : (Lower.trackLocal token).run l₁ = some (code, l₂)) (methods : l₂.Steady l₃)
    (body : ∀ locals, around.Covers l₃ locals → around.Tall locals →
      around.Flows 1 locals inner 1 locals)
    (pops : (Lower.popTopScopeDepth token).run l₃ = some (scope, outcome))
    (covers : around.Covers outcome locals) (tall : around.Tall locals) :
    ∃ later, around.Flows 0 locals
        (.seq parent (.seq code (l₂.simple .inherit (sourceMapToken superclass)))) 1 later ∧
      around.Flows 1 later inner 1 later ∧
      around.Flows 1 later (l₃.simple .pop popToken) 0 later ∧ around.Flows 0 later scope 0 locals := by
  have reads := emitGetterSetter_steady gets
  obtain ⟨-, rfl, rfl⟩ := trackLocal_some names
  have inside : 0 < l₁.scopeDepth := by
    have depth : l₁.scopeDepth = l.scopeDepth + 1 := reads.grows.scopeDepth
    omega
  obtain ⟨supers, grows, captures⟩ := (grows_withLocals l₁ [l₁.newLocal token true]).then_steady
    methods.grows
  have declares := (declares_newLocal inside token).of_scopeDepth reads.grows.scopeDepth.symm
  obtain ⟨coversBody, flowsScope⟩ := flows_scope tracks (reads.grows.steady grows)
    (declares.captures captures) tall pops covers
  have length : locals.length = l.back.trackedLocals.length := by
    obtain ⟨rest, split, extends_, -, rfl⟩ :=
      leaveScope_some tracks (reads.grows.steady grows) (declares.captures captures) pops
    rw [covers.captures.length]
    exact extends_.locals.length
  have same : locals.length = l₁.back.trackedLocals.length := by
    obtain ⟨rest, split, extends_⟩ := reads.grows.back
    rw [length, split, List.nil_append]
    exact extends_.locals.length.symm
  obtain ⟨coversParent, -⟩ := coversBody.below grows same
  have coversInherit := coversBody.before methods.grows
  have tallBody := Tall.above tall supers
  cases captures with
  | @cons _ marked _ _ mark rest =>
      cases rest
      refine ⟨[marked] ++ locals, .seq ?_ (.seq (flows_declared rfl mark locals) ?_),
        body _ coversBody tallBody, flows_pop coversBody tallBody popToken 0, flowsScope⟩
      · exact flows_getter tracks.enterScope gets coversParent tall 0
      · exact flows_simple .inherit _ rfl coversInherit tallBody 0

/-- A class with a superclass; the slot of a global class is a variable in between. -/
theorem flows_superclass {name superclass : Token} {before after : LoweredCode} (tracks : l.Tracks)
    (settled : l.Settled)
    (begins : (Lower.beginSuperclass name superclass).run l = some (before, l₁))
    (methods : l₁.Steady l₂)
    (body : ∀ locals, around.Covers l₂ locals → around.Tall locals →
      around.Flows 1 locals inner 1 locals)
    (ends : (Lower.endSuperclass superclass).run l₂ = some (after, outcome))
    (covers : around.Covers outcome locals) (tall : around.Tall locals) :
    around.Flows (if l.scopeDepth = 0 then 1 else 0) locals (.seq before (.seq inner after))
      (if l.scopeDepth = 0 then 1 else 0) locals := by
  obtain ⟨placeholder, parent, declared, m₁, m₂, pushes, gets, names, rfl⟩ :=
    beginSuperclass_some begins
  obtain ⟨scope, unplaced, m₃, pops, unplaces, rfl⟩ := endSuperclass_some ends
  have tracksScope := (pushPlaceholder_tracks tracks settled pushes).1
  obtain ⟨_, _, supers, pushed, grows, declares, tracksBody, -⟩ :=
    beginSuperclass_tracks tracks settled begins
  rw [pushes] at pushed
  cases pushed
  obtain ⟨later, all, captures⟩ := grows.then_steady methods.grows
  have steady := leaveScope_steady tracksScope all (declares.captures captures)
    (methods.linked tracksBody.linked) pops
  have depth : m₃.scopeDepth = m₁.scopeDepth := steady.grows.scopeDepth
  rcases pushPlaceholder_some pushes with ⟨top, rfl, rfl⟩ | ⟨below, rfl, rfl⟩
  · rcases popPlaceholder_some unplaces with ⟨-, rfl, rfl⟩ | ⟨below, -, -⟩
    · obtain ⟨rest, split, extends_⟩ := steady.grows.back
      have places : Captures ({ name := [] } :: l.back.trackedLocals) rest := extends_.locals
      cases places with
      | @cons _ place _ _ marked _ =>
          have captured : place.isCaptured = false := marked.nameless rfl
          have coversScope : around.Covers m₃ (place :: locals) := by
            refine ⟨?_, covers.constants, covers.upvalues, covers.functions, covers.initializer⟩
            have kept := covers.captures
            simp only [withLocals, split, List.nil_append, List.tail_cons] at kept
            rw [split]
            exact .cons (.refl place) kept
          obtain ⟨above, flowsBegin, flowsBody, flowsPop, flowsScope⟩ := flows_super
            (sourceMapToken superclass) tracksScope gets names methods body pops coversScope
            (Tall.above tall [place])
          rw [if_pos top]
          refine .seq (.seq ?_ flowsBegin) (.seq flowsBody (.seq flowsPop (.seq flowsScope ?_)))
          · change around.Flows 1 locals (Lower.declared { name := [] }) 0 (place :: locals)
            exact flows_declared rfl marked locals
          · rw [slots_cons_initialized around marked.initialized, captured, slots_succ around 0]
            exact .mark .untracked
    · have laterTop : m₃.scopeDepth = 0 := depth.trans top
      omega
  · rcases popPlaceholder_some unplaces with ⟨top, -, -⟩ | ⟨-, rfl, rfl⟩
    · omega
    · obtain ⟨above, flowsBegin, flowsBody, flowsPop, flowsScope⟩ := flows_super
        (sourceMapToken superclass) tracksScope gets names methods body pops covers tall
      rw [if_neg (by omega)]
      exact .seq (.seq .nil flowsBegin) (.seq flowsBody (.seq flowsPop (.seq flowsScope .nil)))

/-- A variable is in place when its initial value is. -/
theorem flows_var {name : Token} {tracked value define declaredCode : LoweredCode}
    (settled : l.Settled)
    (waits : (Lower.trackDeclared (sourceMapToken name) false).run l = some (tracked, l₁))
    (steady : l₁.Steady l₂)
    (flows : ∀ locals, around.Covers l₂ locals → around.Tall locals →
      around.Flows 0 locals value 1 locals)
    (defines : (Lower.defineGlobalAtTop name.lexeme token).run l₂ = some (define, l₃))
    (initializes : Lower.initializeDeclared.run l₃ = some (declaredCode, outcome))
    (covers : around.Covers outcome (above ++ locals)) (same : locals.length = l.back.trackedLocals.length)
    (tall : around.Tall locals) :
    around.Flows 0 locals (.seq value (.seq define declaredCode)) 0 (above ++ locals) := by
  have defined := defineGlobalAtTop_steady defines
  have all := steady.trans defined
  rcases trackDeclared_some waits with ⟨inside, names⟩ | ⟨top, -, rfl⟩
  · obtain ⟨-, -, rfl⟩ := trackLocal_some names
    have depth₂ : l₂.scopeDepth = l.scopeDepth := steady.grows.scopeDepth
    have depth₃ : l₃.scopeDepth = l.scopeDepth := all.grows.scopeDepth
    rcases defineGlobalAtTop_some defines with ⟨top, -⟩ | ⟨-, rfl, rfl⟩
    · omega
    obtain ⟨rest, split, extends_⟩ := steady.grows.back
    have locals₂ : Captures (l.newLocal (sourceMapToken name) false :: l.back.trackedLocals) rest :=
      extends_.locals
    cases locals₂ with
    | @cons _ latest _ older marked captures =>
        rcases initializeDeclared_some initializes with
          ⟨-, head, others, found, rfl, rfl⟩ | ⟨empty, -, -⟩
        · rw [split] at found
          cases found
          have kept := covers.captures
          have length := kept.length
          simp only [withLocals, List.length_append, List.length_cons, same,
            Captures.length captures] at length
          obtain ⟨final, rfl⟩ := List.length_eq_one_iff.mp (show above.length = 1 by omega)
          cases kept with
          | cons marks below =>
              have waiting : latest.initialized = false := marked.initialized
              have coversValue : around.Covers l₃ ({ final with initialized := false } :: locals) := by
                refine ⟨?_, covers.constants, covers.upvalues, covers.functions,
                  covers.initializer⟩
                rw [split]
                exact .cons ⟨marks.name, marks.depth, waiting.symm, marks.isCaptured,
                  marks.nameless⟩ below
              have valued := flows _ coversValue
                (Tall.above tall [{ final with initialized := false }])
              rw [Flows, slots_cons_waiting around rfl, slots_cons_waiting around rfl] at valued
              refine .seq valued (.seq .nil ?_)
              rw [slots_succ around 0]
              have placed : final.initialized = true := marks.initialized
              rw [List.singleton_append, slots_cons_initialized around placed]
              exact .mark .tracked
        · rw [empty (by omega)] at split
          cases split
  · have depth₂ : l₂.scopeDepth = l₁.scopeDepth := steady.grows.scopeDepth
    have depth₃ : l₃.scopeDepth = l₁.scopeDepth := all.grows.scopeDepth
    rcases initializeDeclared_some initializes with ⟨inside, -⟩ | ⟨-, rfl, rfl⟩
    · omega
    have length := (covers.before all.grows).captures.length
    rw [List.length_append, same] at length
    obtain rfl := List.length_eq_zero_iff.mp (show above.length = 0 by omega)
    rcases defineGlobalAtTop_some defines with ⟨-, emits⟩ | ⟨inside, -, -⟩
    · exact .seq (flows _ (covers.before defined.grows) tall)
        (.seq (flows_name rfl emits covers tall 0) .nil)
    · omega

end Surroundings

variable [Number N]

/-- What the tracked self of a function takes. -/
def FunctionKind.selfCount : FunctionKind → Nat
  | .script | .expression => 0
  | .declaration | .method => 1

/-- What the code of a node does to the slots. -/
def Lower.Node.Flows (around : Surroundings N) (l outcome : Lower N) (code : LoweredCode) :
    Node → Prop
  | .expr leading _ => ∀ locals temporaries, around.Covers outcome locals → around.Tall locals →
      (leading = true ↔ temporaries = 0) →
      around.Flows temporaries locals code (1 + temporaries) locals
  | .args trees => ∀ locals temporaries, around.Covers outcome locals → around.Tall locals →
      temporaries ≠ 0 → around.Flows temporaries locals code (trees.length + temporaries) locals
  | .function _ _ _ _ _ _ leading => ∀ locals temporaries, around.Covers outcome locals →
      around.Tall locals → (l.Settled ∨ (leading = true ↔ temporaries = 0)) →
      around.Flows temporaries locals code (1 + temporaries) locals
  | .stmt _ => ∀ locals, around.Covers outcome locals → around.Tall locals →
      around.Flows 0 locals code 0 locals
  | .methods _ => ∀ locals temporaries, around.Covers outcome locals → around.Tall locals →
      around.Flows temporaries locals code temporaries locals
  | .decl _ | .decls _ => ∀ above locals, around.Covers outcome (above ++ locals) →
      locals.length = l.back.trackedLocals.length → around.Tall locals →
      around.Flows 0 locals code 0 (above ++ locals)

/-- The functions in a tree that have a body are not scripts, and all but function
expressions track what is in slot 0. -/
def Lower.Node.Selves : Node → Prop
  | .function kind _ self _ _ _ _ => kind ≠ .script ∧ self.length = kind.selfCount
  | _ => True

omit [Number N] in
/-- A function is certified when its body flows. -/
theorem Surroundings.certified_function {l l₁ l₂ l₃ l₄ : Lower N} {kind : FunctionKind} {name : Text}
    {self : List (SourceMapToken Text)} {params : List Token} {token : SourceMapToken Text}
    {declared : List TrackedLocal} {code value : LoweredCode}
    {compiled : FunctionChunk (List (Constant N))} {functions : List (LoweredFunction N)}
    (notScript : kind ≠ .script) (selves : self.length = kind.selfCount)
    (filled : code.Filled layout)
    (tracks : (trackAll (self ++ params.map sourceMapToken)).run
      (l.enterFunction (kind = .method && name = initName)) = some ((), l₁))
    (settled : l₁.Settled) (grows : l₁.Grows declared l₂) (declares : l₁.Declares declared)
    (body : ∀ around : Surroundings N, ∀ above locals, around.Covers l₂ (above ++ locals) →
      locals.length = l₁.back.trackedLocals.length → around.Tall locals →
      around.Flows 0 locals code 0 (above ++ locals))
    (returns : (Lower.emitDefaultReturnValue token).run l₂ = some (value, l₃))
    (leaves : l₃.leaveFunction = some (compiled, l₄)) (made : l₄.functions <+: functions) :
    ({ kind, name, arity := params.length, locals := compiled.trackedLocals
       captures := compiled.trackedUpvalues, constants := compiled.chunk
       code := .seq code (.seq value (l₃.simple .return_ token)) } :
      LoweredFunction N).Certified functions := by
  have valueFilled := emitDefaultReturnValue_filled returns
  obtain ⟨rfl, -⟩ := emitDefaultReturnValue_some returns
  obtain ⟨rfl, outer, rest, enclosing, rfl⟩ := leaveFunction_some leaves
  obtain ⟨entry, split, extends_⟩ := grows.back
  have entered := trackAll_some tracks
  have names : l₁.back.trackedLocals = (l.enterFunction (kind = .method && name = initName)).newLocals
      (self ++ params.map sourceMapToken) := by
    rw [entered]
    exact List.append_nil _
  have initializer : l₁.back.isClassInitMethod = (kind = .method && name = initName) := by
    rw [entered]
    rfl
  have entryInitialized : ∀ tracked ∈ entry, tracked.initialized = true := by
    intro tracked member
    obtain ⟨before, earlier, same⟩ := extends_.locals.mem member
    exact same.initialized.trans (settled before earlier)
  have length : entry.length = l₁.back.trackedLocals.length := extends_.locals.length
  have count : entry.length = kind.selfCount + params.length := by
    rw [length, names]
    simp only [newLocals, List.length_reverse, List.length_map, List.length_append, selves]
  let function : LoweredFunction N := {
    kind, name, arity := params.length, locals := l₃.back.trackedLocals
    captures := l₃.back.trackedUpvalues, constants := l₃.back.chunk
    code := .seq code (.seq value (l₃.simple .return_ token)) }
  let around := function.surroundings functions
  have height : (around.slots 0 entry).length = around.entryHeight := by
    change _ = function.entryHeight
    rw [LoweredFunction.entryHeight, if_neg notScript, slots, slotsOf_initialized entryInitialized]
    simp only [List.length_append, List.length_map, count, List.length_replicate, callee]
    change _ + (_ + (if kind = .expression then [Slot.temporary] else []).length) = params.length + 1
    cases kind
    · exact absurd rfl notScript
    all_goals simp [FunctionKind.selfCount]; try omega
  have covers : around.Covers l₃ l₃.back.trackedLocals := by
    refine ⟨Captures.refl _, List.prefix_rfl, List.prefix_rfl, made, fun isInit => ?_⟩
    have same : l₃.back.isClassInitMethod = l₁.back.isClassInitMethod := extends_.isClassInitMethod
    rw [same, initializer] at isInit
    have kindIs : kind = .method := by
      cases kind <;> simp_all
    refine ⟨?_, ?_⟩
    · change 0 < function.entryHeight
      rw [LoweredFunction.entryHeight, if_neg notScript]
      exact Nat.succ_pos _
    · change kind ≠ .expression
      rw [kindIs]
      decide
  have tall : around.Tall entry := Nat.le_of_eq height.symm
  rw [split] at covers
  have exits : function.exit = .ended := if_neg notScript
  have ends : function.flats = (code.flatten layout ++ value.flatten layout) ++
      [.plain { instr := .simple .return_, token, scopes := l₃.scopes }] :=
    (List.append_assoc _ _ _).symm
  refine ⟨⟨filled, valueFilled, trivial⟩, fun _ => ⟨_, _, ends, rfl⟩, entry, entryInitialized,
    height, ?_⟩
  change Typed around.typing (.live (around.slots 0 entry)) function.code function.exit
  rw [exits]
  have valued := flows_defaultReturn (grows.settled declares settled) returns covers
    (Tall.above tall declared)
  exact .seq (body around declared entry covers length tall)
    (.seq valued (ends_return covers (Tall.above tall declared)))

end Cpplox
