import Cpplox.Semantics.Places

namespace Cpplox

open Structured Data Lower

/-! The lowered code of a program does what the evaluator says. -/

variable {N : Type} {state : State N} {name : Token} {value : Datum N}

theorem run_readVariable (read : state.read name.lexeme = some value) :
    readVariable name state = .ok value state := by
  change orUndefined name (state.read name.lexeme) state = _
  rw [read]
  rfl

theorem readVariable_fails (read : state.read name.lexeme = none) :
    readVariable name state = .error (undefinedVariable (sourceMapToken name) name.lexeme) state := by
  change orUndefined name (state.read name.lexeme) state = _
  rw [read]
  rfl

theorem run_writeVariable {after : State N} (write : state.write name.lexeme value = some after) :
    writeVariable name value state = .ok () after := by
  change (orUndefined name (state.write name.lexeme value) >>= set) state = _
  rw [write]
  rfl

theorem writeVariable_fails (write : state.write name.lexeme value = none) :
    writeVariable name value state =
      .error (undefinedVariable (sourceMapToken name) name.lexeme) state := by
  change (orUndefined name (state.write name.lexeme value) >>= set) state = _
  rw [write]
  rfl

namespace Lower

variable [Number N] {l l₁ l₂ l₃ final : Lower N} {constants : List (Constant N)} {fuel : Nat}
  {temporaries : List (Datum N)} {code : LoweredCode}

/-- The code computes what the evaluation does, with values above the variables. -/
abbrev Mirrors {A : Type} (constants : List (Constant N)) (fuel : Nat) (evaluation : EvalM N A)
    (code : LoweredCode) (temporaries : List (Datum N)) (state : State N)
    (related : A → State N → Store N → Prop) : Prop :=
  Simulates Agrees (evaluation state)
    (code.does (storeActions constants) fuel (state.store temporaries))
    fun value state _ store => related value state store

/-- The code pushes the value of an expression. -/
def Pushes (constants : List (Constant N)) (fuel : Nat) (evaluation : EvalM N (Datum N))
    (code : LoweredCode) (l final : Lower N) : Prop :=
  ∀ temporaries state, state.Named l → Mirrors constants fuel evaluation code temporaries state
    fun value => Reflects final (value :: temporaries)

/-- The code leaves nothing on the variables. -/
def Executes (constants : List (Constant N)) (fuel : Nat) (evaluation : EvalM N Unit)
    (code : LoweredCode) (l final : Lower N) : Prop :=
  ∀ state, state.Named l → Mirrors constants fuel evaluation code [] state fun _ => Reflects final []

theorem pushes_constant {constant : Constant N} {datum : Datum N} {token : SourceMapToken Text}
    (runs : (emitConstant constant token).run l = some (code, final)) (numbered : l.Numbered)
    (made : constant.Made l.functions.length) (chunk : final.back.chunk <+: constants)
    (is : constantDatum (some constant) = (pure datum : StoreM N (Datum N))) :
    Pushes constants fuel (pure datum) code l final := by
  intro temporaries state named
  have steady := emitWithConstant_steady runs
  obtain ⟨rfl, rfl⟩ := emitWithConstant_some runs
  have found := Surroundings.prefix_getElem? chunk ((numbered.progress _ List.mem_cons_self).found made)
  have does : (((l.withConstant constant).plain (.operand .constant
      (insertConstant l.back.chunk constant).1) token none).does (storeActions constants) fuel :
        StoreM N Unit) = pushDatum datum := by
    change (constantDatum _ >>= pushDatum) = _
    rw [found, is, pure_bind]
  rw [Mirrors, does]
  exact ⟨(), _, rfl, rfl, named.steady steady⟩

/-- An instruction that takes a name. -/
theorem does_name {opcode : Opcode} {token : SourceMapToken Text} {occurrence : Option Text}
    {performs : Text → StoreM N Unit} {text : Text}
    (chunk : (l.withConstant (.string text)).back.chunk <+: constants)
    (operand : ∀ index, performOperand constants token index opcode =
      (constantName constants[index]? >>= performs)) :
    (((l.withConstant (.string text)).plain (.operand opcode
      (insertConstant l.back.chunk (.string text)).1) token occurrence).does (storeActions constants)
        fuel : StoreM N Unit) = performs text := by
  have constant := Surroundings.prefix_getElem? chunk
    (Surroundings.insertConstant_string l.back.chunk text)
  change performOperand constants token _ opcode = _
  rw [operand, constant]
  exact pure_bind text performs

theorem pushes_getter (tracks : l.Tracks) (root : l.enclosing = [])
    (runs : (emitGetter (sourceMapToken name)).run l = some (code, final))
    (chunk : final.back.chunk <+: constants) : Pushes constants fuel (readVariable name) code l final := by
  intro temporaries state named
  have steady := emitGetterSetter_steady runs
  have laterNamed : state.Named final := named.steady steady
  obtain ⟨-, accesses⟩ := emitGetterSetter_some runs
  cases accesses with
  | @local_ index tracked found initialized =>
      obtain ⟨value, known, there⟩ :=
        lookup_of_findLocal named (findLocal_placed tracks found initialized)
      have reached : slot? (state.store temporaries).stack index = some value :=
        (slot?_append _ _ (slot?_lt there)).trans there
      rw [Mirrors, run_readVariable (State.read_local known)]
      exact ⟨(), _, run_getLocal reached, rfl, laterNamed⟩
  | upvalue _ tracks =>
      rw [root] at tracks
      cases tracks
  | global missing =>
      have unknown := lookup_none_of_findLocal named (findLocal_placed_none missing)
      cases defined : state.globals name.lexeme with
      | none =>
          rw [Mirrors, readVariable_fails ((State.read_global unknown).trans defined)]
          exact ⟨_, (congrFun (does_name chunk fun _ => rfl) _).trans (getGlobal_fails defined), state.agrees temporaries⟩
      | some value =>
          rw [Mirrors, run_readVariable ((State.read_global unknown).trans defined)]
          exact ⟨(), _, (congrFun (does_name chunk fun _ => rfl) _).trans (run_getGlobal defined), rfl, laterNamed⟩

/-- The value that is assigned stays on top. -/
theorem mirrors_setter (tracks : l.Tracks) (root : l.enclosing = [])
    (runs : (emitSetter (sourceMapToken name)).run l = some (code, final))
    (chunk : final.back.chunk <+: constants) (named : state.Named l) :
    Mirrors constants fuel (writeVariable name value) code (value :: temporaries) state
      fun _ => Reflects final (value :: temporaries) := by
  have steady := emitGetterSetter_steady runs
  have laterNamed : state.Named final := named.steady steady
  obtain ⟨-, accesses⟩ := emitGetterSetter_some runs
  cases accesses with
  | @local_ index tracked found initialized =>
      have placed := findLocal_placed tracks found initialized
      obtain ⟨old, known, there⟩ := lookup_of_findLocal named placed
      obtain ⟨keys, values⟩ := assign_of_findLocal named placed value
      have below := slot?_lt there
      have reached : slot? (state.store (value :: temporaries)).stack index = some old :=
        (slot?_append _ _ below).trans there
      rw [Mirrors, run_writeVariable (State.write_local known)]
      refine ⟨(), _, run_setLocal rfl reached, ?_, keys.trans laterNamed⟩
      refine Store.ext ?_ rfl rfl
      exact (setSlot_append _ _ _ below).trans (congrArg (value :: temporaries ++ ·) values.symm)
  | upvalue _ tracks =>
      rw [root] at tracks
      cases tracks
  | global missing =>
      have unknown := lookup_none_of_findLocal named (findLocal_placed_none missing)
      cases defined : state.globals name.lexeme with
      | none =>
          rw [Mirrors, writeVariable_fails (State.write_none unknown defined)]
          exact ⟨_, (congrFun (does_name chunk fun _ => rfl) _).trans (setGlobal_fails defined rfl), state.agrees _⟩
      | some old =>
          rw [Mirrors, run_writeVariable (State.write_global unknown defined)]
          exact ⟨(), _, (congrFun (does_name chunk fun _ => rfl) _).trans (run_setGlobal defined rfl), rfl, laterNamed⟩

theorem run_unary (operator : Token) (value : Datum N) (temporaries : List (Datum N)) (state : State N) :
    ((l.simple (unaryOpcode operator.type) (sourceMapToken operator)).does (storeActions constants) fuel :
        StoreM N Unit) (state.store (value :: temporaries)) =
      pushResult (applyUnary operator value) (state.store temporaries) := by
  change performSimple (sourceMapToken operator) (unaryOpcode operator.type) _ = _
  unfold applyUnary
  cases operator.type <;> rfl

theorem does_single (opcode : Opcode) (token : SourceMapToken Text) :
    ((l.simples token [opcode]).does (storeActions constants) fuel : StoreM N Unit) =
      performSimple token opcode := bind_pure_unit

omit [Number N] in
/-- An operation and its negation. -/
theorem run_numbers_not (operation : N → N → Bool) (token : SourceMapToken Text) (one two : Datum N) :
    ((do
      onTopTwo (Datum.numbers token fun left right => .bool (operation left right))
      onTop fun value => .ok (.bool (!value.isTruthy))
      pure ()) : StoreM N Unit) (state.store (two :: one :: temporaries)) =
      pushResult (one.numbers token (fun left right => .bool (!operation left right)) two)
        (state.store temporaries) := by
  cases one with
  | number => cases two <;> rfl
  | _ => rfl

theorem run_binary {operator : Token} (binary : binaryOpcodes operator.type ≠ []) (one two : Datum N)
    (temporaries : List (Datum N)) (state : State N) :
    ((l.simples (sourceMapToken operator) (binaryOpcodes operator.type)).does (storeActions constants)
        fuel : StoreM N Unit) (state.store (two :: one :: temporaries)) =
      pushResult (applyBinary operator one two) (state.store temporaries) := by
  unfold applyBinary
  cases type : operator.type with
  | plus | minus | star | slash | less | greater | equalEqual =>
      exact congrFun (does_single _ _) _
  | greaterEqual | lessEqual => exact run_numbers_not _ _ one two
  | bangEqual => rfl
  | _ =>
      rw [type] at binary
      exact absurd rfl binary

omit [Number N] in
theorem mirrors_result (result : Except (Stop Text) (Datum N)) (named : state.Named l) :
    Simulates Agrees (resultOf result state) (pushResult result (state.store temporaries))
      fun value state _ store => Reflects l (value :: temporaries) state store := by
  cases result with
  | ok value => exact ⟨(), _, rfl, rfl, named⟩
  | error => exact .throw (state.agrees temporaries)

/-- What a scope declared is popped. -/
theorem run_pops {depth : Nat} {token : SourceMapToken Text} {declared rest : List TrackedLocal}
    {values others : List (Datum N)} {store : Store N} (here : ∀ tracked ∈ declared, tracked.depth = depth)
    (outside : ∀ tracked ∈ rest, tracked.depth < depth) (stack : store.stack = values ++ others)
    (length : values.length = declared.length) :
    ((l.pops depth token (declared ++ rest)).does (storeActions constants) fuel : StoreM N Unit) store =
      .ok () { store with stack := others } := by
  induction declared generalizing values store with
  | nil =>
      obtain rfl := List.length_eq_zero_iff.mp length
      have done : l.pops depth token ([] ++ rest) = .nil := by
        cases rest with
        | nil => rfl
        | cons tracked rest =>
            have different : tracked.depth ≠ depth := Nat.ne_of_lt (outside tracked List.mem_cons_self)
            simp [Lower.pops, different]
      rw [done]
      cases store
      cases stack
      rfl
  | cons tracked declared ih =>
      cases values with
      | nil => cases length
      | cons value values =>
          have same : tracked.depth = depth := here tracked List.mem_cons_self
          have rest_ : ((l.pops depth token (declared ++ rest)).does (storeActions constants) fuel :
              StoreM N Unit) { store with stack := values ++ others } =
                .ok () { store with stack := others } :=
            ih (fun other member => here other (List.mem_cons_of_mem _ member)) rfl (by simpa using length)
          simp only [List.cons_append, Lower.pops, if_pos same]
          have pops : ((l.withLocals (tracked :: (declared ++ rest))).simple (popOpcode tracked) token).does
              (storeActions constants) fuel = (do let _ ← popDatum : StoreM N Unit) := by
            unfold popOpcode
            split <;> rfl
          change (Code.does _ _ _ >>= fun _ => Code.does _ _ _) store = _
          rw [pops, bind_assoc]
          refine (run_pop _ stack).trans ?_
          rw [pure_bind]
          exact rest_

/-- A block leaves the variables around it. -/
theorem mirrors_block {token : SourceMapToken Text} {declared : List TrackedLocal} {body : EvalM N Unit}
    {does : StoreM N Unit} (tracks : l.Tracks) (grows : l.enterScope.Grows declared l₁)
    (declares : l.enterScope.Declares declared)
    (pops : (popTopScopeDepth token).run l₁ = some (code, final)) (named : state.Named l)
    (inner : Simulates Agrees (body state) (does (state.store []))
      fun _ state _ store => Reflects l₁ [] state store) :
    Simulates Agrees (inBlock body state)
      ((does >>= fun _ => code.does (storeActions constants) fuel) (state.store []))
      fun _ state _ store => Reflects final [] state store := by
  obtain ⟨rest, split, extends_, rfl, rfl⟩ := leaveScope_some tracks grows declares pops
  change Simulates Agrees ((body >>= fun _ => modify fun after =>
    { after with locals := after.locals.drop (after.locals.length - state.locals.length) }) state) _ _
  refine .bind inner fun _ after _ store reflects => ?_
  obtain ⟨rfl, inside⟩ := reflects
  have placed := grows.placed declares
  have names : after.locals.map (·.1) = declared.map (·.name) ++ state.locals.map (·.1) := by
    rw [inside, placed, named]
    rfl
  obtain ⟨above, below, all, upper, lower⟩ := List.map_eq_append_iff.mp names
  have length : above.length = declared.length := by simpa using congrArg List.length upper
  have height : below.length = state.locals.length := by simpa using congrArg List.length lower
  have outside : ∀ tracked ∈ rest, tracked.depth < l.scopeDepth + 1 := by
    intro tracked member
    obtain ⟨before, earlier, same⟩ := extends_.locals.mem member
    exact same.depth ▸ Nat.lt_succ_of_le (tracks.depths before earlier)
  have stack : (after.store []).stack = above.map (·.2) ++ below.map (·.2) := by
    simp [State.store, all]
  have runs : ((l₁.pops (l.scopeDepth + 1) token (declared ++ rest)).does (storeActions constants) fuel :
      StoreM N Unit) (after.store []) = .ok () { after.store [] with stack := below.map (·.2) } :=
    run_pops declares.depth outside stack (by simpa using length)
  have kept : after.locals.drop (after.locals.length - state.locals.length) = below := by
    simp [all, height]
  refine ⟨(), _, runs, Store.ext ?_ rfl rfl, ?_⟩
  · simp [State.store, kept]
  · change (List.drop _ after.locals).map (·.1) = _
    rw [kept, lower, named]
    exact (Captures.placed extends_.locals).symm

/-- A variable is in place when its value is. -/
theorem executes_var {token : SourceMapToken Text} {evaluation : EvalM N (Datum N)}
    {tracked initial define declared : LoweredCode}
    (waits : (trackDeclared (sourceMapToken name) false).run l = some (tracked, l₁))
    (steady : l₁.Steady l₂) (pushes : Pushes constants fuel evaluation initial l₁ l₂)
    (defines : (defineGlobalAtTop name.lexeme token).run l₂ = some (define, l₃))
    (initializes : initializeDeclared.run l₃ = some (declared, final)) (chunk : l₃.back.chunk <+: constants) :
    Executes constants fuel
      (do declareVariable (l.scopeDepth = 0) name.lexeme (← evaluation))
      (.seq initial (.seq define declared)) l final := by
  intro state named
  rcases trackDeclared_some waits with ⟨inside, names⟩ | ⟨top, -, rfl⟩
  · obtain ⟨-, -, rfl⟩ := trackLocal_some names
    have waiting : state.Named (l.withLocals (l.newLocal (sourceMapToken name) false ::
      l.back.trackedLocals)) := named
    refine .bind (pushes [] state waiting) fun value after _ store reflects => ?_
    obtain ⟨rfl, laterNamed⟩ := reflects
    have depth : l₂.scopeDepth = l.scopeDepth := steady.grows.scopeDepth
    rcases defineGlobalAtTop_some defines with ⟨top, -⟩ | ⟨-, rfl, rfl⟩
    · omega
    have local_ : decide (l.scopeDepth = 0) = false := decide_eq_false (by omega)
    obtain ⟨rest, split, extends_⟩ := steady.grows.back
    rw [List.nil_append] at split
    have locals : Captures (l.newLocal (sourceMapToken name) false :: l.back.trackedLocals) rest :=
      extends_.locals
    cases locals with
    | @cons _ latest _ older marked captures =>
        have same : latest.name = name.lexeme := marked.name
        have waits : latest.initialized = false := marked.initialized
        rcases initializeDeclared_some initializes with
          ⟨-, head, others, found, rfl, rfl⟩ | ⟨empty, -, -⟩
        · rw [split] at found
          cases found
          rw [local_]
          refine ⟨(), _, rfl, rfl, ?_⟩
          have below : after.locals.map (·.1) = (older.filter (·.initialized)).map (·.name) := by
            rw [laterNamed, Lower.placed, split]
            simp [waits]
          simp [State.Named, Lower.placed, withLocals, below, same]
        · rw [empty (by omega)] at split
          cases split
  · refine .bind (pushes [] state named) fun value after _ store reflects => ?_
    obtain ⟨rfl, laterNamed⟩ := reflects
    have depth : l₂.scopeDepth = l₁.scopeDepth := steady.grows.scopeDepth
    have defined := defineGlobalAtTop_steady defines
    have laterDepth : l₃.scopeDepth = l₂.scopeDepth := defined.grows.scopeDepth
    rcases defineGlobalAtTop_some defines with ⟨-, emits⟩ | ⟨inside, -, -⟩
    · rcases initializeDeclared_some initializes with ⟨inside, -⟩ | ⟨-, rfl, rfl⟩
      · omega
      obtain ⟨rfl, rfl⟩ := emitWithConstant_some emits
      have global : decide (l₁.scopeDepth = 0) = true := decide_eq_true top
      have runs : ((Code.seq ((l₂.withConstant (.string name.lexeme)).plain (.operand .defineGlobal
          (insertConstant l₂.back.chunk (.string name.lexeme)).1) token none) .nil).does
            (storeActions constants) fuel : StoreM N Unit) (after.store [value]) =
          .ok () (({ after with globals := Function.update after.globals name.lexeme (some value) } :
            State N).store []) := by
        refine (congrFun (bind_pure_unit.trans (does_name chunk fun _ => rfl)) _).trans ?_
        exact run_defineGlobal rfl
      rw [global]
      exact ⟨(), _, runs, rfl, laterNamed.steady defined⟩
    · omega

theorem pushes_stuck {evaluation : EvalM N (Datum N)} (stuck : evaluation = throw .stuck) :
    Pushes constants fuel evaluation code l final := by
  intro temporaries state named
  rw [stuck]
  trivial

theorem executes_stuck {evaluation : EvalM N Unit} (stuck : evaluation = throw .stuck) :
    Executes constants fuel evaluation code l final := by
  intro state named
  rw [stuck]
  trivial

/-- A condition that is left on top. -/
def Tests (l : Lower N) (result : Bool) (state : State N) (store : Store N) : Prop :=
  ∃ value : Datum N, value.isTruthy = result ∧ Reflects l [value] state store

theorem mirrors_condition {condition : Expr} (pushes : Pushes constants fuel (evalExpr condition) code l final)
    (named : state.Named l) :
    Simulates Agrees (evalCondition condition state)
      ((do
        code.does (storeActions constants) fuel
        (storeActions constants).condition) (state.store []))
      fun result state laterResult store => laterResult = result ∧ Tests final result state store := by
  refine .bind (pushes [] state named) fun value after _ store reflects => ?_
  obtain ⟨rfl, laterNamed⟩ := reflects
  exact ⟨value.isTruthy, _, rfl, rfl, value, rfl, rfl, laterNamed⟩

theorem executes_if {condition : Expr} {yes no : EvalM N Unit} {test whenTrue whenFalse : LoweredCode}
    {token : SourceMapToken Text} {tag : JumpTag} (pushes : Pushes constants fuel (evalExpr condition) test l l₁)
    (steady : l₁.Steady l₂) (laterSteady : l₂.Steady final)
    (executes : Executes constants fuel yes whenTrue l₁ l₂)
    (laterExecutes : Executes constants fuel no whenFalse l₂ final) :
    Executes constants fuel (do if ← evalCondition condition then yes else no)
      (.seq test (.branch tag (.seq (l₁.simple .pop token) whenTrue)
        (.seq (l₂.simple .pop token) whenFalse))) l final := by
  intro state named
  have same : (Code.seq test (.branch tag (.seq (l₁.simple .pop token) whenTrue)
      (.seq (l₂.simple .pop token) whenFalse))).does (storeActions constants) fuel =
      (do
        let result ← (do
          test.does (storeActions constants) fuel
          (storeActions constants).condition)
        if result then (Code.seq (l₁.simple .pop token) whenTrue).does (storeActions constants) fuel
        else (Code.seq (l₂.simple .pop token) whenFalse).does (storeActions constants) fuel) := by
    rw [bind_assoc]
    rfl
  rw [Mirrors, same]
  refine .bind (mirrors_condition pushes named) fun result after laterResult store tested => ?_
  obtain ⟨rfl, value, -, rfl, laterNamed⟩ := tested
  cases laterResult with
  | true => exact (executes after laterNamed).mono fun _ state _ store reflects =>
      ⟨reflects.1, reflects.2.steady laterSteady⟩
  | false => exact laterExecutes after (laterNamed.steady steady)

/-- A loop ends with its condition on top. -/
theorem mirrors_loop {condition : Expr} {body : EvalM N Unit} {test : LoweredCode} {does : StoreM N Unit}
    (pushes : Pushes constants fuel (evalExpr condition) test l l₁)
    (repeats : ∀ state store, Tests l₁ true state store →
      Simulates Agrees (body state) (does store) fun _ state _ store => Reflects l [] state store)
    (named : state.Named l) :
    Simulates Agrees (whileTrue (evalCondition condition) body fuel state)
      (whileTrue (do
        test.does (storeActions constants) fuel
        (storeActions constants).condition) does fuel (state.store []))
      fun _ state _ store => Tests l₁ false state store := by
  refine .whileTrue (fun state store (reflects : Reflects l [] state store) => reflects.agrees)
    (fun state store reflects => ?_) repeats fuel ⟨rfl, named⟩
  obtain ⟨rfl, named⟩ := reflects
  exact mirrors_condition pushes named

/-- What is done after a loop. -/
theorem run_tested {token : SourceMapToken Text} {result : Bool} {store : Store N}
    (tested : Tests l₁ result state store) (steady : l₁.Steady final) :
    ∃ last after, (l.simple .pop token).does (storeActions constants) fuel store = .ok last after ∧
      Reflects final [] state after := by
  obtain ⟨value, -, rfl, named⟩ := tested
  exact ⟨(), _, rfl, rfl, named.steady steady⟩

theorem executes_while {condition : Expr} {body : EvalM N Unit} {test inner : LoweredCode}
    {token : SourceMapToken Text} {tag : JumpTag}
    (pushes : Pushes constants fuel (evalExpr condition) test l l₁) (steady : l.Steady l₁)
    (laterSteady : l₁.Steady final) (executes : Executes constants fuel body inner l₁ final) :
    Executes constants fuel (whileTrue (evalCondition condition) body fuel)
      (.seq (.whileLoop tag test (.seq (l₁.simple .pop token) inner)) (final.simple .pop token)) l final := by
  intro state named
  have back {state : State N} (named : state.Named final) : state.Named l :=
    named.trans (steady.trans laterSteady).placed
  refine .then_ (mirrors_loop pushes (fun after store tested => ?_) named) fun _ after _ store tested =>
    run_tested tested laterSteady
  obtain ⟨value, -, rfl, laterNamed⟩ := tested
  exact (executes after laterNamed).mono fun _ state _ store reflects => ⟨reflects.1, back reflects.2⟩

theorem executes_for {condition : Expr} {init body increment : EvalM N Unit}
    {l₄ : Lower N} {first test step inner scope : LoweredCode} {token : SourceMapToken Text} {tag : JumpTag}
    {declared : List TrackedLocal} (tracks : l.Tracks) (grows : l.enterScope.Grows declared l₁)
    (declares : l.enterScope.Declares declared)
    (executes : Executes constants fuel init first l.enterScope l₁)
    (pushes : Pushes constants fuel (evalExpr condition) test l₁ l₂) (steady : l₁.Steady l₂)
    (steps : Executes constants fuel increment step l₂ l₃) (laterSteady : l₂.Steady l₃)
    (repeats : Executes constants fuel body inner l₃ l₄) (steady'' : l₃.Steady l₄)
    (pops : (popTopScopeDepth token).run l₄ = some (scope, final)) :
    Executes constants fuel
      (inBlock do
        init
        whileTrue (evalCondition condition) (do
          body
          increment) fuel)
      (.seq first (.seq (.forLoop tag test step (.seq (l₃.simple .pop token) inner))
        (.seq (l₄.simple .pop token) scope))) l final := by
  intro state named
  obtain ⟨later, all, captures⟩ := grows.then_steady (steady.trans (laterSteady.trans steady'')).grows
  have same : (Code.seq first (.seq (.forLoop tag test step (.seq (l₃.simple .pop token) inner))
      (.seq (l₄.simple .pop token) scope))).does (storeActions constants) fuel =
      ((do
        first.does (storeActions constants) fuel
        (do
          (Code.forLoop tag test step (.seq (l₃.simple .pop token) inner)).does (storeActions constants) fuel
          (l₄.simple .pop token).does (storeActions constants) fuel)) >>= fun _ =>
            scope.does (storeActions constants) fuel : StoreM N Unit) := by
    simp only [bind_assoc]
    rfl
  rw [Mirrors, same]
  refine mirrors_block tracks all (declares.captures captures) pops named ?_
  refine .bind (executes state named) fun _ state _ store reflects => ?_
  obtain ⟨rfl, named⟩ := reflects
  refine .then_ (mirrors_loop pushes (fun state store tested => ?_) named) fun _ after _ store tested =>
    run_tested tested (laterSteady.trans steady'')
  obtain ⟨value, -, rfl, named⟩ := tested
  -- the body comes before the increment, which was lowered first
  refine .bind (repeats state (named.steady laterSteady)) fun _ state _ store reflects => ?_
  obtain ⟨rfl, named⟩ := reflects
  have back : state.Named l₂ := named.trans (laterSteady.trans steady'').placed
  refine (steps state back).mono fun _ state _ store reflects => ⟨reflects.1, ?_⟩
  exact reflects.2.trans (steady.trans laterSteady).placed

/-- A place in the root script. -/
structure AtRoot (l : Lower N) : Prop where
  enclosing : l.enclosing = []
  numbered : l.Numbered

theorem AtRoot.enterScope (root : l.AtRoot) : l.enterScope.AtRoot :=
  ⟨root.enclosing, root.numbered.of_chunks rfl rfl⟩

omit [Number N] in
theorem Node.Outcome.grows {node : Node} (outcome : node.Outcome l final) :
    ∃ declared, l.Grows declared final := by
  cases node with
  | decl | decls => exact ⟨_, outcome.choose_spec.1⟩
  | expr | args | function | stmt | methods => exact ⟨[], Steady.grows outcome⟩

theorem Lowers.atRoot {node : Node} (lowers : Lowers l node code final) (ready : node.Ready l)
    (root : l.AtRoot) : final.AtRoot := by
  obtain ⟨declared, grows⟩ := (lowers.outcome ready).grows
  have enclosing := grows.enclosing
  rw [root.enclosing] at enclosing
  cases known : final.enclosing with
  | nil => exact ⟨known, lowers.numbered root.numbered⟩
  | cons =>
      rw [known] at enclosing
      cases enclosing

theorem Lowers.chunk {node : Node} (lowers : Lowers l node code final) (ready : node.Ready l) :
    l.back.chunk <+: final.back.chunk := by
  obtain ⟨declared, grows⟩ := (lowers.outcome ready).grows
  obtain ⟨rest, -, extends_⟩ := grows.back
  exact extends_.chunk

omit [Number N] in
theorem popTopScopeDepth_chunk {token : SourceMapToken Text}
    (pops : (popTopScopeDepth token).run l = some (code, final)) : final.back.chunk = l.back.chunk := by
  obtain ⟨-, rfl⟩ := popTopScopeDepth_some pops
  rfl

omit [Number N] in
theorem initializeDeclared_chunk (runs : initializeDeclared.run l = some (code, final)) :
    final.back.chunk = l.back.chunk := by
  rcases initializeDeclared_some runs with ⟨-, _, _, -, -, rfl⟩ | ⟨-, -, rfl⟩ <;> rfl

theorem trackDeclared_atRoot {token : SourceMapToken Text} {initialized : Bool} (root : l.AtRoot)
    (runs : (trackDeclared token initialized).run l = some (code, final)) : final.AtRoot := by
  refine ⟨?_, trackDeclared_numbered root.numbered runs⟩
  rcases trackDeclared_some runs with ⟨-, tracks⟩ | ⟨-, -, rfl⟩
  · obtain ⟨-, -, rfl⟩ := trackLocal_some tracks
    exact root.enclosing
  · exact root.enclosing

omit [Number N] in
theorem enterScope_local (l : Lower N) : decide (l.enterScope.scopeDepth = 0) = false :=
  decide_eq_false (Nat.succ_ne_zero l.scopeDepth)

/-- What the code of a tree does. -/
def Node.Does (constants : List (Constant N)) (fuel : Nat) (l final : Lower N) (code : LoweredCode) :
    Node → Prop
  | .expr _ tree => Pushes constants fuel (evalExpr tree) code l final
  | .stmt tree => Executes constants fuel (execStmt fuel tree) code l final
  | .decl tree => Executes constants fuel (execDecl fuel (l.scopeDepth = 0) tree) code l final
  | .decls trees => Executes constants fuel (execDecls fuel (l.scopeDepth = 0) trees) code l final
  | .args _ | .function _ _ _ _ _ _ _ | .methods _ => True

/-- At the root the code of a tree does what the evaluator says. -/
theorem Lowers.does {node : Node} (lowers : Lowers l node code final) (ready : node.Ready l)
    (root : l.AtRoot) (chunk : final.back.chunk <+: constants) : node.Does constants fuel l final code := by
  induction lowers with
  | false_ | true_ | nil => exact fun temporaries state named => ⟨(), _, rfl, rfl, named⟩
  | number runs => exact pushes_constant runs root.numbered ⟨_, rfl⟩ chunk rfl
  | string runs => exact pushes_constant runs root.numbered trivial chunk rfl
  | occurrence runs => exact pushes_getter ready root.enclosing runs chunk
  | super | functionExpr | call | getProperty => exact pushes_stuck rfl
  | unary _ operand =>
      intro temporaries state named
      refine .bind (operand ready root chunk temporaries state named) fun value state _ store reflects => ?_
      obtain ⟨rfl, named⟩ := reflects
      rw [run_unary]
      exact mirrors_result _ named
  | binary binary one two left right =>
      intro temporaries state named
      have later := (one.outcome ready).tracks ready
      refine .bind (left ready root ((two.chunk later).trans chunk) temporaries state named)
        fun first state _ store reflects => ?_
      obtain ⟨rfl, named⟩ := reflects
      refine .bind (right later (one.atRoot ready root) chunk (first :: temporaries) state named)
        fun second state _ store reflects => ?_
      obtain ⟨rfl, named⟩ := reflects
      rw [run_binary binary]
      exact mirrors_result _ named
  | and_ one two left right =>
      intro temporaries state named
      have later := (one.outcome ready).tracks ready
      refine .bind (left ready root ((two.chunk later).trans chunk) temporaries state named)
        fun value state _ store reflects => ?_
      obtain ⟨rfl, named⟩ := reflects
      change Simulates Agrees ((if value.isTruthy then evalExpr _ else pure value) state)
        ((if value.isTruthy then Code.does _ _ _ else pure ()) (state.store (value :: temporaries))) _
      cases value.isTruthy with
      | true => exact right later (one.atRoot ready root) chunk temporaries state named
      | false => exact ⟨(), _, rfl, rfl, named.steady (two.outcome later)⟩
  | or_ one two left right =>
      intro temporaries state named
      have later := (one.outcome ready).tracks ready
      refine .bind (left ready root ((two.chunk later).trans chunk) temporaries state named)
        fun value state _ store reflects => ?_
      obtain ⟨rfl, named⟩ := reflects
      change Simulates Agrees ((if value.isTruthy then pure value else evalExpr _) state)
        ((if value.isTruthy then pure () else Code.does _ _ _) (state.store (value :: temporaries))) _
      cases value.isTruthy with
      | true => exact ⟨(), _, rfl, rfl, named.steady (two.outcome later)⟩
      | false => exact right later (one.atRoot ready root) chunk temporaries state named
  | @assign _ _ _ _ _ _ names _ _ _ value assignment ih =>
      cases names with
      | cons => exact pushes_stuck rfl
      | nil =>
          intro temporaries state named
          have before := (emitAssignment_steady assignment).grows.back.choose_spec.2.chunk.trans chunk
          refine .bind (ih ready root before temporaries state named) fun result state _ store reflects => ?_
          obtain ⟨rfl, named⟩ := reflects
          rcases emitAssignment_some assignment with ⟨-, sets⟩ | ⟨_, _, _, -, follows, -⟩
          · rw [← bind_pure_unit (x := Code.does _ _ _)]
            refine .bind (mirrors_setter ((value.outcome ready).tracks ready)
              (value.atRoot ready root).enclosing sets chunk named) fun _ state _ store reflects => ?_
            exact ⟨(), _, rfl, reflects⟩
          · cases follows
  | argsNil | argsCons | function | methodsNil | methodsCons => exact trivial
  | empty | declsNil => exact fun state named => ⟨(), _, rfl, rfl, named⟩
  | expression _ value =>
      intro state named
      refine .bind (value ready.1 root chunk [] state named) fun value state _ store reflects => ?_
      obtain ⟨rfl, named⟩ := reflects
      exact ⟨(), _, rfl, rfl, named⟩
  | print _ value =>
      intro state named
      refine .bind (value ready.1 root chunk [] state named) fun value state _ store reflects => ?_
      obtain ⟨rfl, named⟩ := reflects
      exact ⟨(), _, rfl, rfl, named⟩
  | if_ one two three condition thenBranch elseBranch =>
      have test := one.outcome ready.1
      have laterReady := test.ready ready
      have yes := two.outcome laterReady
      have laterRoot := one.atRoot ready.1 root
      have no := three.outcome (yes.ready laterReady)
      have laterChunk := (three.chunk (yes.ready laterReady)).trans chunk
      exact executes_if (condition ready.1 root ((two.chunk laterReady).trans laterChunk)) yes no
        (thenBranch laterReady laterRoot laterChunk)
        (elseBranch (yes.ready laterReady) (two.atRoot laterReady laterRoot) chunk)
  | for_ one two three four pops initializer condition increment body =>
      have ready₁ : _ ∧ _ := ⟨ready.1.enterScope, ready.2⟩
      obtain ⟨declared, grows, declares, linked⟩ := one.outcome ready₁
      have ready₂ := grows.ready declares linked ready₁
      have root₂ := one.atRoot ready₁ root.enterScope
      have test := two.outcome ready₂.1
      have ready₃ := test.ready ready₂
      have root₃ := two.atRoot ready₂.1 root₂
      have step := three.outcome ready₃
      have ready₄ := step.ready ready₃
      have root₄ := three.atRoot ready₃ root₃
      rw [popTopScopeDepth_chunk pops] at chunk
      have chunk₄ := (four.chunk ready₄).trans chunk
      have chunk₃ := (three.chunk ready₃).trans chunk₄
      have first := initializer ready₁ root.enterScope ((two.chunk ready₂.1).trans chunk₃)
      rw [Node.Does, enterScope_local] at first
      exact executes_for ready.1 grows declares first (condition ready₂.1 root₂ chunk₃) test
        (increment ready₃ root₃ chunk₄) step (body ready₄ root₄ chunk) (four.outcome ready₄) pops
  | block inside pops body =>
      have laterReady : _ ∧ _ := ⟨ready.1.enterScope, ready.2⟩
      obtain ⟨declared, grows, declares, -⟩ := inside.outcome laterReady
      rw [popTopScopeDepth_chunk pops] at chunk
      have runs := body laterReady root.enterScope chunk
      rw [Node.Does, enterScope_local] at runs
      exact fun state named => mirrors_block ready.1 grows declares pops named (runs state named)
  | returnDefault | return_ => exact executes_stuck rfl
  | while_ one two condition body =>
      have test := one.outcome ready.1
      have laterReady := test.ready ready
      exact executes_while (condition ready.1 root ((two.chunk laterReady).trans chunk)) test
        (two.outcome laterReady) (body laterReady (one.atRoot ready.1 root) chunk)
  | statement _ body => exact body ready root chunk
  | baseClass | subclass | fun_ => exact executes_stuck rfl
  | var waits value defines initializes ih =>
      have tracks := trackWaiting_tracks ready.1 ready.2 waits
      rw [initializeDeclared_chunk initializes] at chunk
      have before := (defineGlobalAtTop_steady defines).grows.back.choose_spec.2.chunk.trans chunk
      exact executes_var waits (value.outcome tracks)
        (ih tracks (trackDeclared_atRoot root waits) before) defines initializes chunk
  | declsCons one two head tail =>
      intro state named
      obtain ⟨declared, grows, declares, linked⟩ := one.outcome ready
      have laterReady := grows.ready declares linked ready
      refine .bind (head ready root ((two.chunk laterReady).trans chunk) state named)
        fun _ state _ store reflects => ?_
      obtain ⟨rfl, named⟩ := reflects
      have rest := tail laterReady (one.atRoot ready root) chunk
      rw [Node.Does, grows.scopeDepth] at rest
      exact rest state named

end Lower

end Cpplox
