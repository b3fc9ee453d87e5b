import Cpplox.Contexts.Typing
import Cpplox.Tracking.Lowers

namespace Cpplox

open Structured Data Lower

namespace Surroundings

variable {N : Type} {around : Surroundings N} {locals : List TrackedLocal}
  {l l₁ final : Lower N} {declared : List TrackedLocal} {token : SourceMapToken Text}
  {code : LoweredCode}

/-! Slots. -/

theorem slots_add (around : Surroundings N) (count temporaries : Nat)
    (locals : List TrackedLocal) : around.slots (count + temporaries) locals =
      List.replicate count .temporary ++ around.slots temporaries locals := by
  simp only [slots, ← List.append_assoc, List.replicate_append_replicate]

theorem slots_succ (around : Surroundings N) (temporaries : Nat) (locals : List TrackedLocal) :
    around.slots (temporaries + 1) locals = .temporary :: around.slots temporaries locals := by
  simp [slots, List.replicate_succ]

theorem length_slots (around : Surroundings N) (temporaries : Nat) (locals : List TrackedLocal) :
    (around.slots temporaries locals).length =
      temporaries + (around.slots 0 locals).length := by
  simp [slots]

theorem slotsOf_initialized (initialized : ∀ tracked ∈ locals, tracked.initialized = true) :
    slotsOf locals = locals.map fun tracked => .variable_ tracked.isCaptured := by
  rw [slotsOf, List.filter_eq_self.mpr initialized]

theorem slots_cons_initialized (around : Surroundings N) {tracked : TrackedLocal}
    (initialized : tracked.initialized = true) (locals : List TrackedLocal) :
    around.slots 0 (tracked :: locals) =
      .variable_ tracked.isCaptured :: around.slots 0 locals := by
  simp [slots, slotsOf, initialized]

theorem slots_cons_waiting (around : Surroundings N) {tracked : TrackedLocal}
    (waiting : tracked.initialized = false) (temporaries : Nat) (locals : List TrackedLocal) :
    around.slots temporaries (tracked :: locals) = around.slots temporaries locals := by
  simp [slots, slotsOf, waiting]

theorem length_slots_append (around : Surroundings N) (above locals : List TrackedLocal) :
    (around.slots 0 locals).length ≤ (around.slots 0 (above ++ locals)).length := by
  simp [slots, slotsOf]

/-- What the end of the function has when lowering has come to `l`; `locals` are its
tracked locals with the flags they have at the end of their scopes. -/
structure Covers (around : Surroundings N) (l : Lower N) (locals : List TrackedLocal) : Prop where
  captures : Captures l.back.trackedLocals locals
  constants : l.back.chunk <+: around.constants
  upvalues : l.back.trackedUpvalues <+: around.captures
  functions : l.functions <+: around.functions
  initializer : l.back.isClassInitMethod = true →
    0 < around.entryHeight ∧ around.kind ≠ .expression

/-- The entry is not among what may be popped. -/
def Tall (around : Surroundings N) (locals : List TrackedLocal) : Prop :=
  around.entryHeight ≤ (around.slots 0 locals).length

theorem Tall.above (tall : around.Tall locals) (above : List TrackedLocal) :
    around.Tall (above ++ locals) :=
  Nat.le_trans tall (length_slots_append around above locals)

/-- What the end covers, an earlier point covers, without what was declared since. -/
theorem Covers.split (grows : l.Grows declared final) (covers : around.Covers final locals) :
    ∃ above below, locals = above ++ below ∧ Captures declared above ∧ around.Covers l below := by
  obtain ⟨rest, split, extends_⟩ := grows.back
  have captures := covers.captures
  rw [split] at captures
  obtain ⟨above, below, rfl, upper, lower⟩ := captures.split
  exact ⟨above, below, rfl, upper, extends_.locals.trans lower,
    extends_.chunk.trans covers.constants, extends_.upvalues.trans covers.upvalues,
    grows.functions.trans covers.functions,
    fun initializer => covers.initializer (extends_.isClassInitMethod.trans initializer)⟩

theorem Covers.before (covers : around.Covers final locals) (grows : l.Grows [] final) :
    around.Covers l locals := by
  obtain ⟨above, below, rfl, upper, earlier⟩ := Covers.split grows covers
  cases upper
  exact earlier

/-- Code from a number of temporaries to another. -/
abbrev Flows (around : Surroundings N) (temporaries : Nat) (locals : List TrackedLocal)
    (code : LoweredCode) (later : Nat) (after : List TrackedLocal) : Prop :=
  Typed around.typing (.live (around.slots temporaries locals)) code
    (.live (around.slots later after))

theorem stands_slots {scopes : List FunctionScope} (captures : Captures (localsOf scopes) locals)
    (temporaries : Nat) : around.Stands scopes temporaries (around.slots temporaries locals) :=
  ⟨locals, captures, rfl⟩

/-- An instruction that takes temporaries. -/
theorem executes_temporaries {emission : Emission} {taken left : Nat}
    (captures : Captures (localsOf emission.scopes) locals) (tall : around.Tall locals)
    (takes : emission.instr.pops = taken)
    (refers : around.Refers (around.slots (taken + left) locals) emission) :
    around.Executes (around.slots (taken + left) locals) emission
      (.live (around.slots (emission.instr.pushes + left) locals)) := by
  refine ⟨⟨_, stands_slots captures _⟩, ?_, refers⟩
  refine ⟨List.replicate taken .temporary, around.slots left locals, slots_add around taken left _,
    by simp [takes], ?_, fun _ member => ?_, .inl ?_⟩
  · rw [length_slots]
    exact Nat.le_trans tall (Nat.le_add_left _ _)
  · cases List.eq_of_mem_replicate member
  · rw [slots_add]

theorem flows_plain {emission : Emission} {taken left : Nat}
    (captures : Captures (localsOf emission.scopes) locals) (tall : around.Tall locals)
    (takes : emission.instr.pops = taken)
    (refers : around.Refers (around.slots (taken + left) locals) emission) :
    around.Flows (taken + left) locals (.plain emission) (emission.instr.pushes + left) locals :=
  .plain ⟨_, rfl, executes_temporaries captures tall takes refers⟩

theorem flows_simple (opcode : Opcode) (token : SourceMapToken Text)
    (shape : opcode.shape = .simple) (covers : around.Covers l locals) (tall : around.Tall locals)
    (left : Nat) :
    around.Flows ((Instr.simple opcode).pops + left) locals (l.simple opcode token)
      ((Instr.simple opcode).pushes + left) locals :=
  flows_plain covers.captures tall rfl shape

theorem flows_operand (opcode : Opcode) (index : Nat) (token : SourceMapToken Text)
    (occurrence : Option Text) (covers : around.Covers l locals) (tall : around.Tall locals) (left : Nat)
    (refers : around.Refers (around.slots ((Instr.operand opcode index).pops + left) locals)
      { instr := .operand opcode index, token, scopes := l.scopes, occurrence }) :
    around.Flows ((Instr.operand opcode index).pops + left) locals
      (l.plain (.operand opcode index) token occurrence)
      ((Instr.operand opcode index).pushes + left) locals :=
  flows_plain covers.captures tall rfl refers

/-- A comparison may be followed by a negation. -/
theorem binaryOpcodes_cases {type : TokenType} (binary : binaryOpcodes type ≠ []) :
    ∃ opcode, (Instr.simple opcode).pops = 2 ∧ (Instr.simple opcode).pushes = 1 ∧
      opcode.shape = .simple ∧
      (binaryOpcodes type = [opcode] ∨ binaryOpcodes type = [opcode, .not_]) := by
  cases type <;> first
    | exact absurd rfl binary
    | exact ⟨_, rfl, rfl, rfl, .inl rfl⟩
    | exact ⟨_, rfl, rfl, rfl, .inr rfl⟩

theorem flows_binary {type : TokenType} (binary : binaryOpcodes type ≠ []) (covers : around.Covers l locals)
    (tall : around.Tall locals) (left : Nat) :
    around.Flows (2 + left) locals (l.simples token (binaryOpcodes type)) (1 + left) locals := by
  obtain ⟨opcode, pops, pushes, shape, cases⟩ := binaryOpcodes_cases binary
  have first := flows_simple opcode token shape covers tall left
  rw [pops, pushes] at first
  rcases cases with single | negated
  · rw [single]
    exact .seq first .nil
  · rw [negated]
    exact .seq first (.seq (flows_simple .not_ token rfl covers tall left) .nil)

theorem flows_pops {below : List TrackedLocal} {depth : Nat} {rest : List TrackedLocal}
    (here : ∀ tracked ∈ declared, tracked.depth = depth)
    (outside : ∀ tracked ∈ rest, tracked.depth < depth)
    (initialized : ∀ tracked ∈ declared, tracked.initialized = true)
    (captures : Captures rest below) (tall : around.Tall below) :
    around.Flows 0 (declared ++ below) (l.pops depth token (declared ++ rest)) 0 below := by
  induction declared with
  | nil =>
      cases rest with
      | nil => exact .nil
      | cons tracked others =>
          have different : tracked.depth ≠ depth :=
            Nat.ne_of_lt (outside tracked List.mem_cons_self)
          simp only [List.nil_append, pops, if_neg different]
          exact .nil
  | cons tracked others ih =>
      have same : tracked.depth = depth := here tracked List.mem_cons_self
      have inner := ih (fun other member => here other (List.mem_cons_of_mem _ member))
        (fun other member => initialized other (List.mem_cons_of_mem _ member))
      simp only [List.cons_append, pops, if_pos same]
      refine .seq (.plain ⟨_, rfl, ⟨0, stands_slots ?_ 0⟩, ?_, ?_⟩) inner
      · exact Captures.append (Captures.refl (tracked :: others)) captures
      · rw [slots_cons_initialized around (initialized tracked List.mem_cons_self)]
        refine ⟨[.variable_ tracked.isCaptured], _, rfl, ?_, Tall.above tall others, ?_, .inl ?_⟩
        · cases known : tracked.isCaptured <;> simp [popOpcode, known, Instr.pops]
        · cases known : tracked.isCaptured <;> simp [popOpcode, known]
        · cases known : tracked.isCaptured <;> simp only [popOpcode, known] <;> rfl
      · cases known : tracked.isCaptured <;> simp [popOpcode, known, Refers, Opcode.shape]

theorem prefix_getElem? {A : Type} {old new : List A} (longer : old <+: new) {index : Nat}
    {value : A} (found : old[index]? = some value) : new[index]? = some value := by
  obtain ⟨rest, rfl⟩ := longer
  rw [List.getElem?_append_left (List.getElem?_eq_some_iff.mp found).1]
  exact found

/-- The variables of a function, when its latest local has its value or when it waits. -/
theorem slots_cases (around : Surroundings N) (tracks : l.Tracks) (captures : Captures l.back.trackedLocals locals)
    {index : Nat} {tracked : TrackedLocal}
    (found : slot? l.back.trackedLocals index = some tracked) :
    ∃ settled : List TrackedLocal, (∀ temporaries, around.slots temporaries locals =
        List.replicate temporaries .temporary ++
          (settled.map (fun tracked => .variable_ tracked.isCaptured) ++ around.callee)) ∧
      ((index < settled.length ∧ slot? settled index = slot? locals index ∧
          tracked.initialized = true ∧
          ∀ head rest, l.back.trackedLocals = head :: rest → head.initialized = false →
            index ≠ rest.length) ∨
        (index = settled.length ∧ tracked.initialized = false ∧
          ∃ rest, l.back.trackedLocals = tracked :: rest ∧ index = rest.length)) := by
  have bound := slot?_lt found
  have rests : ∀ other ∈ l.back.trackedLocals.tail, other.initialized = true := tracks.initialized
  cases known : l.back.trackedLocals with
  | nil => rw [known] at found; cases found
  | cons head rest =>
      rw [known] at captures found bound rests
      cases captures with
      | @cons _ latest _ older marked others =>
          have tail : ∀ other ∈ older, other.initialized = true := by
            intro other member
            obtain ⟨before, earlier, same⟩ := Captures.mem others member
            exact same.initialized.trans (rests before earlier)
          have older_length : older.length = rest.length := Captures.length others
          cases waiting : head.initialized with
          | true =>
              have latest_initialized := marked.initialized.trans waiting
              have all : ∀ other ∈ latest :: older, other.initialized = true := by
                intro other member
                rcases List.mem_cons.mp member with rfl | inside
                · exact latest_initialized
                · exact tail other inside
              refine ⟨latest :: older, fun temporaries => ?_, .inl ⟨?_, rfl, ?_, ?_⟩⟩
              · rw [slots, slotsOf_initialized all]
              · simpa [older_length] using bound
              · rw [slot?_cons] at found
                split at found
                next => cases found; exact waiting
                next => exact rests tracked (slot?_mem found)
              · intro other others same
                cases same
                rw [waiting]
                exact fun waits => absurd waits (by simp)
          | false =>
              have latest_waiting := marked.initialized.trans waiting
              have slots : ∀ temporaries, around.slots temporaries (latest :: older) =
                  List.replicate temporaries .temporary ++
                    (older.map (fun tracked => .variable_ tracked.isCaptured) ++ around.callee) := by
                intro temporaries
                rw [slots_cons_waiting around latest_waiting, Surroundings.slots,
                  slotsOf_initialized tail]
              refine ⟨older, slots, ?_⟩
              rw [slot?_cons] at found
              split at found
              next atHead =>
                  cases found
                  exact .inr ⟨atHead.trans older_length.symm, waiting, rest, rfl, atHead⟩
              next inside =>
                  have below := slot?_lt found
                  refine .inl ⟨older_length ▸ below, ?_, rests tracked (slot?_mem found), ?_⟩
                  · rw [slot?_cons, if_neg (by rw [older_length]; exact inside)]
                  · intro other others same
                    cases same
                    exact fun _ => inside

/-- A tracked local that has its value has a slot. -/
theorem slot_below (tracks : l.Tracks) (captures : Captures l.back.trackedLocals locals)
    {index : Nat} {tracked : TrackedLocal} (found : slot? l.back.trackedLocals index = some tracked)
    (initialized : tracked.initialized = true) (temporaries : Nat) :
    index < (around.slots temporaries locals).length := by
  obtain ⟨settled, slots, ⟨below, -⟩ | ⟨-, waiting, -⟩⟩ :=
    slots_cases around tracks captures found
  · rw [slots]
    simp only [List.length_append, List.length_map]
    omega
  · rw [initialized] at waiting
    cases waiting

/-- What an upvalue of a new closure refers to is captured. -/
theorem captured_of_holds {emission : Emission} {temporaries : Nat} {upvalue : TrackedUpvalue}
    (scopes : emission.scopes = l.scopes)
    (leads : l.Settled ∨ (emission.leading = true ↔ temporaries = 0))
    (tracks : l.Tracks) (covers : around.Covers l locals) (holds : l.back.Holds upvalue) :
    around.Captured (around.slots temporaries locals) emission upvalue := by
  cases upvalue with
  | upUpvalueIndex index => exact Nat.lt_of_lt_of_le holds covers.upvalues.length_le
  | upvalueIndex index =>
      obtain ⟨tracked, found, captured, named⟩ := holds
      obtain ⟨marked, there, same⟩ := covers.captures.slot found
      have waits : emission.waitsFor index = match l.back.trackedLocals with
          | tracked :: rest => !tracked.initialized && index = rest.length
          | [] => false := by
        simp only [Emission.waitsFor, scopes, Lower.scopes, scopeOf]
        cases l.back.trackedLocals <;> rfl
      obtain ⟨settled, slots, ⟨below, slot, -, others⟩ | ⟨rfl, waiting, rest, known, atHead⟩⟩ :=
        slots_cases around tracks covers.captures found
      · have ready : emission.waitsFor index = false := by
          rw [waits]
          cases known : l.back.trackedLocals with
          | nil => rfl
          | cons head rest =>
              cases waiting : head.initialized with
              | true => simp [waiting]
              | false => simp [waiting, others head rest known waiting]
        have inside : index < (around.slots temporaries locals).length := by
          rw [slots]
          simp only [List.length_append, List.length_map]
          omega
        refine ⟨Nat.le_of_lt inside, ⟨fun same => by omega, fun own => ?_⟩, fun kind _ => ?_⟩
        · rw [ready] at own
          cases own.2.2
        · rw [slots, callee, if_neg kind, List.append_nil, slot?_append _ _ (by simpa using below),
            slot?_map, slot, there, Option.map_some, same.isCaptured captured]
      · have own : emission.waitsFor settled.length = true := by
          rw [waits, known]
          simp [waiting, atHead]
        have leading : emission.leading = true ↔ temporaries = 0 := by
          refine leads.resolve_left fun settled => ?_
          rw [settled tracked (slot?_mem found)] at waiting
          cases waiting
        rw [Captured, own, slots, leading]
        simp only [List.length_append, List.length_replicate, List.length_map]
        refine ⟨by omega, ?_, fun _ ready => by cases ready⟩
        by_cases kind : around.kind = .expression
        · simp only [callee, kind, if_true, List.length_singleton, ne_eq, not_true, false_and,
            iff_false]
          omega
        · simp only [callee, if_neg kind, List.length_nil]
          simp [kind]

variable [Number N]

theorem insertConstant_string (constants : List (Constant N)) (chars : Text) :
    (insertConstant constants (.string chars)).2[(insertConstant constants (.string chars)).1]? =
      some (.string chars) := by
  obtain ⟨found, at_, same⟩ := insertConstant_found constants (.string chars)
  cases found <;> simp_all [Constant.equal]

theorem insertConstant_function (constants : List (Constant N)) (position : Nat) :
    (insertConstant constants (.function position)).2[(insertConstant constants
      (.function position)).1]? = some (.function position) := by
  obtain ⟨found, at_, same⟩ := insertConstant_found constants (.function position)
  cases found <;> simp_all [Constant.equal]

theorem insertConstant_number (constants : List (Constant N)) (value : N) :
    ∃ found, (insertConstant constants (.number value)).2[(insertConstant constants
      (.number value)).1]? = some (.number found) := by
  obtain ⟨found, at_, same⟩ := insertConstant_found constants (.number value)
  cases found with
  | number other => exact ⟨other, at_⟩
  | string | function => simp_all [Constant.equal]

/-- The opcodes that take the name in a string constant. -/
def takesName : Opcode → Bool
  | .getGlobal | .defineGlobal | .setGlobal | .getProperty | .setProperty | .getSuper | .class_
  | .method => true
  | _ => false

theorem flows_withName {opcode : Opcode} {name : Text} (token : SourceMapToken Text)
    {occurrence : Option Text} (named : takesName opcode = true)
    (occurs : ∀ other, occurrence = some other → name = other)
    (covers : around.Covers (l.withConstant (.string name)) locals) (tall : around.Tall locals) (left : Nat) :
    around.Flows ((Instr.operand opcode 0).pops + left) locals
      ((l.withConstant (.string name)).plain
        (.operand opcode (insertConstant l.back.chunk (.string name)).1) token occurrence)
      ((Instr.operand opcode 0).pushes + left) locals := by
  have constant := prefix_getElem? covers.constants (insertConstant_string l.back.chunk name)
  have flows := flows_operand opcode (insertConstant l.back.chunk (.string name)).1 token occurrence
    covers tall left
  cases opcode <;> first | exact flows ⟨name, constant, occurs⟩ | cases named

theorem flows_name {opcode : Opcode} {name : Text} (named : takesName opcode = true)
    (runs : (Lower.emitName opcode name token).run l = some (code, final))
    (covers : around.Covers final locals) (tall : around.Tall locals) (left : Nat) :
    around.Flows ((Instr.operand opcode 0).pops + left) locals code
      ((Instr.operand opcode 0).pushes + left) locals := by
  obtain ⟨rfl, rfl⟩ := emitWithConstant_some runs
  exact flows_withName token named (by simp) covers tall left

theorem flows_number {value : N}
    (runs : (Lower.emitConstant (.number value) token).run l = some (code, final))
    (covers : around.Covers final locals) (tall : around.Tall locals) (temporaries : Nat) :
    around.Flows temporaries locals code (1 + temporaries) locals := by
  obtain ⟨rfl, rfl⟩ := emitWithConstant_some runs
  obtain ⟨found, at_⟩ := insertConstant_number l.back.chunk value
  have constant := prefix_getElem? covers.constants at_
  have flows := flows_operand .constant (insertConstant l.back.chunk (.number value)).1 token none
    covers tall temporaries
  simp only [Instr.pops, Nat.zero_add] at flows
  exact flows (.inl ⟨found, constant⟩)

theorem flows_string {chars : Text}
    (runs : (Lower.emitConstant (.string chars) token).run l = some (code, final))
    (covers : around.Covers final locals) (tall : around.Tall locals) (temporaries : Nat) :
    around.Flows temporaries locals code (1 + temporaries) locals := by
  obtain ⟨rfl, rfl⟩ := emitWithConstant_some runs
  have constant := prefix_getElem? covers.constants (insertConstant_string l.back.chunk chars)
  have flows := flows_operand .constant (insertConstant l.back.chunk (.string chars)).1 token none
    covers tall temporaries
  simp only [Instr.pops, Nat.zero_add] at flows
  exact flows (.inr ⟨chars, constant⟩)

theorem flows_access {localOpcode upvalueOpcode globalOpcode : Opcode} {taken : Nat}
    (localIs : localOpcode = .getLocal ∨ localOpcode = .setLocal)
    (upvalueIs : upvalueOpcode = .getUpvalue ∨ upvalueOpcode = .setUpvalue)
    (globalIs : takesName globalOpcode = true)
    (counts : ∀ opcode ∈ [localOpcode, upvalueOpcode, globalOpcode], ∀ index,
      (Instr.operand opcode index).pops = taken ∧ (Instr.operand opcode index).pushes = 1)
    (tracks : l.Tracks)
    (runs : (Lower.emitGetterSetter localOpcode upvalueOpcode globalOpcode token).run l = some (code, final))
    (covers : around.Covers final locals) (tall : around.Tall locals) (left : Nat) :
    around.Flows (taken + left) locals code (1 + left) locals := by
  obtain ⟨named, accesses⟩ := emitGetterSetter_some runs
  cases accesses with
  | @local_ index tracked found initialized =>
      obtain ⟨pops, pushes⟩ := counts localOpcode (by simp) index
      have flows := flows_operand localOpcode index token (some token.lexeme) covers tall left
      rw [pops, pushes] at flows
      obtain ⟨here, same⟩ := findLocal_slot found
      have refers : index < (around.slots (taken + left) locals).length ∧
          ∃ tracked, slot? l.back.trackedLocals index = some tracked ∧
            tracked.initialized = true ∧
            ∀ name, some token.lexeme = some name → tracked.name = name :=
        ⟨slot_below tracks covers.captures here initialized _, tracked, here, initialized,
          fun name found => same.trans (Option.some.inj found)⟩
      rcases localIs with rfl | rfl <;> exact flows refers
  | @upvalue index back enclosing missing found =>
      obtain ⟨pops, pushes⟩ := counts upvalueOpcode (by simp) index
      have flows := flows_operand upvalueOpcode index token (some token.lexeme) covers tall left
      rw [pops, pushes] at flows
      obtain ⟨-, -, below, -⟩ := trackUpvalue_extends named found
      have refers := Nat.lt_of_lt_of_le below covers.upvalues.length_le
      rcases upvalueIs with rfl | rfl <;> exact flows refers
  | global =>
      obtain ⟨pops, pushes⟩ := counts globalOpcode (by simp) 0
      have flows := flows_withName token globalIs (fun _ same => Option.some.inj same) covers tall left
      rw [pops, pushes] at flows
      exact flows

theorem flows_getter (tracks : l.Tracks)
    (runs : (Lower.emitGetter token).run l = some (code, final)) (covers : around.Covers final locals)
    (tall : around.Tall locals) (temporaries : Nat) :
    around.Flows temporaries locals code (1 + temporaries) locals := by
  have flows : around.Flows (0 + temporaries) locals code (1 + temporaries) locals :=
    flows_access (.inl rfl) (.inl rfl) rfl (by simp [Instr.pops, Instr.pushes]) tracks runs covers
      tall temporaries
  rwa [Nat.zero_add] at flows

theorem flows_setter (tracks : l.Tracks)
    (runs : (Lower.emitSetter token).run l = some (code, final)) (covers : around.Covers final locals)
    (tall : around.Tall locals) (left : Nat) :
    around.Flows (1 + left) locals code (1 + left) locals :=
  flows_access (.inr rfl) (.inr rfl) rfl (by simp [Instr.pops, Instr.pushes]) tracks runs covers
    tall left

/-- From the value and the object to the value. -/
theorem flows_path {names : List Token} (follows : FollowsPath l names code final)
    (covers : around.Covers final locals) (tall : around.Tall locals) (left : Nat) :
    around.Flows (2 + left) locals code (1 + left) locals := by
  induction follows with
  | last runs => exact flows_name rfl runs covers tall left
  | @step l l₁ l₂ name next names first rest runs follows ih =>
      have reads : around.Flows (1 + (1 + left)) locals first (1 + (1 + left)) locals :=
        flows_name rfl runs (covers.before follows.steady.grows) tall (1 + left)
      rw [show 1 + (1 + left) = 2 + left by omega] at reads
      exact .seq reads (ih covers)

theorem flows_assignment {target : Token} {names : List Token} (tracks : l.Tracks)
    (runs : (Lower.emitAssignment target names).run l = some (code, final))
    (covers : around.Covers final locals) (tall : around.Tall locals) (left : Nat) :
    around.Flows (1 + left) locals code (1 + left) locals := by
  rcases emitAssignment_some runs with ⟨-, sets⟩ | ⟨object, path, l₁, gets, follows, rfl⟩
  · exact flows_setter tracks sets covers tall left
  · have reads := flows_getter tracks gets (covers.before follows.steady.grows) tall (1 + left)
    rw [show 1 + (1 + left) = 2 + left by omega] at reads
    exact .seq reads (flows_path follows covers tall left)

omit [Number N] in
theorem flows_defaultReturn (settled : l.Settled)
    (runs : (Lower.emitDefaultReturnValue token).run l = some (code, final))
    (covers : around.Covers final locals) (tall : around.Tall locals) :
    around.Flows 0 locals code 1 locals := by
  obtain ⟨rfl, ⟨initializer, rfl⟩ | ⟨-, rfl⟩⟩ := emitDefaultReturnValue_some runs
  · obtain ⟨positive, kind⟩ := covers.initializer initializer
    have height : 0 < (around.slots 0 locals).length := Nat.lt_of_lt_of_le positive tall
    have nonempty : 0 < final.back.trackedLocals.length := by
      have bound : (slotsOf locals).length ≤ locals.length := by
        simp only [slotsOf, List.length_map]
        exact List.length_filter_le _ _
      rw [← covers.captures.length]
      simp only [slots, callee, if_neg kind, List.length_append, List.length_nil,
        List.length_replicate] at height
      omega
    obtain ⟨tracked, found⟩ := slot?_exists nonempty
    have flows := flows_operand .getLocal 0 (thisToken token.line) none covers tall 0
    exact flows ⟨height, tracked, found, settled tracked (slot?_mem found), by simp⟩
  · exact flows_simple .nil token rfl covers tall 0

omit [Number N] in
theorem flows_return (covers : around.Covers l locals) (tall : around.Tall locals) :
    around.Flows 1 locals (l.simple .return_ token) 0 locals :=
  flows_simple .return_ token rfl covers tall 0

omit [Number N] in
/-- The last return of a function. -/
theorem ends_return (covers : around.Covers l locals) (tall : around.Tall locals) :
    Typed around.typing (.live (around.slots 1 locals)) (l.simple .return_ token) .ended := by
  have stands : around.Stands l.scopes 1 (around.slots 1 locals) := ⟨locals, covers.captures, rfl⟩
  refine .plain ⟨_, rfl, ⟨1, stands⟩, ⟨[.temporary], around.slots 0 locals, slots_add around 1 0 locals, rfl, tall, by simp,
      .inr ⟨rfl, rfl⟩⟩, rfl⟩

theorem flows_function {function : LoweredFunction N} {leading : Bool} {temporaries : Nat}
    (tracks : l.Tracks) (holds : ∀ upvalue ∈ function.captures, l.back.Holds upvalue)
    (runs : (Lower.emitFunction function token leading).run l = some (code, final))
    (covers : around.Covers final locals) (tall : around.Tall locals)
    (leads : l.Settled ∨ (leading = true ↔ temporaries = 0)) :
    around.Flows temporaries locals code (1 + temporaries) locals := by
  have steady := emitFunction_steady runs
  obtain ⟨rfl, rfl⟩ := emitFunction_some runs
  have constant := prefix_getElem? covers.constants
    (insertConstant_function l.back.chunk l.functions.length)
  have position : around.functions[l.functions.length]? = some function :=
    prefix_getElem? covers.functions (by simp [withFunction, withConstant, withConstants])
  let emission : Emission := {
    instr := .closure (insertConstant l.back.chunk (.function l.functions.length)).1
      function.captures
    token, scopes := (l.withFunction function).scopes, leading }
  have flows : around.Refers (around.slots (0 + temporaries) locals) emission →
      around.Flows (0 + temporaries) locals (.plain emission) (1 + temporaries) locals :=
    flows_plain covers.captures tall rfl
  rw [Nat.zero_add] at flows
  refine flows ⟨⟨_, function, constant, position, rfl⟩, fun upvalue member => ?_⟩
  exact captured_of_holds rfl (leads.imp_left steady.settled) (steady.tracks tracks) covers (holds upvalue member)

omit [Number N] in
theorem flows_declared {tracked marked : TrackedLocal} (initialized : tracked.initialized = true)
    (same : tracked.Marked marked) (below : List TrackedLocal) :
    around.Flows 1 below (Lower.declared tracked) 0 (marked :: below) := by
  rw [Lower.declared, if_pos initialized, Flows, slots_succ around 0,
    slots_cons_initialized around (same.initialized.trans initialized)]
  exact .mark .tracked

end Surroundings

end Cpplox
