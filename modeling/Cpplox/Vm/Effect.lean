import Cpplox.Vm.Elementary

namespace Cpplox

open Data

/-! What an instruction does to the machine. -/

variable {N : Type} [Number N]

/-- What an operator makes of the values on top of the stack, the last operand first. -/
inductive Computes : Opcode → List (Value N) → Value N → Prop
  | equal {left right : Value N} : Computes .equal [right, left] (.bool (left.equal right))
  | greater {left right : N} :
      Computes .greater [.number right, .number left] (.bool (Number.greater left right))
  | less {left right : N} :
      Computes .less [.number right, .number left] (.bool (Number.less left right))
  | add {left right : N} :
      Computes .add [.number right, .number left] (.number (Number.add left right))
  | subtract {left right : N} :
      Computes .subtract [.number right, .number left] (.number (Number.subtract left right))
  | multiply {left right : N} :
      Computes .multiply [.number right, .number left] (.number (Number.multiply left right))
  | divide {left right : N} :
      Computes .divide [.number right, .number left] (.number (Number.divide left right))
  | not_ {value : Value N} : Computes .not_ [value] (.bool (!value.isTruthy))
  | negate {value : N} : Computes .negate [.number value] (.number (Number.negate value))
  | nil : Computes .nil [] .nil
  | true_ : Computes .true_ [] (.bool true)
  | false_ : Computes .false_ [] (.bool false)

/-- Where a call finds its arguments and the frame it pushes begins. -/
def VM.called (vm : VM N) (closure : Ptr) (argCount : Nat) : VM N :=
  { vm with callFrames :=
      { closure, stackBeginIndex := vm.stack.length - argCount - 1 } :: vm.callFrames }

/-- The closure takes so many arguments. -/
def VM.HasArity (vm : VM N) (ptr : Ptr) (arity : Nat) : Prop :=
  ∃ closure function, vm.gcHeap.valueAt ptr = some (.closure closure) ∧
    vm.gcHeap.valueAt closure.function = some (.function function) ∧ function.arity = arity

variable (platform : Platform N) (activation : Activation N) (vm : VM N)

/-- One constructor for each way an instruction can succeed. -/
inductive Effect : Instr → VM N → Prop
  | computes {opcode : Opcode} {taken rest : List (Value N)} {value : Value N} :
      vm.stack = taken ++ rest → Computes opcode taken value →
      Effect (.simple opcode) { vm with stack := value :: rest }
  | concatenates {left right ptr : Ptr} {rest : List (Value N)} {first second : Text}
      {after : VM N} :
      vm.stack = .string right :: .string left :: rest →
      vm.gcHeap.valueAt left = some (.string first) →
      vm.gcHeap.valueAt right = some (.string second) →
      intern platform (first ++ second) { vm with stack := rest } = .ok ptr after →
      Effect (.simple .add) { after with stack := .string ptr :: rest }
  | constant {index : Nat} {value : Value N} :
      activation.chunk.constants[index]? = some value →
      Effect (.operand .constant index) { vm with stack := value :: vm.stack }
  | pop {top : Value N} {rest : List (Value N)} : vm.stack = top :: rest →
      Effect (.simple .pop) { vm with stack := rest }
  | print {top : Value N} {rest : List (Value N)} {text : Text} : vm.stack = top :: rest →
      valueText top vm = .ok text vm →
      Effect (.simple .print) { vm with stack := rest, output := vm.output ++ [text] }
  -- variables
  | getLocal {index : Nat} {value : Value N} :
      slot? vm.stack (activation.stackBeginIndex + index) = some value →
      Effect (.operand .getLocal index) { vm with stack := value :: vm.stack }
  | setLocal {index : Nat} {top : Value N} {rest : List (Value N)} : vm.stack = top :: rest →
      activation.stackBeginIndex + index < vm.stack.length →
      Effect (.operand .setLocal index)
        { vm with stack := setSlot vm.stack (activation.stackBeginIndex + index) top }
  | getUpvalue {index : Nat} {closure : Closure} {ptr : Ptr} {upvalue : Upvalue N}
      {value : Value N} :
      vm.gcHeap.valueAt activation.closure = some (.closure closure) →
      closure.upvalues[index]? = some ptr → vm.gcHeap.valueAt ptr = some (.upvalue upvalue) →
      upvalue.value? vm.stack = some value →
      Effect (.operand .getUpvalue index) { vm with stack := value :: vm.stack }
  | setOpen {index slot : Nat} {closure : Closure} {ptr : Ptr} {top : Value N}
      {rest : List (Value N)} : vm.stack = top :: rest →
      vm.gcHeap.valueAt activation.closure = some (.closure closure) →
      closure.upvalues[index]? = some ptr → vm.gcHeap.valueAt ptr = some (.upvalue (.open_ slot)) →
      slot < vm.stack.length →
      Effect (.operand .setUpvalue index) { vm with stack := setSlot vm.stack slot top }
  | setClosed {index : Nat} {closure : Closure} {ptr : Ptr} {top old : Value N}
      {rest : List (Value N)} : vm.stack = top :: rest →
      vm.gcHeap.valueAt activation.closure = some (.closure closure) →
      closure.upvalues[index]? = some ptr → vm.gcHeap.valueAt ptr = some (.upvalue (.closed old)) →
      Effect (.operand .setUpvalue index) (vm.updated ptr (.upvalue (.closed top)))
  | getGlobal {index : Nat} {name : Ptr} {value : Value N} :
      activation.chunk.constants[index]? = some (.string name) →
      lookup vm.globals name = some value →
      Effect (.operand .getGlobal index) { vm with stack := value :: vm.stack }
  | defineGlobal {index : Nat} {name : Ptr} {top : Value N} {rest : List (Value N)} :
      vm.stack = top :: rest → activation.chunk.constants[index]? = some (.string name) →
      Effect (.operand .defineGlobal index)
        { vm with stack := rest, globals := assign vm.globals name top }
  | setGlobal {index : Nat} {name : Ptr} {top old : Value N} {rest : List (Value N)} :
      vm.stack = top :: rest → activation.chunk.constants[index]? = some (.string name) →
      lookup vm.globals name = some old →
      Effect (.operand .setGlobal index) { vm with globals := assign vm.globals name top }
  -- instances and classes
  | getField {index : Nat} {name ptr : Ptr} {rest : List (Value N)} {inst : Instance N}
      {field : Value N} : vm.stack = .instance_ ptr :: rest →
      activation.chunk.constants[index]? = some (.string name) →
      vm.gcHeap.valueAt ptr = some (.instance_ inst) → lookup inst.fields name = some field →
      Effect (.operand .getProperty index) { vm with stack := field :: rest }
  | bind {index : Nat} {name ptr method : Ptr} {rest : List (Value N)} {inst : Instance N}
      {klass : Class} : vm.stack = .instance_ ptr :: rest →
      activation.chunk.constants[index]? = some (.string name) →
      vm.gcHeap.valueAt ptr = some (.instance_ inst) → lookup inst.fields name = none →
      vm.gcHeap.valueAt inst.klass = some (.class_ klass) →
      lookup klass.methods name = some method →
      Effect (.operand .getProperty index)
        { vm.made platform (.boundMethod { instance_ := ptr, method }) with
          stack := .boundMethod (vm.fresh platform) :: rest }
  | setProperty {index : Nat} {name ptr : Ptr} {value : Value N} {rest : List (Value N)}
      {inst : Instance N} : vm.stack = .instance_ ptr :: value :: rest →
      activation.chunk.constants[index]? = some (.string name) →
      vm.gcHeap.valueAt ptr = some (.instance_ inst) →
      Effect (.operand .setProperty index)
        { vm.updated ptr (.instance_ { inst with fields := assign inst.fields name value }) with
          stack := value :: rest }
  | getSuper {index : Nat} {name superclass ptr method : Ptr} {rest : List (Value N)}
      {klass : Class} : vm.stack = .class_ superclass :: .instance_ ptr :: rest →
      activation.chunk.constants[index]? = some (.string name) →
      vm.gcHeap.valueAt superclass = some (.class_ klass) →
      lookup klass.methods name = some method →
      Effect (.operand .getSuper index)
        { vm.made platform (.boundMethod { instance_ := ptr, method }) with
          stack := .boundMethod (vm.fresh platform) :: rest }
  | class_ {index : Nat} {name : Ptr} :
      activation.chunk.constants[index]? = some (.string name) →
      Effect (.operand .class_ index)
        { vm.made platform (.class_ { name }) with
          stack := .class_ (vm.fresh platform) :: vm.stack }
  | inherit {parent child : Ptr} {rest : List (Value N)} {parentClass childClass : Class} :
      vm.stack = .class_ parent :: .class_ child :: rest →
      vm.gcHeap.valueAt parent = some (.class_ parentClass) →
      vm.gcHeap.valueAt child = some (.class_ childClass) →
      Effect (.simple .inherit)
        { vm.updated child (.class_ { childClass with
            methods := insertAll childClass.methods parentClass.methods }) with
          stack := .class_ child :: vm.stack }
  | method {index : Nat} {name closure owner : Ptr} {rest : List (Value N)} {klass : Class} :
      vm.stack = .closure closure :: .class_ owner :: rest →
      activation.chunk.constants[index]? = some (.string name) →
      vm.gcHeap.valueAt owner = some (.class_ klass) →
      Effect (.operand .method index)
        { vm.updated owner (.class_ { klass with methods := assign klass.methods name closure }) with
          stack := .class_ owner :: rest }
  -- calls
  | callClosure {argCount : Nat} {closure : Ptr} :
      vm.stack[argCount]? = some (.closure closure) → vm.HasArity closure argCount →
      Effect (.operand .call argCount) (vm.called closure argCount)
  | callInitializer {argCount : Nat} {owner initString initializer : Ptr} {klass : Class}
      {after : VM N} : vm.stack[argCount]? = some (.class_ owner) →
      intern platform initName vm = .ok initString after →
      after.gcHeap.valueAt owner = some (.class_ klass) →
      lookup klass.methods initString = some initializer → after.HasArity initializer argCount →
      Effect (.operand .call argCount) (VM.called
        { after.made platform (.instance_ { klass := owner }) with
          stack := vm.stack.set argCount (.instance_ (after.fresh platform)) } initializer argCount)
  | callClass {owner initString : Ptr} {klass : Class} {rest : List (Value N)} {after : VM N} :
      vm.stack = .class_ owner :: rest → intern platform initName vm = .ok initString after →
      after.gcHeap.valueAt owner = some (.class_ klass) →
      lookup klass.methods initString = none →
      Effect (.operand .call 0)
        { after.made platform (.instance_ { klass := owner }) with
          stack := .instance_ (after.fresh platform) :: rest }
  | callBoundMethod {argCount : Nat} {ptr : Ptr} {bound : BoundMethod} :
      vm.stack[argCount]? = some (.boundMethod ptr) →
      vm.gcHeap.valueAt ptr = some (.boundMethod bound) → vm.HasArity bound.method argCount →
      Effect (.operand .call argCount) (VM.called
        { vm with stack := vm.stack.set argCount (.instance_ bound.instance_) } bound.method argCount)
  | callNative {argCount : Nat} {ptr : Ptr} : vm.stack[argCount]? = some (.nativeFn ptr) →
      vm.gcHeap.valueAt ptr = some .nativeFn →
      Effect (.operand .call argCount)
        { vm with
          stack := .number (platform.clock vm.nClock) :: vm.stack.drop (argCount + 1)
          nClock := vm.nClock + 1 }
  -- closures
  | closure {constant : Nat} {captures : List TrackedUpvalue} {function : Ptr} {after : VM N} :
      activation.chunk.constants[constant]? = some (.function function) →
      CapturedAll platform activation (vm.fresh platform)
        { vm.made platform (.closure { function }) with
          stack := .closure (vm.fresh platform) :: vm.stack } captures after →
      Effect (.closure constant captures) after
  | keepUpvalue {closure : Closure} {top : Value N} {rest : List (Value N)} :
      vm.stack = top :: rest →
      vm.gcHeap.valueAt activation.closure = some (.closure closure) →
      (∀ last ∈ closure.openUpvalues.getLast?, vm.OpenAt last (· ≠ rest.length)) →
      Effect (.simple .closeUpvalue) { vm with stack := rest }
  | closeUpvalue {closure : Closure} {top : Value N} {rest : List (Value N)} {lower : List Ptr}
      {last : Ptr} : vm.stack = top :: rest →
      vm.gcHeap.valueAt activation.closure = some (.closure closure) →
      closure.openUpvalues = lower ++ [last] → vm.OpenAt last (· = rest.length) →
      Effect (.simple .closeUpvalue)
        { (vm.updated last (.upvalue (.closed top))).updated activation.closure
            (.closure { closure with openUpvalues := lower }) with stack := rest }
  | return_ {closure : Closure} {top : Value N} {rest : List (Value N)} {after : VM N} :
      vm.stack = top :: rest →
      vm.gcHeap.valueAt activation.closure = some (.closure closure) →
      Closes vm closure.openUpvalues after → activation.stackBeginIndex < vm.stack.length →
      Effect (.simple .return_)
        { after with
          stack := top :: vm.stack.drop (vm.stack.length - activation.stackBeginIndex)
          callFrames := vm.callFrames.tail }
  -- jumps
  | stays {distance : Nat} {top : Value N} {rest : List (Value N)} : vm.stack = top :: rest →
      top.isTruthy = true → Effect (.jump .jumpIfFalse distance) vm
  | jumps {opcode : Opcode} {distance target : Nat} {frame : Frame} {callers : List Frame} :
      vm.callFrames = frame :: callers →
      (if opcode = .loop then distance ≤ frame.bytecodeIndex ∧
        target = frame.bytecodeIndex - distance else target = frame.bytecodeIndex + distance) →
      (opcode = .jumpIfFalse → ∃ top rest, vm.stack = top :: rest ∧ top.isTruthy = false) →
      Effect (.jump opcode distance)
        { vm with callFrames := { frame with bytecodeIndex := target } :: callers }

section

variable {platform activation vm} {after : VM N} {result : Unit}

theorem binaryNumbers_effect {operation : N → N → Value N} {token : SourceMapToken Ptr}
    {opcode : Opcode}
    (computes : ∀ left right, Computes opcode [.number right, .number left] (operation left right))
    (runs : binaryNumbers operation token vm = .ok result after) :
    Effect platform activation vm (.simple opcode) after := by
  obtain ⟨rhs, top, runs⟩ := peek_bind runs
  obtain ⟨lhs, next, runs⟩ := peek_bind runs
  obtain ⟨rest, stack⟩ := stack_two top next
  cases lhs with
  | number left =>
      cases rhs with
      | number right =>
          have taken : vm.stack = [.number right, .number left] ++ rest := stack
          obtain rfl := erase_push_ok taken runs
          exact .computes taken (computes left right)
      | _ => exact (throwAt_ok runs).elim
  | _ => exact (throwAt_ok runs).elim

theorem not_effect (runs : not_ vm = .ok result after) :
    Effect platform activation vm (.simple .not_) after := by
  obtain ⟨value, top, runs⟩ := peek_bind runs
  obtain ⟨rest, stack⟩ := stack_top top
  have taken : vm.stack = [value] ++ rest := stack
  obtain rfl := erase_push_ok taken runs
  exact .computes taken .not_

theorem negate_effect {token : SourceMapToken Ptr} (runs : negate token vm = .ok result after) :
    Effect platform activation vm (.simple .negate) after := by
  obtain ⟨value, top, runs⟩ := peek_bind runs
  obtain ⟨rest, stack⟩ := stack_top top
  cases value with
  | number value =>
      have taken : vm.stack = [.number value] ++ rest := stack
      obtain rfl := erase_push_ok taken runs
      exact .computes taken .negate
  | _ => exact (throwAt_ok runs).elim

theorem equal_effect (runs : equal vm = .ok result after) :
    Effect platform activation vm (.simple .equal) after := by
  obtain ⟨rhs, top, runs⟩ := peek_bind runs
  obtain ⟨lhs, next, runs⟩ := peek_bind runs
  obtain ⟨rest, stack⟩ := stack_two top next
  have taken : vm.stack = [rhs, lhs] ++ rest := stack
  obtain rfl := erase_push_ok taken runs
  exact .computes taken .equal

theorem add_effect {token : SourceMapToken Ptr} (runs : add platform token vm = .ok result after) :
    Effect platform activation vm (.simple .add) after := by
  obtain ⟨rhs, top, runs⟩ := peek_bind runs
  obtain ⟨lhs, next, runs⟩ := peek_bind runs
  obtain ⟨rest, stack⟩ := stack_two top next
  cases lhs with
  | number left =>
      cases rhs with
      | number right =>
          have taken : vm.stack = [.number right, .number left] ++ rest := stack
          obtain rfl := erase_push_ok taken runs
          exact .computes taken .add
      | _ => exact (throwAt_ok runs).elim
  | string left =>
      cases rhs with
      | string right =>
          obtain ⟨first, finds, runs⟩ := (reads_getString _).bind_ok runs
          obtain ⟨second, laterFinds, runs⟩ := (reads_getString _).bind_ok runs
          obtain ⟨done, shorter, erases, runs⟩ := VmM.bind_ok.mp runs
          obtain ⟨-, rfl⟩ := erase_ok.mp erases
          obtain ⟨ptr, middle, interns, pushes⟩ := VmM.bind_ok.mp runs
          obtain rfl := push_ok.mp pushes
          have below : vm.stack.drop 2 = rest := by rw [stack]; rfl
          rw [below] at interns
          rw [intern_stack interns]
          exact .concatenates stack (getString_ok.mp finds).2 (getString_ok.mp laterFinds).2 interns
      | _ => exact (throwAt_ok runs).elim
  | _ => exact (throwAt_ok runs).elim

theorem print_effect (runs : print vm = .ok result after) :
    Effect platform activation vm (.simple .print) after := by
  obtain ⟨value, top, runs⟩ := peek_bind runs
  obtain ⟨rest, stack⟩ := stack_top top
  obtain ⟨text, reads, runs⟩ := (reads_valueText _).bind_ok runs
  obtain ⟨done, middle, writes, erases⟩ := VmM.bind_ok.mp runs
  obtain rfl := VmM.modify_ok.mp writes
  obtain rfl := erase_one_ok (by exact stack) erases
  exact .print stack reads

theorem getLocal_effect {index : Nat}
    (runs : getLocal (activation.stackBeginIndex + index) vm = .ok result after) :
    Effect platform activation vm (.operand .getLocal index) after := by
  have runs := get_bind runs
  cases found : slot? vm.stack (activation.stackBeginIndex + index) with
  | none =>
      rw [found] at runs
      exact (VmM.throw_ok.mp runs).elim
  | some value =>
      rw [found] at runs
      obtain rfl := push_ok.mp runs
      exact .getLocal found

theorem setLocal_effect {index : Nat}
    (runs : setLocal (activation.stackBeginIndex + index) vm = .ok result after) :
    Effect platform activation vm (.operand .setLocal index) after := by
  obtain ⟨value, top, runs⟩ := peek_bind (get_bind runs)
  obtain ⟨rest, stack⟩ := stack_top top
  split at runs
  next below =>
      obtain rfl := VmM.set_ok.mp runs
      exact .setLocal stack below
  next => exact (VmM.throw_ok.mp runs).elim

omit [Number N] in
theorem upvalueAt_ok {closure ptr : Ptr} {index : Nat}
    (runs : upvalueAt closure index vm = .ok ptr after) : after = vm ∧
      ∃ made, vm.gcHeap.valueAt closure = some (.closure made) ∧ made.upvalues[index]? = some ptr := by
  obtain ⟨made, finds, runs⟩ := (reads_getClosure _).bind_ok runs
  cases found : made.upvalues[index]? with
  | none =>
      rw [found] at runs
      exact (VmM.throw_ok.mp runs).elim
  | some upvalue =>
      rw [found] at runs
      obtain ⟨rfl, rfl⟩ := VmM.pure_ok.mp runs
      exact ⟨rfl, made, (getClosure_ok.mp finds).2, found⟩

theorem getUpvalue_effect {index : Nat}
    (runs : getUpvalueInstr activation.closure index vm = .ok result after) :
    Effect platform activation vm (.operand .getUpvalue index) after := by
  obtain ⟨ptr, finds, runs⟩ := (reads_upvalueAt _ _).bind_ok runs
  obtain ⟨-, made, there, found⟩ := upvalueAt_ok finds
  obtain ⟨value, reads, runs⟩ := (reads_upvalueValue _).bind_ok runs
  obtain ⟨-, upvalue, captured, read⟩ := upvalueValue_ok.mp reads
  obtain rfl := push_ok.mp runs
  exact .getUpvalue there found captured read

theorem setUpvalue_effect {index : Nat}
    (runs : setUpvalueInstr activation.closure index vm = .ok result after) :
    Effect platform activation vm (.operand .setUpvalue index) after := by
  obtain ⟨ptr, finds, runs⟩ := (reads_upvalueAt _ _).bind_ok runs
  obtain ⟨-, made, there, found⟩ := upvalueAt_ok finds
  obtain ⟨value, top, runs⟩ := peek_bind runs
  obtain ⟨rest, stack⟩ := stack_top top
  obtain ⟨upvalue, reads, runs⟩ := (reads_getUpvalue _).bind_ok runs
  have captured := (getUpvalue_ok.mp reads).2
  cases upvalue with
  | closed old =>
      obtain rfl := setObject_ok.mp runs
      exact .setClosed stack there found captured
  | open_ slot =>
      have runs := get_bind runs
      split at runs
      next below =>
          obtain rfl := VmM.set_ok.mp runs
          exact .setOpen stack there found captured below
      next => exact (VmM.throw_ok.mp runs).elim

section

variable {token : SourceMapToken Ptr} {index : Nat} {name : Ptr}

theorem getGlobal_effect (names : activation.chunk.constants[index]? = some (.string name))
    (runs : getGlobal token name vm = .ok result after) :
    Effect platform activation vm (.operand .getGlobal index) after := by
  have runs := get_bind runs
  cases found : lookup vm.globals name with
  | none =>
      rw [found] at runs
      exact (throwUndefined_ok runs).elim
  | some value =>
      rw [found] at runs
      obtain rfl := push_ok.mp runs
      exact .getGlobal names found

theorem defineGlobal_effect (names : activation.chunk.constants[index]? = some (.string name))
    (runs : defineGlobal name vm = .ok result after) :
    Effect platform activation vm (.operand .defineGlobal index) after := by
  obtain ⟨value, top, runs⟩ := peek_bind runs
  obtain ⟨rest, stack⟩ := stack_top top
  obtain ⟨done, middle, writes, erases⟩ := VmM.bind_ok.mp runs
  obtain rfl := VmM.modify_ok.mp writes
  obtain rfl := erase_one_ok (by exact stack) erases
  exact .defineGlobal stack names

theorem setGlobal_effect (names : activation.chunk.constants[index]? = some (.string name))
    (runs : setGlobal token name vm = .ok result after) :
    Effect platform activation vm (.operand .setGlobal index) after := by
  have runs := get_bind runs
  cases found : lookup vm.globals name with
  | none =>
      rw [found] at runs
      exact (throwUndefined_ok runs).elim
  | some old =>
      rw [found] at runs
      obtain ⟨value, top, runs⟩ := peek_bind runs
      obtain ⟨rest, stack⟩ := stack_top top
      obtain rfl := VmM.modify_ok.mp runs
      exact .setGlobal stack names found

theorem getProperty_effect (names : activation.chunk.constants[index]? = some (.string name))
    (runs : getProperty platform token name vm = .ok result after) :
    Effect platform activation vm (.operand .getProperty index) after := by
  obtain ⟨value, top, runs⟩ := peek_bind runs
  obtain ⟨rest, stack⟩ := stack_top top
  cases value with
  | instance_ ptr =>
      obtain ⟨done, shorter, erases, runs⟩ := VmM.bind_ok.mp runs
      obtain rfl := erase_one_ok stack erases
      obtain ⟨inst, finds, runs⟩ := (reads_getInstance _).bind_ok runs
      have there := (getInstance_ok.mp finds).2
      cases field : lookup inst.fields name with
      | some value =>
          rw [field] at runs
          obtain rfl := push_ok.mp runs
          exact .getField stack names there field
      | none =>
          rw [field] at runs
          obtain ⟨klass, finds, runs⟩ := (reads_getClass _).bind_ok runs
          cases found : lookup klass.methods name with
          | none =>
              rw [found] at runs
              exact (throwUndefined_ok runs).elim
          | some method =>
              rw [found] at runs
              obtain ⟨bound, middle, makes, pushes⟩ := VmM.bind_ok.mp runs
              obtain ⟨rfl, rfl⟩ := make_ok.mp makes
              obtain rfl := push_ok.mp pushes
              exact .bind stack names there field (getClass_ok.mp finds).2 found
  | _ => exact (throwAt_ok runs).elim

theorem setProperty_effect (names : activation.chunk.constants[index]? = some (.string name))
    (runs : setProperty token name vm = .ok result after) :
    Effect platform activation vm (.operand .setProperty index) after := by
  obtain ⟨value, top, runs⟩ := peek_bind runs
  cases value with
  | instance_ ptr =>
      obtain ⟨inst, finds, runs⟩ := (reads_getInstance _).bind_ok runs
      obtain ⟨value, next, runs⟩ := peek_bind runs
      obtain ⟨rest, stack⟩ := stack_two top next
      obtain ⟨done, middle, writes, erases⟩ := VmM.bind_ok.mp runs
      obtain rfl := setObject_ok.mp writes
      obtain rfl := erase_one_ok (by exact stack) erases
      exact .setProperty stack names (getInstance_ok.mp finds).2
  | _ => exact (throwAt_ok runs).elim

theorem getSuper_effect (names : activation.chunk.constants[index]? = some (.string name))
    (runs : getSuper platform token name vm = .ok result after) :
    Effect platform activation vm (.operand .getSuper index) after := by
  obtain ⟨superclass, top, runs⟩ := peek_bind runs
  obtain ⟨receiver, next, runs⟩ := peek_bind runs
  obtain ⟨rest, stack⟩ := stack_two top next
  cases superclass with
  | class_ superclass =>
      cases receiver with
      | instance_ ptr =>
          obtain ⟨klass, finds, runs⟩ := (reads_getClass _).bind_ok runs
          cases found : lookup klass.methods name with
          | none =>
              rw [found] at runs
              exact (throwUndefined_ok runs).elim
          | some method =>
              rw [found] at runs
              obtain ⟨bound, middle, makes, runs⟩ := VmM.bind_ok.mp runs
              obtain ⟨rfl, rfl⟩ := make_ok.mp makes
              have taken : (vm.made platform (.boundMethod { instance_ := ptr, method })).stack =
                  [.class_ superclass, .instance_ ptr] ++ rest := stack
              obtain rfl := erase_push_ok taken runs
              exact .getSuper stack names (getClass_ok.mp finds).2 found
      | _ => exact (VmM.throw_ok.mp runs).elim
  | _ => exact (VmM.throw_ok.mp runs).elim

theorem inherit_effect (runs : inherit token vm = .ok result after) :
    Effect platform activation vm (.simple .inherit) after := by
  obtain ⟨superclass, top, runs⟩ := peek_bind runs
  cases superclass with
  | class_ parent =>
      obtain ⟨child, next, runs⟩ := peek_bind runs
      obtain ⟨rest, stack⟩ := stack_two top next
      cases child with
      | class_ child =>
          obtain ⟨parentClass, finds, runs⟩ := (reads_getClass _).bind_ok runs
          obtain ⟨childClass, laterFinds, runs⟩ := (reads_getClass _).bind_ok runs
          obtain ⟨done, middle, writes, pushes⟩ := VmM.bind_ok.mp runs
          obtain rfl := setObject_ok.mp writes
          obtain rfl := push_ok.mp pushes
          exact .inherit stack (getClass_ok.mp finds).2 (getClass_ok.mp laterFinds).2
      | _ => exact (VmM.throw_ok.mp runs).elim
  | _ => exact (throwAt_ok runs).elim

theorem method_effect (names : activation.chunk.constants[index]? = some (.string name))
    (runs : method name vm = .ok result after) :
    Effect platform activation vm (.operand .method index) after := by
  obtain ⟨closure, top, runs⟩ := peek_bind runs
  obtain ⟨owner, next, runs⟩ := peek_bind runs
  obtain ⟨rest, stack⟩ := stack_two top next
  cases closure with
  | closure closure =>
      cases owner with
      | class_ owner =>
          obtain ⟨klass, finds, runs⟩ := (reads_getClass _).bind_ok runs
          obtain ⟨done, middle, writes, erases⟩ := VmM.bind_ok.mp runs
          obtain rfl := setObject_ok.mp writes
          obtain rfl := erase_one_ok (by exact stack) erases
          exact .method stack names (getClass_ok.mp finds).2
      | _ => exact (VmM.throw_ok.mp runs).elim
  | _ => exact (VmM.throw_ok.mp runs).elim

end

section

variable {token : SourceMapToken Ptr} {argCount : Nat}

omit [Number N] in
theorem arityOf_bind {B : Type} {ptr : Ptr} {rest : Nat → VmM N B} {value : B}
    (runs : (arityOf ptr >>= rest) vm = .ok value after) :
    ∃ arity, vm.HasArity ptr arity ∧ rest arity vm = .ok value after := by
  obtain ⟨arity, reads, runs⟩ := (reads_arityOf ptr).bind_ok runs
  exact ⟨arity, (arityOf_ok.mp reads).2, runs⟩

theorem callClosure_effect {ptr : Ptr} (callee : vm.stack[argCount]? = some (.closure ptr))
    (runs : callClosure token argCount ptr vm = .ok result after) :
    Effect platform activation vm (.operand .call argCount) after := by
  obtain ⟨arity, has, runs⟩ := arityOf_bind runs
  split at runs
  next same =>
      subst same
      obtain rfl := pushFrame_ok.mp runs
      exact .callClosure callee has
  next => exact (throwAt_ok runs).elim

theorem callClass_effect {owner : Ptr} (callee : vm.stack[argCount]? = some (.class_ owner))
    (runs : callClass platform token argCount owner vm = .ok result after) :
    Effect platform activation vm (.operand .call argCount) after := by
  obtain ⟨initString, named, interns, runs⟩ := VmM.bind_ok.mp runs
  have stack := intern_stack interns
  obtain ⟨klass, finds, runs⟩ := (reads_getClass _).bind_ok runs
  have there := (getClass_ok.mp finds).2
  cases found : lookup klass.methods initString with
  | some initializer =>
      rw [found] at runs
      obtain ⟨arity, has, runs⟩ := arityOf_bind runs
      split at runs
      next same =>
          subst same
          obtain ⟨fresh, middle, makes, runs⟩ := VmM.bind_ok.mp runs
          obtain ⟨rfl, rfl⟩ := make_ok.mp makes
          obtain ⟨done, replaced, replaces, pushes⟩ := VmM.bind_ok.mp runs
          obtain rfl := replace_ok.mp replaces
          obtain rfl := pushFrame_ok.mp pushes
          have effect : Effect platform activation vm (.operand .call arity) _ :=
            .callInitializer callee interns there found has
          rw [← stack] at effect
          exact effect
      next => exact (throwAt_ok runs).elim
  | none =>
      rw [found] at runs
      by_cases same : 0 = argCount
      · subst same
        have runs : (do replace 0 (.instance_ (← make platform (.instance_ { klass := owner }))))
          named = .ok result after := runs
        obtain ⟨fresh, middle, makes, replaces⟩ := VmM.bind_ok.mp runs
        obtain ⟨rfl, rfl⟩ := make_ok.mp makes
        obtain rfl := replace_ok.mp replaces
        obtain ⟨rest, split⟩ := stack_top callee
        have replaced : (named.made platform (.instance_ { klass := owner })).stack.set 0
            (.instance_ (named.fresh platform)) = .instance_ (named.fresh platform) :: rest := by
          change named.stack.set 0 _ = _
          rw [stack, split]
          rfl
        rw [replaced]
        exact .callClass split interns there found
      · simp only [if_neg same] at runs
        exact (throwAt_ok runs).elim

theorem callBoundMethod_effect {ptr : Ptr} {bound : BoundMethod}
    (callee : vm.stack[argCount]? = some (.boundMethod ptr))
    (there : vm.gcHeap.valueAt ptr = some (.boundMethod bound))
    (runs : callBoundMethod token argCount bound vm = .ok result after) :
    Effect platform activation vm (.operand .call argCount) after := by
  obtain ⟨arity, has, runs⟩ := arityOf_bind runs
  split at runs
  next same =>
      subst same
      obtain ⟨done, replaced, replaces, pushes⟩ := VmM.bind_ok.mp runs
      obtain rfl := replace_ok.mp replaces
      obtain rfl := pushFrame_ok.mp pushes
      exact .callBoundMethod callee there has
  next => exact (throwAt_ok runs).elim

theorem callNative_effect {ptr : Ptr} (callee : vm.stack[argCount]? = some (.nativeFn ptr))
    (there : vm.gcHeap.valueAt ptr = some .nativeFn)
    (runs : callNative platform argCount vm = .ok result after) :
    Effect platform activation vm (.operand .call argCount) after := by
  obtain ⟨done, counted, counts, runs⟩ := VmM.bind_ok.mp (get_bind runs)
  obtain rfl := VmM.set_ok.mp counts
  obtain ⟨done, shorter, erases, pushes⟩ := VmM.bind_ok.mp runs
  obtain ⟨-, rfl⟩ := erase_ok.mp erases
  obtain rfl := push_ok.mp pushes
  exact .callNative callee there

theorem call_effect (runs : call platform token argCount vm = .ok result after) :
    Effect platform activation vm (.operand .call argCount) after := by
  obtain ⟨callee, found, runs⟩ := peek_bind runs
  cases callee with
  | closure ptr => exact callClosure_effect found runs
  | class_ ptr => exact callClass_effect found runs
  | boundMethod ptr =>
      obtain ⟨bound, finds, runs⟩ := (reads_getBoundMethod _).bind_ok runs
      exact callBoundMethod_effect found (getBoundMethod_ok.mp finds).2 runs
  | nativeFn ptr =>
      obtain ⟨done, finds, runs⟩ := (reads_getNativeFn _).bind_ok runs
      exact callNative_effect found (getNativeFn_ok.mp finds).2 runs
  | _ => exact (throwAt_ok runs).elim

end

theorem closure_effect {constant : Nat} {captures : List TrackedUpvalue}
    (runs : closure platform activation constant captures vm = .ok result after) :
    Effect platform activation vm (.closure constant captures) after := by
  obtain ⟨function, reads, runs⟩ := (reads_functionAt _ _).bind_ok runs
  obtain ⟨ptr, middle, makes, runs⟩ := VmM.bind_ok.mp runs
  obtain ⟨rfl, rfl⟩ := make_ok.mp makes
  obtain ⟨done, pushed, pushes, captured⟩ := VmM.bind_ok.mp runs
  obtain rfl := push_ok.mp pushes
  exact .closure (functionAt_ok.mp reads).2 (captureAll_ok captured)

theorem closeUpvalueInstr_effect (runs : closeUpvalueInstr activation vm = .ok result after) :
    Effect platform activation vm (.simple .closeUpvalue) after := by
  obtain ⟨made, finds, runs⟩ := (reads_getClosure _).bind_ok runs
  have there := (getClosure_ok.mp finds).2
  have pops (keeps : ∀ last ∈ made.openUpvalues.getLast?, ∀ rest top, vm.stack = top :: rest →
      vm.OpenAt last (· ≠ rest.length)) (runs : erase 1 vm = .ok result after) :
      Effect platform activation vm (.simple .closeUpvalue) after := by
    obtain ⟨enough, -⟩ := erase_ok.mp runs
    obtain ⟨top, rest, stack⟩ := List.exists_cons_of_length_pos enough
    obtain rfl := erase_one_ok stack runs
    exact .keepUpvalue stack there fun last member => keeps last member rest top stack
  cases latest : made.openUpvalues.getLast? with
  | none =>
      rw [latest] at runs
      exact pops (by simp [latest]) runs
  | some last =>
      rw [latest] at runs
      obtain ⟨slot, reads, runs⟩ := (reads_stackIndex _).bind_ok runs
      have isOpen := (stackIndex_ok.mp reads).2
      have runs := get_bind runs
      split at runs
      next same =>
          obtain ⟨done, closed, closes, runs⟩ := VmM.bind_ok.mp runs
          obtain ⟨upvalue, value, found, read, rfl⟩ := closeUpvalue_ok.mp closes
          obtain ⟨done, written, writes, erases⟩ := VmM.bind_ok.mp runs
          obtain rfl := setObject_ok.mp writes
          obtain ⟨enough, -⟩ := erase_ok.mp erases
          obtain ⟨top, rest, stack⟩ := List.exists_cons_of_length_pos enough
          have stack : vm.stack = top :: rest := stack
          obtain rfl := erase_one_ok (by exact stack) erases
          have index : slot = rest.length := by
            rw [stack, List.length_cons] at same
            exact Nat.succ.inj same
          rw [isOpen] at found
          cases found
          rw [Upvalue.value?, stack, index, slot?_cons, if_pos rfl] at read
          cases read
          have split := List.dropLast_append_getLast? last latest
          exact .closeUpvalue stack there split.symm ⟨slot, isOpen, index⟩
      next different =>
          refine pops (fun other member rest top stack => ?_) runs
          cases latest.symm.trans member
          refine ⟨slot, isOpen, fun same => different ?_⟩
          rw [same, stack, List.length_cons]

theorem return_effect (runs : return_ activation vm = .ok result after) :
    Effect platform activation vm (.simple .return_) after := by
  obtain ⟨made, finds, runs⟩ := (reads_getClosure _).bind_ok runs
  obtain ⟨done, closed, closes, runs⟩ := VmM.bind_ok.mp runs
  have closes := closeAll_ok closes
  obtain ⟨value, top, runs⟩ := peek_bind runs
  obtain ⟨rest, stack⟩ := stack_top top
  have runs := get_bind runs
  have sameStack : closed.stack = vm.stack := by rw [closes.onlyHeap]
  have sameFrames : closed.callFrames = vm.callFrames := by rw [closes.onlyHeap]
  rw [sameStack] at stack
  split at runs
  next below =>
      obtain rfl := VmM.set_ok.mp runs
      rw [sameStack] at below ⊢
      rw [sameFrames]
      exact .return_ stack (getClosure_ok.mp finds).2 closes below
  next => exact (VmM.throw_ok.mp runs).elim

omit [Number N] in
theorem moveTo_ok {target : Nat → Option Nat} {frame : Frame} {callers : List Frame}
    (frames : vm.callFrames = frame :: callers) (runs : moveTo target vm = .ok result after) :
    ∃ bytecodeIndex, target frame.bytecodeIndex = some bytecodeIndex ∧
      after = { vm with callFrames := { frame with bytecodeIndex } :: callers } := by
  have runs := get_bind runs
  rw [frames] at runs
  cases found : target frame.bytecodeIndex with
  | none =>
      simp only [found] at runs
      exact (VmM.throw_ok.mp runs).elim
  | some bytecodeIndex =>
      simp only [found] at runs
      exact ⟨bytecodeIndex, rfl, VmM.set_ok.mp runs⟩

theorem jump_effect {opcode : Opcode} {distance : Nat} {frame : Frame} {callers : List Frame}
    (frames : vm.callFrames = frame :: callers) (runs : jump opcode distance vm = .ok result after) :
    Effect platform activation vm (.jump opcode distance) after := by
  unfold jump at runs
  split at runs
  · obtain ⟨_, target, rfl⟩ := moveTo_ok frames runs
    cases target
    exact .jumps frames (by simp) (by simp)
  · obtain ⟨value, top, runs⟩ := peek_bind runs
    obtain ⟨rest, stack⟩ := stack_top top
    split at runs
    next truthy =>
        obtain ⟨-, rfl⟩ := VmM.pure_ok.mp runs
        exact .stays stack truthy
    next falsy =>
        obtain ⟨_, target, rfl⟩ := moveTo_ok frames runs
        cases target
        exact .jumps frames (by simp) fun _ => ⟨value, rest, stack, by simpa using falsy⟩
  · obtain ⟨_, target, rfl⟩ := moveTo_ok frames runs
    unfold jumpBackward at target
    split at target
    next enough =>
        cases target
        exact .jumps frames (by simp [enough]) (by simp)
    next => cases target
  · exact (VmM.throw_ok.mp runs).elim

theorem executeSimple_effect {opcode : Opcode}
    (runs : executeSimple platform activation opcode vm = .ok result after) :
    Effect platform activation vm (.simple opcode) after := by
  have literal {value : Value N} {opcode : Opcode} (computes : Computes opcode [] value)
      (runs : push value vm = .ok result after) :
      Effect platform activation vm (.simple opcode) after := by
    obtain rfl := push_ok.mp runs
    exact .computes (List.nil_append _).symm computes
  cases opcode with
  | nil => exact literal .nil runs
  | true_ => exact literal .true_ runs
  | false_ => exact literal .false_ runs
  | pop =>
      obtain ⟨enough, -⟩ := erase_ok.mp runs
      obtain ⟨top, rest, stack⟩ := List.exists_cons_of_length_pos enough
      obtain rfl := erase_one_ok stack runs
      exact .pop stack
  | equal => exact equal_effect runs
  | greater => exact binaryNumbers_effect (fun _ _ => .greater) runs
  | less => exact binaryNumbers_effect (fun _ _ => .less) runs
  | add => exact add_effect runs
  | subtract => exact binaryNumbers_effect (fun _ _ => .subtract) runs
  | multiply => exact binaryNumbers_effect (fun _ _ => .multiply) runs
  | divide => exact binaryNumbers_effect (fun _ _ => .divide) runs
  | not_ => exact not_effect runs
  | negate => exact negate_effect runs
  | print => exact print_effect runs
  | closeUpvalue => exact closeUpvalueInstr_effect runs
  | return_ => exact return_effect runs
  | inherit => exact inherit_effect runs
  | _ => exact (VmM.throw_ok.mp runs).elim

theorem executeOperand_effect {opcode : Opcode} {index : Nat}
    (runs : executeOperand platform activation index opcode vm = .ok result after) :
    Effect platform activation vm (.operand opcode index) after := by
  have named {rest : Ptr → VmM N Unit}
      (effect : ∀ name, activation.chunk.constants[index]? = some (.string name) →
        rest name vm = .ok result after → Effect platform activation vm (.operand opcode index) after)
      (runs : (nameAt activation.chunk index >>= rest) vm = .ok result after) :
      Effect platform activation vm (.operand opcode index) after := by
    obtain ⟨name, reads, runs⟩ := (reads_nameAt _ _).bind_ok runs
    exact effect name (nameAt_ok.mp reads).2 runs
  cases opcode with
  | constant =>
      obtain ⟨value, reads, runs⟩ := (reads_constantAt _ _).bind_ok runs
      obtain rfl := push_ok.mp runs
      exact .constant (constantAt_ok.mp reads).2
  | getLocal => exact getLocal_effect runs
  | setLocal => exact setLocal_effect runs
  | getGlobal => exact named (fun _ => getGlobal_effect) runs
  | defineGlobal => exact named (fun _ => defineGlobal_effect) runs
  | setGlobal => exact named (fun _ => setGlobal_effect) runs
  | getUpvalue => exact getUpvalue_effect runs
  | setUpvalue => exact setUpvalue_effect runs
  | getProperty => exact named (fun _ => getProperty_effect) runs
  | setProperty => exact named (fun _ => setProperty_effect) runs
  | getSuper => exact named (fun _ => getSuper_effect) runs
  | call => exact call_effect runs
  | class_ =>
      refine named (fun name names runs => ?_) runs
      obtain ⟨ptr, middle, makes, pushes⟩ := VmM.bind_ok.mp runs
      obtain ⟨rfl, rfl⟩ := make_ok.mp makes
      obtain rfl := push_ok.mp pushes
      exact .class_ names
  | method => exact named (fun _ => method_effect) runs
  | _ => exact (VmM.throw_ok.mp runs).elim

theorem execute_effect {instr : Instr} {frame : Frame} {callers : List Frame}
    (frames : vm.callFrames = frame :: callers)
    (runs : execute platform activation instr vm = .ok result after) :
    Effect platform activation vm instr after := by
  cases instr with
  | simple opcode => exact executeSimple_effect runs
  | operand opcode index => exact executeOperand_effect runs
  | jump opcode distance => exact jump_effect frames runs
  | closure constant captures => exact closure_effect runs
  | unexpected byte =>
      obtain ⟨opcode, middle, -, runs⟩ := VmM.bind_ok.mp runs
      obtain ⟨lexeme, last, -, throws⟩ := VmM.bind_ok.mp runs
      exact (VmM.throw_ok.mp throws).elim

end

end Cpplox
