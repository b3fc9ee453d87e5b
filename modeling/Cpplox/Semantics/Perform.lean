import Cpplox.Semantics.Store
import Cpplox.Structured.Enacts
import Mathlib.Logic.Function.Basic

namespace Cpplox

open Data

/-! What the instructions of a program without functions do to its store. -/

abbrev StoreM (N : Type) := EStateM (Stop Text) (Store N)

def errorAt (token : SourceMapToken Text) (what : Text) : Stop Text :=
  .failed (atLine token.line.toNat ++ " at \"".toList ++ token.lexeme ++ "\": ".toList ++ what)

def undefinedVariable (token : SourceMapToken Text) (name : Text) : Stop Text :=
  .failed (atLine token.line.toNat ++ ": Undefined ".toList ++ "variable".toList ++ " \"".toList ++ name ++
    "\".".toList)

variable {N : Type}

namespace Datum

variable (token : SourceMapToken Text)

def numbers (operation : N → N → Datum N) : Datum N → Datum N → Except (Stop Text) (Datum N)
  | number left, number right => .ok (operation left right)
  | _, _ => .error (errorAt token operandsMustBeNumbers)

variable [Number N]

def add : Datum N → Datum N → Except (Stop Text) (Datum N)
  | number left, number right => .ok (.number (Number.add left right))
  | string left, string right => .ok (.string (left ++ right))
  | _, _ => .error (errorAt token operandsMustBeNumbersOrStrings)

def negate : Datum N → Except (Stop Text) (Datum N)
  | number value => .ok (.number (Number.negate value))
  | _ => .error (errorAt token operandMustBeNumber)

end Datum

def Store.push (value : Datum N) (store : Store N) : Store N :=
  { store with stack := value :: store.stack }

def Store.define (name : Text) (value : Datum N) (store : Store N) : Store N :=
  { store with globals := Function.update store.globals name (some value) }

def pushDatum (value : Datum N) : StoreM N Unit := modify (Store.push value)

/-- Takes the value on top. -/
def popDatum : StoreM N (Datum N) := do
  match (← get).stack with
  | value :: rest => do
      modify fun store => { store with stack := rest }
      return value
  | [] => throw .stuck

/-- The value on top, which stays there. -/
def topDatum : StoreM N (Datum N) := do
  match (← get).stack with
  | value :: _ => return value
  | [] => throw .stuck

def pushResult : Except (Stop Text) (Datum N) → StoreM N Unit
  | .ok value => pushDatum value
  | .error stop => throw stop

def onTop (operation : Datum N → Except (Stop Text) (Datum N)) : StoreM N Unit := do
  let value ← popDatum
  pushResult (operation value)

def onTopTwo (operation : Datum N → Datum N → Except (Stop Text) (Datum N)) : StoreM N Unit := do
  let right ← popDatum
  let left ← popDatum
  pushResult (operation left right)

/-- What should be there. -/
def found (stop : Stop Text) : Option (Datum N) → StoreM N (Datum N)
  | some value => return value
  | none => throw stop

def performGetLocal (index : Nat) : StoreM N Unit := do
  pushDatum (← found .stuck (slot? (← get).stack index))

def performSetLocal (index : Nat) : StoreM N Unit := do
  let value ← topDatum
  let _ ← found .stuck (slot? (← get).stack index)
  modify fun store => { store with stack := setSlot store.stack index value }

def performGetGlobal (token : SourceMapToken Text) (name : Text) : StoreM N Unit := do
  pushDatum (← found (undefinedVariable token name) ((← get).globals name))

def performDefineGlobal (name : Text) : StoreM N Unit := do
  let value ← popDatum
  modify (Store.define name value)

def performSetGlobal (token : SourceMapToken Text) (name : Text) : StoreM N Unit := do
  let value ← topDatum
  let _ ← found (undefinedVariable token name) ((← get).globals name)
  modify (Store.define name value)

variable [Number N]

def performPrint : StoreM N Unit := do
  let value ← popDatum
  modify fun store => { store with output := store.output ++ [value.text] }

/-- Without functions no local is ever captured: where one would be closed it is popped. -/
def performSimple (token : SourceMapToken Text) : Opcode → StoreM N Unit
  | .nil => pushDatum .nil
  | .true_ => pushDatum (.bool true)
  | .false_ => pushDatum (.bool false)
  | .pop | .closeUpvalue => do let _ ← popDatum
  | .equal => onTopTwo fun left right => .ok (.bool (left.equal right))
  | .greater => onTopTwo (Datum.numbers token fun left right => .bool (Number.greater left right))
  | .less => onTopTwo (Datum.numbers token fun left right => .bool (Number.less left right))
  | .add => onTopTwo (Datum.add token)
  | .subtract => onTopTwo (Datum.numbers token fun left right => .number (Number.subtract left right))
  | .multiply => onTopTwo (Datum.numbers token fun left right => .number (Number.multiply left right))
  | .divide => onTopTwo (Datum.numbers token fun left right => .number (Number.divide left right))
  | .not_ => onTop fun value => .ok (.bool (!value.isTruthy))
  | .negate => onTop (Datum.negate token)
  | .print => performPrint
  | _ => throw .stuck

def constantDatum : Option (Constant N) → StoreM N (Datum N)
  | some (.number value) => return .number value
  | some (.string chars) => return .string chars
  | _ => throw .stuck

def constantName : Option (Constant N) → StoreM N Text
  | some (.string name) => return name
  | _ => throw .stuck

def performOperand (constants : List (Constant N)) (token : SourceMapToken Text) (index : Nat) :
    Opcode → StoreM N Unit
  | .constant => do pushDatum (← constantDatum constants[index]?)
  | .getLocal => performGetLocal index
  | .setLocal => performSetLocal index
  | .getGlobal => do performGetGlobal token (← constantName constants[index]?)
  | .defineGlobal => do performDefineGlobal (← constantName constants[index]?)
  | .setGlobal => do performSetGlobal token (← constantName constants[index]?)
  | _ => throw .stuck

def perform (constants : List (Constant N)) (token : SourceMapToken Text) : Instr → StoreM N Unit
  | .simple opcode => performSimple token opcode
  | .operand opcode index => performOperand constants token index opcode
  | _ => throw .stuck

/-- What instructions do, and what a jump finds on top of the stack. -/
def storeActions (constants : List (Constant N)) : Structured.Actions Emission (Store N) Text where
  plain emission := perform constants emission.token emission.instr
  test store := store.stack.head?.map Datum.isTruthy

variable {platform : Platform N} {vm after : VM N} {activation : Activation N}
  {operation : VmM N Unit} {performs : StoreM N Unit} {token : SourceMapToken Text}
  {constants : List (Constant N)} {value : Value N}

/-- What an instruction of the outermost activation refers to. -/
structure Activation.Outermost (activation : Activation N) (heap : GcHeap (Object N))
    (constants : List (Constant N)) (token : SourceMapToken Text) : Prop where
  base : activation.stackBeginIndex = 0
  constants : ∃ ptrs, List.Forall₂ (ConstantAt heap ptrs) constants activation.chunk.constants
  token : TokenAt heap token activation.token
  closure : ∃ function, heap.valueAt activation.closure = some (.closure { function })

/-- An operation of the machine, and what it does to the store. -/
def Commutes (vm : VM N) (operation : VmM N Unit) (performs : StoreM N Unit) : Prop :=
  match performs vm.store with
  | .ok _ store => ∃ after, operation vm = .ok () after ∧ after.store = store ∧
      after.callFrames = vm.callFrames ∧
      ∀ ptr object, vm.gcHeap.valueAt ptr = some object → after.gcHeap.valueAt ptr = some object
  | .error (.failed what) store => ∃ after, operation vm = .error (.runtimeError what) after ∧
      after.store.globals = store.globals ∧ after.store.output = store.output
  | .error .outOfFuel _ => False
  | .error .stuck _ => True

theorem commutes_push {datum : Datum N} (same : vm.gcHeap.datum value = datum) :
    Commutes vm (push value) (pushDatum datum) := by
  refine ⟨{ vm with stack := value :: vm.stack }, push_ok.mpr rfl, ?_, rfl, fun _ _ => id⟩
  simp [VM.store, Store.push, VM.globalAt, same]

omit [Number N] in
theorem run_throwAt {what : Text} (there : TokenAt vm.gcHeap token activation.token) :
    ∃ text, errorAt token what = .failed text ∧
      (throwAt activation.token what : VmM N Unit) vm = .error (.runtimeError text) vm := by
  refine ⟨_, rfl, VmM.bind_error.mpr (.inr ⟨_, vm, getString_ok.mpr ⟨rfl, there.1⟩, ?_⟩)⟩
  rw [there.2]
  rfl

/-- An operation that leaves its result on the rest of the stack. -/
def Produces (vm : VM N) (operation : VmM N Unit) (rest : List (Value N)) :
    Except (Stop Text) (Datum N) → Prop
  | .ok datum => ∃ after, operation vm = .ok () after ∧
      after.store = { vm.store with stack := datum :: rest.map vm.gcHeap.datum } ∧
      after.callFrames = vm.callFrames ∧
      ∀ ptr object, vm.gcHeap.valueAt ptr = some object → after.gcHeap.valueAt ptr = some object
  | .error (.failed what) => operation vm = .error (.runtimeError what) vm
  | .error _ => False

section

omit [Number N]

variable {store : Store N} {datum : Datum N} {rest : List (Datum N)}

variable {function : Datum N → Except (Stop Text) (Datum N)}
  {operator : Datum N → Datum N → Except (Stop Text) (Datum N)}

theorem pop_stuck {B : Type} (next : Datum N → StoreM N B) (stack : store.stack = []) :
    ∃ last, (popDatum >>= next) store = .error .stuck last := by
  cases store
  cases stack
  exact ⟨_, rfl⟩

theorem top_stuck {B : Type} (next : Datum N → StoreM N B) (stack : store.stack = []) :
    ∃ last, (topDatum >>= next) store = .error .stuck last := by
  cases store
  cases stack
  exact ⟨_, rfl⟩

theorem run_pop {B : Type} (next : Datum N → StoreM N B) (stack : store.stack = datum :: rest) :
    (popDatum >>= next) store = next datum { store with stack := rest } := by
  cases store
  cases stack
  rfl

theorem run_top {B : Type} (next : Datum N → StoreM N B) (stack : store.stack = datum :: rest) :
    (topDatum >>= next) store = next datum store := by
  cases store
  cases stack
  rfl

variable {index : Nat} {name : Text}

theorem run_getLocal (there : slot? store.stack index = some datum) :
    performGetLocal index store = .ok () (store.push datum) := by
  change (found .stuck (slot? store.stack index) >>= pushDatum) store = _
  rw [there]
  rfl

theorem getLocal_stuck (missing : slot? store.stack index = none) :
    performGetLocal index store = .error .stuck store := by
  change (found .stuck (slot? store.stack index) >>= pushDatum) store = _
  rw [missing]
  rfl

theorem run_setLocal {old : Datum N} (stack : store.stack = datum :: rest)
    (there : slot? store.stack index = some old) : performSetLocal index store =
      .ok () { store with stack := setSlot store.stack index datum } := by
  refine (run_top _ stack).trans ?_
  change (found .stuck (slot? store.stack index) >>= fun _ =>
    modify fun store => { store with stack := setSlot store.stack index datum }) store = _
  rw [there]
  rfl

theorem setLocal_stuck (stack : store.stack = datum :: rest) (missing : slot? store.stack index = none) :
    performSetLocal index store = .error .stuck store := by
  refine (run_top _ stack).trans ?_
  change (found .stuck (slot? store.stack index) >>= fun _ =>
    modify fun store => { store with stack := setSlot store.stack index datum }) store = _
  rw [missing]
  rfl

theorem run_getGlobal (there : store.globals name = some datum) :
    performGetGlobal token name store = .ok () (store.push datum) := by
  change (found (undefinedVariable token name) (store.globals name) >>= pushDatum) store = _
  rw [there]
  rfl

theorem getGlobal_fails (missing : store.globals name = none) :
    performGetGlobal token name store = .error (undefinedVariable token name) store := by
  change (found (undefinedVariable token name) (store.globals name) >>= pushDatum) store = _
  rw [missing]
  rfl

theorem run_defineGlobal (stack : store.stack = datum :: rest) :
    performDefineGlobal name store = .ok () ({ store with stack := rest }.define name datum) :=
  run_pop _ stack

theorem run_setGlobal {old : Datum N} (there : store.globals name = some old)
    (stack : store.stack = datum :: rest) :
    performSetGlobal token name store = .ok () (store.define name datum) := by
  refine (run_top _ stack).trans ?_
  change (found (undefinedVariable token name) (store.globals name) >>= fun _ =>
    modify (Store.define name datum)) store = _
  rw [there]
  rfl

theorem setGlobal_fails (missing : store.globals name = none) (stack : store.stack = datum :: rest) :
    performSetGlobal token name store = .error (undefinedVariable token name) store := by
  refine (run_top _ stack).trans ?_
  change (found (undefinedVariable token name) (store.globals name) >>= fun _ =>
    modify (Store.define name datum)) store = _
  rw [missing]
  rfl

end

theorem commutes_stuck (stuck : ∃ store, performs vm.store = .error .stuck store) :
    Commutes vm operation performs := by
  obtain ⟨store, stuck⟩ := stuck
  simp only [Commutes, stuck]

theorem commutes_result {rest : List (Value N)} {result : Except (Stop Text) (Datum N)}
    (runs : performs vm.store = pushResult result { vm.store with stack := rest.map vm.gcHeap.datum })
    (yields : Produces vm operation rest result) : Commutes vm operation performs := by
  rw [Commutes, runs]
  cases result with
  | ok datum => exact yields
  | error stop =>
      cases stop with
      | failed what => exact ⟨vm, yields, rfl, rfl⟩
      | outOfFuel | stuck => exact yields.elim

/-- What takes one value from the stack. -/
theorem commutes_onTop {function : Datum N → Except (Stop Text) (Datum N)}
    (yields : ∀ value rest, vm.stack = value :: rest →
      Produces vm operation rest (function (vm.gcHeap.datum value))) :
    Commutes vm operation (onTop function) := by
  cases stack : vm.stack with
  | nil => exact commutes_stuck (pop_stuck _ (by simp [VM.store, stack]))
  | cons value rest => exact commutes_result (run_pop _ (by simp [VM.store, stack])) (yields value rest stack)

/-- What takes two values from the stack. -/
theorem commutes_onTopTwo {operator : Datum N → Datum N → Except (Stop Text) (Datum N)}
    (yields : ∀ right left rest, vm.stack = right :: left :: rest →
      Produces vm operation rest (operator (vm.gcHeap.datum left) (vm.gcHeap.datum right))) :
    Commutes vm operation (onTopTwo operator) := by
  cases stack : vm.stack with
  | nil => exact commutes_stuck (pop_stuck _ (by simp [VM.store, stack]))
  | cons right below =>
      have shown : vm.store.stack = vm.gcHeap.datum right :: below.map vm.gcHeap.datum := by
        simp [VM.store, stack]
      have first : onTopTwo operator vm.store = _ := run_pop _ shown
      cases below with
      | nil =>
          have empty : ({ vm.store with stack := [] } : Store N).stack = [] := rfl
          obtain ⟨last, stuck⟩ := pop_stuck (fun left =>
            pushResult (operator left (vm.gcHeap.datum right))) empty
          exact commutes_stuck ⟨last, first.trans stuck⟩
      | cons left rest =>
          exact commutes_result (first.trans (run_pop _ rfl)) (yields right left rest stack)

theorem VM.store_push (vm : VM N) (value : Value N) :
    ({ vm with stack := value :: vm.stack } : VM N).store = vm.store.push (vm.gcHeap.datum value) := rfl

theorem produces_value {result : Value N} {datum : Datum N} {rest : List (Value N)}
    (runs : operation vm = .ok () { vm with stack := result :: rest })
    (shown : vm.gcHeap.datum result = datum) : Produces vm operation rest (.ok datum) :=
  ⟨_, runs, shown ▸ rfl, rfl, fun _ _ => id⟩

theorem produces_error {what : Text} {rest : List (Value N)}
    (there : TokenAt vm.gcHeap token activation.token)
    (runs : operation vm = (throwAt activation.token what : VmM N Unit) vm) :
    Produces vm operation rest (.error (errorAt token what)) := by
  obtain ⟨text, same, throws⟩ := run_throwAt there
  rw [same]
  exact runs.trans throws

theorem produces_not {rest : List (Value N)} (stack : vm.stack = value :: rest) :
    Produces vm not_ rest (.ok (.bool (!(vm.gcHeap.datum value).isTruthy))) := by
  have truthy : (vm.gcHeap.datum value).isTruthy = value.isTruthy := by cases value <;> rfl
  have runs : not_ vm = .ok () { vm with stack := .bool (!value.isTruthy) :: rest } := by
    cases vm
    cases stack
    rfl
  exact produces_value runs (by rw [truthy]; rfl)

theorem produces_negate {rest : List (Value N)} (there : TokenAt vm.gcHeap token activation.token)
    (stack : vm.stack = value :: rest) :
    Produces vm (negate activation.token) rest ((vm.gcHeap.datum value).negate token) := by
  obtain ⟨gcHeap, internedStrings, laterStack, callFrames, globals, output, nMade, nClock⟩ := vm
  cases stack
  cases value with
  | number value =>
      have runs : negate activation.token (VM.mk gcHeap internedStrings (.number value :: rest) callFrames
          globals output nMade nClock) = .ok () (VM.mk gcHeap internedStrings
            (.number (Number.negate value) :: rest) callFrames globals output nMade nClock) := rfl
      exact produces_value runs rfl
  | _ => exact produces_error there rfl

theorem produces_numbers {operation : N → N → Value N} {shown : N → N → Datum N} {left right : Value N}
    {rest : List (Value N)}
    (same : ∀ one two (heap : GcHeap (Object N)), heap.datum (operation one two) = shown one two)
    (there : TokenAt vm.gcHeap token activation.token) (stack : vm.stack = right :: left :: rest) :
    Produces vm (binaryNumbers operation activation.token) rest
      ((vm.gcHeap.datum left).numbers token shown (vm.gcHeap.datum right)) := by
  obtain ⟨gcHeap, internedStrings, laterStack, callFrames, globals, output, nMade, nClock⟩ := vm
  cases stack
  cases left with
  | number one =>
      cases right with
      | number two =>
          have runs : binaryNumbers operation activation.token (VM.mk gcHeap internedStrings
              (.number two :: .number one :: rest) callFrames globals output nMade nClock) =
              .ok () (VM.mk gcHeap internedStrings (operation one two :: rest) callFrames globals
                output nMade nClock) := rfl
          exact produces_value runs (same one two gcHeap)
      | _ => exact produces_error there rfl
  | _ => exact produces_error there rfl

theorem produces_equal {left right : Value N} {rest : List (Value N)} (interned : vm.Interned)
    (typed : vm.Typed) (stack : vm.stack = right :: left :: rest) :
    Produces vm equal rest (.ok (.bool ((vm.gcHeap.datum left).equal (vm.gcHeap.datum right)))) := by
  have two := typed.stack right (by simp [stack])
  have one := typed.stack left (by simp [stack])
  rw [datum_equal interned one two]
  have runs : equal vm = .ok () { vm with stack := .bool (left.equal right) :: rest } := by
    cases vm
    cases stack
    rfl
  exact produces_value runs rfl

theorem produces_add {left right : Value N} {rest : List (Value N)} (interned : vm.Interned)
    (typed : vm.Typed) (there : TokenAt vm.gcHeap token activation.token)
    (stack : vm.stack = right :: left :: rest) :
    Produces vm (add platform activation.token) rest
      ((vm.gcHeap.datum left).add token (vm.gcHeap.datum right)) := by
  have two := typed.stack right (by simp [stack])
  have one := typed.stack left (by simp [stack])
  cases left with
  | number laterOne =>
      cases right with
      | number laterTwo =>
          have runs : add platform activation.token vm =
              .ok () { vm with stack := .number (Number.add laterOne laterTwo) :: rest } := by
            cases vm
            cases stack
            rfl
          exact produces_value runs rfl
      | _ => exact produces_error there (by cases vm; cases stack; rfl)
  | string laterOne =>
      cases right with
      | string laterTwo =>
          obtain ⟨first, held⟩ := GcHeap.HasKind.found one
          obtain ⟨second, laterHeld⟩ := GcHeap.HasKind.found two
          have below : ({ vm with stack := rest } : VM N).Interned :=
            ⟨interned.ready, interned.waiting, interned.tables⟩
          have laterTyped : ({ vm with stack := rest } : VM N).Typed :=
            typed.withStack fun value member => .inl (by simp [stack, member])
          obtain ⟨ptr, made, interns, -⟩ := below.intern platform (first ++ second)
          have runs : add platform activation.token vm =
              .ok () { made with stack := .string ptr :: made.stack } :=
            VmM.bind_ok.mpr ⟨.string laterTwo, vm, peek_ok.mpr ⟨rfl, by simp [stack]⟩,
              VmM.bind_ok.mpr ⟨.string laterOne, vm, peek_ok.mpr ⟨rfl, by simp [stack]⟩,
                VmM.bind_ok.mpr ⟨first, vm, getString_ok.mpr ⟨rfl, held⟩,
                  VmM.bind_ok.mpr ⟨second, vm, getString_ok.mpr ⟨rfl, laterHeld⟩,
                    VmM.bind_ok.mpr ⟨(), _, erase_ok.mpr ⟨by simp [stack], by simp [stack]⟩,
                      VmM.bind_ok.mpr ⟨ptr, made, interns, push_ok.mpr rfl⟩⟩⟩⟩⟩⟩
          obtain ⟨same, _, frames, shown, retains⟩ := intern_store below laterTyped interns
          simp only [GcHeap.datum, textOf_string held, textOf_string laterHeld, Datum.add]
          refine ⟨_, runs, ?_, frames, retains⟩
          rw [VM.store_push, same, shown]
          rfl
      | _ => exact produces_error there (by cases vm; cases stack; rfl)
  | _ => exact produces_error there (by cases vm; cases stack; rfl)

theorem commutes_pop : Commutes vm (erase 1) (do let _ ← popDatum) := by
  cases stack : vm.stack with
  | nil => exact commutes_stuck (pop_stuck _ (by simp [VM.store, stack]))
  | cons value rest =>
      have shown : vm.store.stack = vm.gcHeap.datum value :: rest.map vm.gcHeap.datum := by
        simp [VM.store, stack]
      rw [Commutes, run_pop _ shown]
      exact ⟨{ vm with stack := rest }, erase_ok.mpr ⟨by simp [stack], by simp [stack]⟩, rfl, rfl,
        fun _ _ => id⟩

/-- No upvalue of the outermost activation is open. -/
theorem commutes_closeUpvalue {function : Ptr}
    (live : vm.gcHeap.valueAt activation.closure = some (.closure { function })) :
    Commutes vm (closeUpvalueInstr activation) (do let _ ← popDatum) := by
  have same : closeUpvalueInstr activation vm = erase 1 vm := by
    change EStateM.bind (getClosure activation.closure) _ vm = _
    rw [EStateM.bind, getClosure_ok.mpr ⟨rfl, live⟩]
    rfl
  have pops : Commutes vm (erase 1) (do let _ ← popDatum) := commutes_pop
  rw [Commutes] at pops ⊢
  rwa [same]

theorem datum_text (typed : vm.Typed) (there : value.Typed vm.gcHeap) :
    valueText value vm = .ok (vm.gcHeap.datum value).text vm := by
  have same : (vm.gcHeap.datum value).text = vm.gcHeap.textOf value := by
    cases value with
    | bool value => cases value <;> rfl
    | _ => rfl
  rw [same]
  exact valueText_run typed.heap there

theorem commutes_print (typed : vm.Typed) : Commutes vm print performPrint := by
  cases stack : vm.stack with
  | nil => exact commutes_stuck (pop_stuck _ (by simp [VM.store, stack]))
  | cons value rest =>
      have shown : vm.store.stack = vm.gcHeap.datum value :: rest.map vm.gcHeap.datum := by
        simp [VM.store, stack]
      have text := datum_text typed (typed.stack value (by simp [stack]))
      have runs : print vm = .ok () { vm with
          stack := rest, output := vm.output ++ [(vm.gcHeap.datum value).text] } :=
        VmM.bind_ok.mpr ⟨value, vm, peek_ok.mpr ⟨rfl, by simp [stack]⟩,
          VmM.bind_ok.mpr ⟨_, vm, text, VmM.bind_ok.mpr ⟨(), _, VmM.modify_ok.mpr rfl,
            erase_ok.mpr ⟨by simp [stack], by simp [stack]⟩⟩⟩⟩
      have does : performPrint vm.store = _ := run_pop _ shown
      rw [Commutes, does]
      exact ⟨_, runs, rfl, rfl, fun _ _ => id⟩

theorem store_slot (vm : VM N) (index : Nat) :
    slot? vm.store.stack index = (slot? vm.stack index).map vm.gcHeap.datum :=
  slot?_map vm.gcHeap.datum vm.stack index

theorem commutes_getLocal (index : Nat) : Commutes vm (getLocal index) (performGetLocal index) := by
  have shown := store_slot vm index
  cases there : slot? vm.stack index with
  | none => exact commutes_stuck ⟨_, getLocal_stuck (by rw [shown, there]; rfl)⟩
  | some value =>
      have runs : getLocal index vm = .ok () { vm with stack := value :: vm.stack } :=
        VmM.bind_ok.mpr ⟨vm, vm, rfl, by rw [there]; exact push_ok.mpr rfl⟩
      have does : performGetLocal index vm.store = _ := run_getLocal (by rw [shown, there]; rfl)
      rw [Commutes, does]
      exact ⟨_, runs, rfl, rfl, fun _ _ => id⟩

theorem commutes_setLocal (index : Nat) : Commutes vm (setLocal index) (performSetLocal index) := by
  have shown := store_slot vm index
  cases stack : vm.stack with
  | nil => exact commutes_stuck (top_stuck _ (by simp [VM.store, stack]))
  | cons value rest =>
      have top : vm.store.stack = vm.gcHeap.datum value :: rest.map vm.gcHeap.datum := by
        simp [VM.store, stack]
      cases there : slot? vm.stack index with
      | none => exact commutes_stuck ⟨_, setLocal_stuck top (by rw [shown, there]; rfl)⟩
      | some old =>
          have runs : setLocal index vm = .ok () { vm with stack := setSlot vm.stack index value } := by
            refine VmM.bind_ok.mpr ⟨vm, vm, rfl, VmM.bind_ok.mpr ⟨value, vm,
              peek_ok.mpr ⟨rfl, by simp [stack]⟩, ?_⟩⟩
            rw [if_pos (slot?_lt there)]
            rfl
          have does : performSetLocal index vm.store = _ := run_setLocal top (by rw [shown, there]; rfl)
          rw [Commutes, does]
          refine ⟨_, runs, ?_, rfl, fun _ _ => id⟩
          simp [VM.store, VM.globalAt, setSlot_map]

section

variable {name : Text} {ptr : Ptr}

theorem store_global (interned : vm.Interned) (holds : vm.Holds ptr name) :
    vm.store.globals name = (lookup vm.globals ptr).map vm.gcHeap.datum := by
  simp [VM.store, VM.globalAt, (interned.tables.byChars name ptr).mpr holds]

theorem store_assign (interned : vm.Interned) (holds : vm.Holds ptr name) (value : Value N) :
    ({ vm with globals := assign vm.globals ptr value } : VM N).store =
      vm.store.define name (vm.gcHeap.datum value) := by
  refine Store.ext rfl (funext fun other => ?_) rfl
  simp only [VM.store, VM.globalAt, Store.define, Function.update_apply]
  split
  next same => simp [same, (interned.tables.byChars name ptr).mpr holds, lookup_assign]
  next different =>
      cases known : lookup vm.internedStrings.stringsByChars other with
      | none => rfl
      | some key =>
          have apart : key ≠ ptr := by
            rintro rfl
            have held : vm.Holds key other := (interned.tables.byChars other key).mp known
            rw [VM.Holds, holds] at held
            cases held
            exact different rfl
          simp [lookup_assign, apart]

omit [Number N] in
theorem run_throwUndefined (there : TokenAt vm.gcHeap token activation.token) (holds : vm.Holds ptr name) :
    ∃ text, undefinedVariable token name = .failed text ∧
      (throwUndefined activation.token "variable".toList ptr : VmM N Unit) vm =
        .error (.runtimeError text) vm := by
  refine ⟨_, rfl, VmM.bind_error.mpr (.inr ⟨_, vm, getString_ok.mpr ⟨rfl, holds⟩, ?_⟩)⟩
  rw [there.2]
  rfl

theorem commutes_getGlobal (interned : vm.Interned) (there : TokenAt vm.gcHeap token activation.token)
    (holds : vm.Holds ptr name) :
    Commutes vm (getGlobal activation.token ptr) (performGetGlobal token name) := by
  have shown := store_global interned holds
  cases known : lookup vm.globals ptr with
  | none =>
      obtain ⟨text, same, throws⟩ := run_throwUndefined there holds
      have undefined : vm.store.globals name = none := by rw [shown, known]; rfl
      have does : performGetGlobal token name vm.store = _ := getGlobal_fails undefined
      rw [same] at does
      have runs : getGlobal activation.token ptr vm = .error (.runtimeError text) vm :=
        VmM.bind_error.mpr (.inr ⟨vm, vm, rfl, by rw [known]; exact throws⟩)
      rw [Commutes, does]
      exact ⟨vm, runs, rfl, rfl⟩
  | some value =>
      have does : performGetGlobal token name vm.store = _ := run_getGlobal (by rw [shown, known]; rfl)
      have runs : getGlobal activation.token ptr vm = .ok () { vm with stack := value :: vm.stack } :=
        VmM.bind_ok.mpr ⟨vm, vm, rfl, by rw [known]; exact push_ok.mpr rfl⟩
      rw [Commutes, does]
      exact ⟨_, runs, rfl, rfl, fun _ _ => id⟩

theorem commutes_defineGlobal (interned : vm.Interned) (holds : vm.Holds ptr name) :
    Commutes vm (defineGlobal ptr) (performDefineGlobal name) := by
  cases stack : vm.stack with
  | nil => exact commutes_stuck (pop_stuck _ (by simp [VM.store, stack]))
  | cons value rest =>
      have top : vm.store.stack = vm.gcHeap.datum value :: rest.map vm.gcHeap.datum := by
        simp [VM.store, stack]
      have runs : defineGlobal ptr vm =
          .ok () { vm with stack := rest, globals := assign vm.globals ptr value } :=
        VmM.bind_ok.mpr ⟨value, vm, peek_ok.mpr ⟨rfl, by simp [stack]⟩,
          VmM.bind_ok.mpr ⟨(), _, VmM.modify_ok.mpr rfl,
            erase_ok.mpr ⟨by simp [stack], by simp [stack]⟩⟩⟩
      have does : performDefineGlobal name vm.store = _ := run_defineGlobal top
      have below : ({ vm with stack := rest } : VM N).Interned :=
        ⟨interned.ready, interned.waiting, interned.tables⟩
      rw [Commutes, does]
      exact ⟨_, runs, store_assign below holds value, rfl, fun _ _ => id⟩

theorem commutes_setGlobal (interned : vm.Interned) (there : TokenAt vm.gcHeap token activation.token)
    (holds : vm.Holds ptr name) :
    Commutes vm (setGlobal activation.token ptr) (performSetGlobal token name) := by
  have shown := store_global interned holds
  cases stack : vm.stack with
  | nil => exact commutes_stuck (top_stuck _ (by simp [VM.store, stack]))
  | cons value rest =>
      have top : vm.store.stack = vm.gcHeap.datum value :: rest.map vm.gcHeap.datum := by
        simp [VM.store, stack]
      cases known : lookup vm.globals ptr with
      | none =>
          obtain ⟨text, same, throws⟩ := run_throwUndefined there holds
          have undefined : vm.store.globals name = none := by rw [shown, known]; rfl
          have does : performSetGlobal token name vm.store = _ := setGlobal_fails undefined top
          rw [same] at does
          have runs : setGlobal activation.token ptr vm = .error (.runtimeError text) vm :=
            VmM.bind_error.mpr (.inr ⟨vm, vm, rfl, by rw [known]; exact throws⟩)
          rw [Commutes, does]
          exact ⟨vm, runs, rfl, rfl⟩
      | some old =>
          have defined : vm.store.globals name = some (vm.gcHeap.datum old) := by
            rw [shown, known]
            rfl
          have runs : setGlobal activation.token ptr vm =
              .ok () { vm with globals := assign vm.globals ptr value } :=
            VmM.bind_ok.mpr ⟨vm, vm, rfl, by
              rw [known]
              exact VmM.bind_ok.mpr ⟨value, vm, peek_ok.mpr ⟨rfl, by simp [stack]⟩,
                VmM.modify_ok.mpr rfl⟩⟩
          have does : performSetGlobal token name vm.store = _ := run_setGlobal defined top
          rw [Commutes, does]
          exact ⟨_, runs, store_assign interned holds value, rfl, fun _ _ => id⟩

end

theorem commutes_executeSimple (typed : vm.Typed) (interned : vm.Interned)
    (outermost : activation.Outermost vm.gcHeap constants token) (opcode : Opcode) :
    Commutes vm (executeSimple platform activation opcode) (performSimple token opcode) := by
  obtain ⟨function, live⟩ := outermost.closure
  have there := outermost.token
  cases opcode with
  | nil => exact commutes_push rfl
  | true_ => exact commutes_push rfl
  | false_ => exact commutes_push rfl
  | pop => exact commutes_pop
  | equal => exact commutes_onTopTwo fun _ _ _ stack => produces_equal interned typed stack
  | add => exact commutes_onTopTwo fun _ _ _ stack => produces_add interned typed there stack
  | greater | less | subtract | multiply | divide =>
      exact commutes_onTopTwo fun _ _ _ stack => produces_numbers (fun _ _ _ => rfl) there stack
  | not_ => exact commutes_onTop fun _ _ stack => produces_not stack
  | negate => exact commutes_onTop fun _ _ stack => produces_negate there stack
  | print => exact commutes_print typed
  | closeUpvalue => exact commutes_closeUpvalue live
  | _ => exact commutes_stuck ⟨_, rfl⟩

omit [Number N] in
/-- A name among the constants. -/
theorem Activation.Outermost.nameAt {index : Nat} {name : Text}
    (outermost : activation.Outermost vm.gcHeap constants token)
    (named : constants[index]? = some (.string name)) :
    ∃ ptr, vm.Holds ptr name ∧ activation.chunk.constants[index]? = some (.string ptr) := by
  obtain ⟨ptrs, matched⟩ := outermost.constants
  obtain ⟨value, there, here⟩ := matched_left matched named
  cases here with
  | string held => exact ⟨_, held, there⟩

theorem Commutes.congr {other : VmM N Unit} (commutes : Commutes vm operation performs)
    (same : other vm = operation vm) : Commutes vm other performs := by
  rw [Commutes] at commutes ⊢
  rwa [same]

omit [Number N] in
theorem nameAt_bind {chunk : Chunk (Value N) Ptr} {index : Nat} {ptr : Ptr} (next : Ptr → VmM N Unit)
    (there : chunk.constants[index]? = some (.string ptr)) :
    (nameAt chunk index >>= next) vm = next ptr vm := by
  have reads : nameAt chunk index vm = .ok ptr vm := nameAt_ok.mpr ⟨rfl, there⟩
  change EStateM.bind (nameAt chunk index) next vm = _
  rw [EStateM.bind, reads]

omit [Number N] in
theorem constantAt_bind {chunk : Chunk (Value N) Ptr} {index : Nat} (next : Value N → VmM N Unit)
    (there : chunk.constants[index]? = some value) :
    (constantAt chunk index >>= next) vm = next value vm := by
  have reads : constantAt chunk index vm = .ok value vm := constantAt_ok.mpr ⟨rfl, there⟩
  change EStateM.bind (constantAt chunk index) next vm = _
  rw [EStateM.bind, reads]

theorem commutes_constant (outermost : activation.Outermost vm.gcHeap constants token) (index : Nat) :
    Commutes vm (do push (← constantAt activation.chunk index))
      (do pushDatum (← constantDatum constants[index]?)) := by
  obtain ⟨ptrs, matched⟩ := outermost.constants
  cases known : constants[index]? with
  | none => exact commutes_stuck ⟨_, rfl⟩
  | some constant =>
      obtain ⟨value, there, here⟩ := matched_left matched known
      cases here with
      | @number number =>
          have pushes : Commutes vm (push (.number number)) (pushDatum (.number number)) := commutes_push rfl
          exact pushes.congr (constantAt_bind _ there)
      | @string chars ptr held =>
          have pushes : Commutes vm (push (.string ptr)) (pushDatum (.string chars)) :=
            commutes_push (congrArg Datum.string (textOf_string held))
          exact pushes.congr (constantAt_bind _ there)
      | function => exact commutes_stuck ⟨_, rfl⟩

/-- What is done to a name. -/
theorem commutes_name {index : Nat} {next : Ptr → VmM N Unit} {does : Text → StoreM N Unit}
    (outermost : activation.Outermost vm.gcHeap constants token)
    (commutes : ∀ name ptr, vm.Holds ptr name → Commutes vm (next ptr) (does name)) :
    Commutes vm (do next (← nameAt activation.chunk index))
      (do does (← constantName constants[index]?)) := by
  cases known : constants[index]? with
  | none => exact commutes_stuck ⟨_, rfl⟩
  | some constant =>
      cases constant with
      | string name =>
          obtain ⟨ptr, holds, there⟩ := outermost.nameAt known
          exact (commutes name ptr holds).congr (nameAt_bind next there)
      | number | function => exact commutes_stuck ⟨_, rfl⟩

theorem commutes_executeOperand (interned : vm.Interned)
    (outermost : activation.Outermost vm.gcHeap constants token) (index : Nat) (opcode : Opcode) :
    Commutes vm (executeOperand platform activation index opcode)
      (performOperand constants token index opcode) := by
  have here : activation.stackBeginIndex + index = index := by rw [outermost.base, Nat.zero_add]
  have there := outermost.token
  cases opcode with
  | constant => exact commutes_constant outermost index
  | getLocal =>
      simp only [executeOperand, here]
      exact commutes_getLocal index
  | setLocal =>
      simp only [executeOperand, here]
      exact commutes_setLocal index
  | getGlobal => exact commutes_name outermost fun _ _ holds => commutes_getGlobal interned there holds
  | defineGlobal => exact commutes_name outermost fun _ _ holds => commutes_defineGlobal interned holds
  | setGlobal => exact commutes_name outermost fun _ _ holds => commutes_setGlobal interned there holds
  | _ => exact commutes_stuck ⟨_, rfl⟩

theorem commutes_execute (typed : vm.Typed) (interned : vm.Interned)
    (outermost : activation.Outermost vm.gcHeap constants token) (instr : Instr) :
    Commutes vm (execute platform activation instr) (perform constants token instr) := by
  cases instr with
  | simple opcode => exact commutes_executeSimple typed interned outermost opcode
  | operand opcode index => exact commutes_executeOperand interned outermost index opcode
  | _ => exact commutes_stuck ⟨_, rfl⟩

end Cpplox
