import Cpplox.Integers
import Cpplox.Vm.Interning
import Mathlib.Algebra.Order.BigOperators.Group.List
import Mathlib.Algebra.Order.Group.Nat

namespace Cpplox

open Data

/-! Every operation of the machine is an interleaving of `get`, allocations, writes and
collections, whether it returns or throws. -/

variable {N A B : Type} {platform : Platform N} {vm after : VM N} {ptr : Ptr}

def ReadOnly (operation : VmM N A) : Prop := ∀ vm, final operation vm = vm

namespace ReadOnly

theorem bind {first : VmM N A} {rest : A → VmM N B} (one : ReadOnly first)
    (two : ∀ value, ReadOnly (rest value)) : ReadOnly (first >>= rest) := by
  intro vm
  rcases final_bind first rest vm with same | ⟨value, -, same⟩
  · rw [same, one vm]
  · rw [same, one vm, two value vm]

theorem pure (value : A) : ReadOnly (Pure.pure value : VmM N A) := fun _ => rfl

theorem throw (error : VmError) : ReadOnly (MonadExcept.throw error : VmM N A) := fun _ => rfl

theorem get : ReadOnly (MonadState.get : VmM N (VM N)) := fun _ => rfl

theorem ok {operation : VmM N A} {value : A} (reads : ReadOnly operation)
    (runs : operation vm = .ok value after) : after = vm :=
  (final_ok runs).symm.trans (reads vm)

end ReadOnly

theorem reads_getObject (ptr : Ptr) : ReadOnly (getObject ptr : VmM N (Object N)) := by
  refine ReadOnly.get.bind fun vm => ?_
  split
  · exact .pure _
  · exact .throw _

theorem reads_getBoundMethod (ptr : Ptr) : ReadOnly (getBoundMethod ptr : VmM N BoundMethod) := by
  refine (reads_getObject ptr).bind fun object => ?_
  cases object <;> first | exact .pure _ | exact .throw _

theorem reads_getClass (ptr : Ptr) : ReadOnly (getClass ptr : VmM N Class) := by
  refine (reads_getObject ptr).bind fun object => ?_
  cases object <;> first | exact .pure _ | exact .throw _

theorem reads_getClosure (ptr : Ptr) : ReadOnly (getClosure ptr : VmM N Closure) := by
  refine (reads_getObject ptr).bind fun object => ?_
  cases object <;> first | exact .pure _ | exact .throw _

theorem reads_getFunction (ptr : Ptr) : ReadOnly (getFunction ptr : VmM N (HeapFunction N)) := by
  refine (reads_getObject ptr).bind fun object => ?_
  cases object <;> first | exact .pure _ | exact .throw _

theorem reads_getInstance (ptr : Ptr) : ReadOnly (getInstance ptr : VmM N (Instance N)) := by
  refine (reads_getObject ptr).bind fun object => ?_
  cases object <;> first | exact .pure _ | exact .throw _

theorem reads_getString (ptr : Ptr) : ReadOnly (getString ptr : VmM N Text) := by
  refine (reads_getObject ptr).bind fun object => ?_
  cases object <;> first | exact .pure _ | exact .throw _

theorem reads_getNativeFn (ptr : Ptr) : ReadOnly (getNativeFn ptr : VmM N Unit) := by
  refine (reads_getObject ptr).bind fun object => ?_
  cases object <;> first | exact .pure _ | exact .throw _

theorem reads_getUpvalue (ptr : Ptr) : ReadOnly (getUpvalue ptr : VmM N (Upvalue N)) := by
  refine (reads_getObject ptr).bind fun object => ?_
  cases object <;> first | exact .pure _ | exact .throw _

theorem reads_peek (depth : Nat) : ReadOnly (peek depth : VmM N (Value N)) := by
  refine ReadOnly.get.bind fun vm => ?_
  split
  · exact .pure _
  · exact .throw _

theorem reads_stackIndex (ptr : Ptr) : ReadOnly (stackIndex ptr : VmM N Nat) := by
  refine (reads_getUpvalue ptr).bind fun upvalue => ?_
  cases upvalue
  · exact .pure _
  · exact .throw _

theorem reads_upvalueValue (ptr : Ptr) : ReadOnly (upvalueValue ptr : VmM N (Value N)) := by
  refine (reads_getUpvalue ptr).bind fun upvalue => ReadOnly.get.bind fun vm => ?_
  split
  · exact .pure _
  · exact .throw _

theorem reads_constantAt (chunk : Chunk (Value N) Ptr) (index : Nat) :
    ReadOnly (constantAt chunk index) := by
  unfold constantAt
  split
  · exact .pure _
  · exact .throw _

theorem reads_nameAt (chunk : Chunk (Value N) Ptr) (index : Nat) : ReadOnly (nameAt chunk index) := by
  refine (reads_constantAt chunk index).bind fun value => ?_
  cases value <;> first | exact .pure _ | exact .throw _

theorem reads_functionAt (chunk : Chunk (Value N) Ptr) (index : Nat) :
    ReadOnly (functionAt chunk index) := by
  refine (reads_constantAt chunk index).bind fun value => ?_
  cases value <;> first | exact .pure _ | exact .throw _

theorem reads_throwAt (token : SourceMapToken Ptr) (what : Text) :
    ReadOnly (throwAt token what : VmM N A) :=
  (reads_getString _).bind fun _ => .throw _

theorem reads_throwUndefined (token : SourceMapToken Ptr) (kind : Text) (name : Ptr) :
    ReadOnly (throwUndefined token kind name : VmM N A) :=
  (reads_getString _).bind fun _ => .throw _

theorem reads_functionText (function : HeapFunction N) : ReadOnly (functionText function) :=
  (reads_getString _).bind fun _ => .pure _

theorem reads_closureText (ptr : Ptr) : ReadOnly (closureText ptr : VmM N Text) :=
  (reads_getClosure ptr).bind fun _ => (reads_getFunction _).bind reads_functionText

theorem reads_valueText [Number N] (value : Value N) : ReadOnly (valueText value) := by
  unfold valueText
  split
  case h_5 => exact (reads_getBoundMethod _).bind fun _ => reads_closureText _
  case h_6 => exact (reads_getClass _).bind fun _ => (reads_getString _).bind fun _ => .pure _
  case h_7 => exact reads_closureText _
  case h_8 => exact (reads_getFunction _).bind reads_functionText
  case h_9 =>
      exact (reads_getInstance _).bind fun _ => (reads_getClass _).bind fun _ =>
        (reads_getString _).bind fun _ => .pure _
  case h_11 => exact reads_getString _
  all_goals exact .pure _

theorem reads_arityOf (closure : Ptr) : ReadOnly (arityOf closure : VmM N Nat) :=
  (reads_getClosure _).bind fun _ => (reads_getFunction _).bind fun _ => .pure _

theorem reads_upvalueAt (closure : Ptr) (index : Nat) : ReadOnly (upvalueAt closure index : VmM N Ptr) := by
  refine (reads_getClosure _).bind fun made => ?_
  split
  · exact .pure _
  · exact .throw _

theorem reads_findOpenUpvalue (index : Nat) (upvalues : List Ptr) :
    ReadOnly (findOpenUpvalue index upvalues : VmM N (Option Ptr)) := by
  induction upvalues with
  | nil => exact .pure _
  | cons upvalue rest ih =>
      refine (reads_stackIndex upvalue).bind fun found => ?_
      split
      · exact .pure _
      · exact ih

theorem reads_insertOpenUpvalue (index : Nat) (new : Ptr) (upvalues : List Ptr) :
    ReadOnly (insertOpenUpvalue index new upvalues : VmM N (List Ptr)) := by
  induction upvalues with
  | nil => exact .pure _
  | cons upvalue rest ih =>
      refine (reads_stackIndex upvalue).bind fun found => ?_
      split
      · exact .pure _
      · exact ih.bind fun _ => .pure _

theorem reads_unexpectedOpcode (token : SourceMapToken Ptr) (byte : Nat) :
    ReadOnly (unexpectedOpcode token byte : VmM N Unit) := by
  have text : ReadOnly (opcodeText byte : VmM N Text) := by
    unfold opcodeText
    split <;> first | exact .pure _ | exact .throw _
  exact text.bind fun _ => (reads_getString _).bind fun _ => .throw _

/-- The operation is an interleaving at this state. -/
def Follows (platform : Platform N) (operation : VmM N A) (vm : VM N) : Prop :=
  Evolves platform vm (final operation vm)

theorem ReadOnly.follows {operation : VmM N A} (reads : ReadOnly operation) :
    Follows platform operation vm := by
  rw [Follows, reads vm]

namespace Follows

theorem bind {first : VmM N A} {rest : A → VmM N B} (one : Follows platform first vm)
    (two : ∀ value after, first vm = .ok value after → Follows platform (rest value) after) :
    Follows platform (first >>= rest) vm := by
  rcases final_bind first rest vm with same | ⟨value, runs, same⟩
  · rw [Follows, same]
    exact one
  · rw [Follows, same]
    exact one.trans (two value _ runs)

/-- The state is still the same after a read. -/
theorem bind_reads {first : VmM N A} {rest : A → VmM N B} (one : ReadOnly first)
    (two : ∀ value, first vm = .ok value vm → Follows platform (rest value) vm) :
    Follows platform (first >>= rest) vm := by
  refine one.follows.bind fun value after runs => ?_
  obtain rfl := one.ok runs
  exact two value runs

theorem elsewhere {operation : VmM N A} (heap : (final operation vm).gcHeap = vm.gcHeap)
    (strings : (final operation vm).internedStrings = vm.internedStrings) :
    Follows platform operation vm :=
  .single (.elsewhere heap strings)

theorem modify {change : VM N → VM N} (heap : (change vm).gcHeap = vm.gcHeap)
    (strings : (change vm).internedStrings = vm.internedStrings) :
    Follows platform (modify change) vm :=
  elsewhere heap strings

theorem set {laterVm : VM N} (heap : laterVm.gcHeap = vm.gcHeap)
    (strings : laterVm.internedStrings = vm.internedStrings) : Follows platform (set laterVm) vm :=
  elsewhere heap strings

theorem get (chars : Text) : Follows platform (intern platform chars) vm := .single (.get vm chars)

theorem make {object : Object N} (other : object.kind ≠ .string) :
    Follows platform (make platform object) vm := .single (.make vm other)

theorem write {old object : Object N} (found : vm.gcHeap.valueAt ptr = some old)
    (same : object.kind = old.kind) (other : old.kind ≠ .string) :
    Follows platform (setObject ptr object) vm := .single (.write found same other)

end Follows

theorem follows_push (value : Value N) : Follows platform (push value) vm := .modify rfl rfl

theorem follows_replace (depth : Nat) (value : Value N) :
    Follows platform (replace depth value) vm := .modify rfl rfl

theorem follows_erase (count : Nat) : Follows platform (erase count) vm := by
  refine .bind_reads .get fun laterVm read => ?_
  obtain ⟨rfl, -⟩ := VmM.get_ok.mp read
  split
  · exact .set rfl rfl
  · exact (ReadOnly.throw _).follows

theorem follows_setUpvalueValue (value : Value N) :
    Follows platform (setUpvalueValue ptr value) vm := by
  refine .bind_reads (reads_getUpvalue ptr) fun upvalue found => ?_
  obtain ⟨-, found⟩ := getUpvalue_ok.mp found
  cases upvalue with
  | closed _ => exact .write found rfl nofun
  | open_ index =>
      refine .bind_reads .get fun laterVm read => ?_
      obtain ⟨rfl, -⟩ := VmM.get_ok.mp read
      split
      · exact .set rfl rfl
      · exact (ReadOnly.throw _).follows

theorem upvalueValue_found {value : Value N} (runs : upvalueValue ptr vm = .ok value after) :
    ∃ upvalue, vm.gcHeap.valueAt ptr = some (.upvalue upvalue) := by
  obtain ⟨upvalue, middle, found, -⟩ := VmM.bind_ok.mp runs
  exact ⟨upvalue, (getUpvalue_ok.mp found).2⟩

theorem follows_closeUpvalue : Follows platform (closeUpvalue ptr) vm := by
  refine .bind_reads (reads_upvalueValue ptr) fun value runs => ?_
  obtain ⟨upvalue, found⟩ := upvalueValue_found runs
  exact .write found rfl nofun

theorem follows_binaryNumbers (operation : N → N → Value N) (token : SourceMapToken Ptr) :
    Follows platform (binaryNumbers operation token) vm := by
  refine .bind_reads (reads_peek 0) fun rhs _ => .bind_reads (reads_peek 1) fun lhs _ => ?_
  split
  · exact (follows_erase 2).bind fun _ _ _ => follows_push _
  · exact (reads_throwAt _ _).follows

theorem follows_add [Number N] (token : SourceMapToken Ptr) :
    Follows platform (add platform token) vm := by
  refine .bind_reads (reads_peek 0) fun rhs _ => .bind_reads (reads_peek 1) fun lhs _ => ?_
  split
  · exact (follows_erase 2).bind fun _ _ _ => follows_push _
  · refine .bind_reads (reads_getString _) fun _ _ => .bind_reads (reads_getString _) fun _ _ => ?_
    exact (follows_erase 2).bind fun _ _ _ => .bind (.get _) fun _ _ _ => follows_push _
  · exact (reads_throwAt _ _).follows

theorem follows_equal [Number N] : Follows platform equal vm :=
  .bind_reads (reads_peek 0) fun _ _ => .bind_reads (reads_peek 1) fun _ _ =>
    (follows_erase 2).bind fun _ _ _ => follows_push _

theorem follows_negate [Number N] (token : SourceMapToken Ptr) :
    Follows platform (negate token) vm := by
  refine .bind_reads (reads_peek 0) fun value _ => ?_
  split
  · exact (follows_erase 1).bind fun _ _ _ => follows_push _
  · exact (reads_throwAt _ _).follows

theorem follows_not : Follows platform not_ vm :=
  .bind_reads (reads_peek 0) fun _ _ => (follows_erase 1).bind fun _ _ _ => follows_push _

theorem follows_print [Number N] : Follows platform print vm :=
  .bind_reads (reads_peek 0) fun _ _ => .bind_reads (reads_valueText _) fun _ _ =>
    Follows.bind (.modify rfl rfl) fun _ _ _ => follows_erase 1

theorem follows_defineGlobal (name : Ptr) : Follows platform (defineGlobal name) vm :=
  .bind_reads (reads_peek 0) fun _ _ =>
    Follows.bind (.modify rfl rfl) fun _ _ _ => follows_erase 1

theorem follows_getGlobal (token : SourceMapToken Ptr) (name : Ptr) :
    Follows platform (getGlobal token name) vm := by
  refine .bind_reads .get fun _ _ => ?_
  split
  · exact follows_push _
  · exact (reads_throwUndefined _ _ _).follows

theorem follows_setGlobal (token : SourceMapToken Ptr) (name : Ptr) :
    Follows platform (setGlobal token name) vm := by
  refine .bind_reads .get fun _ _ => ?_
  split
  · exact .bind_reads (reads_peek 0) fun _ _ => .modify rfl rfl
  · exact (reads_throwUndefined _ _ _).follows

theorem follows_getLocal (index : Nat) : Follows platform (getLocal index) vm := by
  refine .bind_reads .get fun _ _ => ?_
  split
  · exact follows_push _
  · exact (ReadOnly.throw _).follows

theorem follows_setLocal (index : Nat) : Follows platform (setLocal index) vm := by
  refine .bind_reads .get fun laterVm read => .bind_reads (reads_peek 0) fun _ _ => ?_
  obtain ⟨rfl, -⟩ := VmM.get_ok.mp read
  split
  · exact .set rfl rfl
  · exact (ReadOnly.throw _).follows

theorem follows_getProperty (token : SourceMapToken Ptr) (name : Ptr) :
    Follows platform (getProperty platform token name) vm := by
  refine .bind_reads (reads_peek 0) fun value _ => ?_
  split
  · refine (follows_erase 1).bind fun _ _ _ => .bind_reads (reads_getInstance _) fun inst _ => ?_
    split
    · exact follows_push _
    · refine .bind_reads (reads_getClass _) fun klass _ => ?_
      split
      · exact .bind (.make nofun) fun _ _ _ => follows_push _
      · exact (reads_throwUndefined _ _ _).follows
  · exact (reads_throwAt _ _).follows

theorem follows_setProperty (token : SourceMapToken Ptr) (name : Ptr) :
    Follows platform (setProperty token name) vm := by
  refine .bind_reads (reads_peek 0) fun value _ => ?_
  split
  · refine .bind_reads (reads_getInstance _) fun inst found =>
      .bind_reads (reads_peek 1) fun _ _ => ?_
    exact .bind (.write (getInstance_ok.mp found).2 rfl nofun) fun _ _ _ => follows_erase 1
  · exact (reads_throwAt _ _).follows

theorem follows_getSuper (token : SourceMapToken Ptr) (name : Ptr) :
    Follows platform (getSuper platform token name) vm := by
  refine .bind_reads (reads_peek 0) fun superclass _ => .bind_reads (reads_peek 1) fun inst _ => ?_
  split
  · refine .bind_reads (reads_getClass _) fun klass _ => ?_
    split
    · exact .bind (.make nofun) fun _ _ _ =>
        (follows_erase 2).bind fun _ _ _ => follows_push _
    · exact (reads_throwUndefined _ _ _).follows
  · exact (ReadOnly.throw _).follows

theorem follows_inherit (token : SourceMapToken Ptr) : Follows platform (inherit token) vm := by
  refine .bind_reads (reads_peek 0) fun superclass _ => ?_
  split
  · refine .bind_reads (reads_peek 1) fun child _ => ?_
    split
    · refine .bind_reads (reads_getClass _) fun _ _ => .bind_reads (reads_getClass _) fun _ found => ?_
      exact .bind (.write (getClass_ok.mp found).2 rfl nofun) fun _ _ _ => follows_push _
    · exact (ReadOnly.throw _).follows
  · exact (reads_throwAt _ _).follows

theorem follows_method (name : Ptr) : Follows platform (method name : VmM N Unit) vm := by
  refine .bind_reads (reads_peek 0) fun closure _ => .bind_reads (reads_peek 1) fun klass _ => ?_
  split
  · refine .bind_reads (reads_getClass _) fun _ found => ?_
    exact .bind (.write (getClass_ok.mp found).2 rfl nofun) fun _ _ _ => follows_erase 1
  · exact (ReadOnly.throw _).follows

theorem follows_pushFrame (closure : Ptr) (argCount : Nat) :
    Follows platform (pushFrame closure argCount : VmM N Unit) vm := .modify rfl rfl

theorem follows_callClosure (token : SourceMapToken Ptr) (argCount : Nat) (closure : Ptr) :
    Follows platform (callClosure token argCount closure : VmM N Unit) vm := by
  refine .bind_reads (reads_arityOf closure) fun arity _ => ?_
  split
  · exact follows_pushFrame _ _
  · exact (reads_throwAt _ _).follows

theorem follows_callClass (token : SourceMapToken Ptr) (argCount : Nat) (klass : Ptr) :
    Follows platform (callClass platform token argCount klass) vm := by
  have instance_ (klass : Ptr) (vm : VM N) :
      Follows platform (make platform (.instance_ { klass })) vm := .make nofun
  refine .bind (.get _) fun _ _ _ => .bind_reads (reads_getClass klass) fun owner _ => ?_
  split
  · refine .bind_reads (reads_arityOf _) fun arity _ => ?_
    split
    · exact (instance_ klass _).bind fun _ _ _ =>
        (follows_replace _ _).bind fun _ _ _ => follows_pushFrame _ _
    · exact (reads_throwAt _ _).follows
  · split
    · exact (instance_ klass _).bind fun _ _ _ => follows_replace _ _
    · exact (reads_throwAt _ _).follows

theorem follows_callBoundMethod (token : SourceMapToken Ptr) (argCount : Nat)
    (bound : BoundMethod) :
    Follows platform (callBoundMethod token argCount bound : VmM N Unit) vm := by
  refine .bind_reads (reads_arityOf _) fun arity _ => ?_
  split
  · exact (follows_replace _ _).bind fun _ _ _ => follows_pushFrame _ _
  · exact (reads_throwAt _ _).follows

theorem follows_callNative (argCount : Nat) :
    Follows platform (callNative platform argCount) vm := by
  refine .bind_reads .get fun laterVm read => ?_
  obtain ⟨rfl, -⟩ := VmM.get_ok.mp read
  exact .bind (.set rfl rfl) fun _ _ _ =>
    (follows_erase _).bind fun _ _ _ => follows_push _

theorem follows_call (token : SourceMapToken Ptr) (argCount : Nat) :
    Follows platform (call platform token argCount) vm := by
  refine .bind_reads (reads_peek argCount) fun callee _ => ?_
  split
  · exact follows_callClosure _ _ _
  · exact follows_callClass _ _ _
  · exact .bind_reads (reads_getBoundMethod _) fun _ _ => follows_callBoundMethod _ _ _
  · exact .bind_reads (reads_getNativeFn _) fun _ _ => follows_callNative _
  · exact (reads_throwAt _ _).follows

theorem follows_addUpvalue (closure upvalue : Ptr) :
    Follows platform (addUpvalue closure upvalue : VmM N Unit) vm :=
  .bind_reads (reads_getClosure _) fun _ found => .write (getClosure_ok.mp found).2 rfl nofun

/-- A closure that is there stays a closure. -/
theorem addUpvalue_closure {closure upvalue : Ptr} {result : Unit}
    (runs : addUpvalue closure upvalue vm = .ok result after) {found : Closure}
    (there : vm.gcHeap.valueAt ptr = some (.closure found)) :
    ∃ found, after.gcHeap.valueAt ptr = some (.closure found) := by
  obtain ⟨changed, _, reads, writes⟩ := VmM.bind_ok.mp runs
  obtain ⟨rfl, here⟩ := getClosure_ok.mp reads
  obtain rfl := VmM.modify_ok.mp writes
  have values := GcHeap.valueAt_update (GcHeap.valueAt_isSome.mp ⟨_, here⟩)
    (.closure { changed with upvalues := changed.upvalues ++ [upvalue] }) ptr
  simp only [values]
  split
  · exact ⟨_, rfl⟩
  · exact ⟨found, there⟩

theorem follows_capture (activation : Activation N) (newClosure : Ptr) (tracked : TrackedUpvalue) :
    Follows platform (capture platform activation newClosure tracked) vm := by
  cases tracked with
  | upvalueIndex index =>
      refine .bind_reads (reads_getClosure _) fun enclosing found =>
        .bind_reads (reads_findOpenUpvalue _ _) fun upvalue _ => ?_
      cases upvalue with
      | some upvalue => exact follows_addUpvalue _ _
      | none =>
          refine .bind (.make nofun) fun upvalue after makes => ?_
          refine (follows_addUpvalue _ _).bind fun _ last adds =>
            .bind_reads (reads_insertOpenUpvalue _ _ _) fun _ _ => ?_
          have there : after.gcHeap.valueAt activation.closure = some (.closure enclosing) := by
            rw [run_make] at makes
            cases makes
            rw [valueAt_made]
            split
            next same =>
                rw [same] at found
                cases valueAt_fresh.symm.trans (getClosure_ok.mp found).2
            next => exact (getClosure_ok.mp found).2
          obtain ⟨kept, there⟩ := addUpvalue_closure adds there
          exact .write there rfl nofun
  | upUpvalueIndex index =>
      refine .bind_reads (reads_getClosure _) fun enclosing _ => ?_
      split
      · exact follows_addUpvalue _ _
      · exact (ReadOnly.throw _).follows

theorem follows_captureAll (activation : Activation N) (newClosure : Ptr)
    (captures : List TrackedUpvalue) :
    Follows platform (captureAll platform activation newClosure captures) vm := by
  induction captures generalizing vm with
  | nil => exact (ReadOnly.pure _).follows
  | cons tracked rest ih => exact (follows_capture _ _ _).bind fun _ _ _ => ih

theorem follows_closure (activation : Activation N) (constant : Nat)
    (captures : List TrackedUpvalue) :
    Follows platform (closure platform activation constant captures) vm :=
  .bind_reads (reads_functionAt _ _) fun _ _ => .bind (.make nofun) fun _ _ _ =>
    (follows_push _).bind fun _ _ _ => follows_captureAll _ _ _

theorem closeUpvalue_closure {result : Unit} {upvalue : Ptr}
    (runs : closeUpvalue upvalue vm = .ok result after) {found : Closure}
    (there : vm.gcHeap.valueAt ptr = some (.closure found)) :
    after.gcHeap.valueAt ptr = some (.closure found) := by
  obtain ⟨value, _, reads, writes⟩ := VmM.bind_ok.mp runs
  obtain rfl := (reads_upvalueValue upvalue).ok reads
  obtain ⟨old, here⟩ := upvalueValue_found reads
  obtain rfl := VmM.modify_ok.mp writes
  have values := GcHeap.valueAt_update (GcHeap.valueAt_isSome.mp ⟨_, here⟩)
    (.upvalue (.closed value)) ptr
  simp only [values]
  split
  next same =>
      rw [same] at there
      cases here.symm.trans there
  next => exact there

theorem follows_closeUpvalueInstr (activation : Activation N) :
    Follows platform (closeUpvalueInstr activation) vm := by
  refine .bind_reads (reads_getClosure _) fun closure found => ?_
  split
  · exact follows_erase 1
  · refine .bind_reads (reads_stackIndex _) fun _ _ => .bind_reads .get fun _ _ => ?_
    split
    · refine follows_closeUpvalue.bind fun _ after closes => ?_
      have there := closeUpvalue_closure closes (getClosure_ok.mp found).2
      exact .bind (.write there rfl nofun) fun _ _ _ => follows_erase 1
    · exact follows_erase 1

theorem follows_closeAll (upvalues : List Ptr) :
    Follows platform (closeAll upvalues : VmM N Unit) vm := by
  induction upvalues generalizing vm with
  | nil => exact (ReadOnly.pure _).follows
  | cons upvalue rest ih => exact follows_closeUpvalue.bind fun _ _ _ => ih

theorem follows_return (activation : Activation N) :
    Follows platform (return_ activation) vm := by
  refine .bind_reads (reads_getClosure _) fun _ _ => (follows_closeAll _).bind fun _ _ _ =>
    .bind_reads (reads_peek 0) fun _ _ => .bind_reads .get fun laterVm read => ?_
  obtain ⟨rfl, -⟩ := VmM.get_ok.mp read
  split
  · exact .set rfl rfl
  · exact (ReadOnly.throw _).follows

theorem follows_moveTo (target : Nat → Option Nat) :
    Follows platform (moveTo target : VmM N Unit) vm := by
  refine .bind_reads .get fun laterVm read => ?_
  obtain ⟨rfl, -⟩ := VmM.get_ok.mp read
  split
  · exact (ReadOnly.pure _).follows
  · split
    · exact .set rfl rfl
    · exact (ReadOnly.throw _).follows

theorem follows_jump (opcode : Opcode) (distance : Nat) :
    Follows platform (jump opcode distance : VmM N Unit) vm := by
  unfold jump
  split
  · exact follows_moveTo _
  · refine .bind_reads (reads_peek 0) fun value _ => ?_
    split
    · exact (ReadOnly.pure _).follows
    · exact follows_moveTo _
  · exact follows_moveTo _
  · exact (ReadOnly.throw _).follows

section

variable [Number N]

theorem follows_executeSimple (activation : Activation N) (opcode : Opcode) :
    Follows platform (executeSimple platform activation opcode) vm := by
  cases opcode with
  | nil | true_ | false_ => exact follows_push _
  | pop => exact follows_erase _
  | equal => exact follows_equal
  | greater | less | subtract | multiply | divide => exact follows_binaryNumbers _ _
  | add => exact follows_add _
  | not_ => exact follows_not
  | negate => exact follows_negate _
  | print => exact follows_print
  | closeUpvalue => exact follows_closeUpvalueInstr _
  | return_ => exact follows_return _
  | inherit => exact follows_inherit _
  | _ => exact (ReadOnly.throw _).follows

omit [Number N] in
theorem follows_executeOperand (activation : Activation N) (index : Nat) (opcode : Opcode) :
    Follows platform (executeOperand platform activation index opcode) vm := by
  cases opcode with
  | constant => exact .bind_reads (reads_constantAt _ _) fun _ _ => follows_push _
  | getLocal => exact follows_getLocal _
  | setLocal => exact follows_setLocal _
  | getGlobal => exact .bind_reads (reads_nameAt _ _) fun _ _ => follows_getGlobal _ _
  | defineGlobal => exact .bind_reads (reads_nameAt _ _) fun _ _ => follows_defineGlobal _
  | setGlobal => exact .bind_reads (reads_nameAt _ _) fun _ _ => follows_setGlobal _ _
  | getUpvalue =>
      exact .bind_reads (reads_upvalueAt _ _) fun _ _ =>
        .bind_reads (reads_upvalueValue _) fun _ _ => follows_push _
  | setUpvalue =>
      exact .bind_reads (reads_upvalueAt _ _) fun _ _ =>
        .bind_reads (reads_peek 0) fun _ _ => follows_setUpvalueValue _
  | getProperty => exact .bind_reads (reads_nameAt _ _) fun _ _ => follows_getProperty _ _
  | setProperty => exact .bind_reads (reads_nameAt _ _) fun _ _ => follows_setProperty _ _
  | getSuper => exact .bind_reads (reads_nameAt _ _) fun _ _ => follows_getSuper _ _
  | call => exact follows_call _ _
  | class_ =>
      exact .bind_reads (reads_nameAt _ _) fun _ _ => .bind (.make nofun) fun _ _ _ => follows_push _
  | method => exact .bind_reads (reads_nameAt _ _) fun _ _ => follows_method _
  | _ => exact (ReadOnly.throw _).follows

theorem follows_execute (activation : Activation N) (instr : Instr) :
    Follows platform (execute platform activation instr) vm := by
  cases instr with
  | simple opcode => exact follows_executeSimple _ _
  | operand opcode index => exact follows_executeOperand _ _ _
  | jump opcode distance => exact follows_jump _ _
  | closure constant captures => exact follows_closure _ _ _
  | unexpected byte => exact (reads_unexpectedOpcode _ _).follows

theorem follows_step : Follows platform (step platform) vm := by
  refine .bind_reads .get fun laterVm read => ?_
  obtain ⟨rfl, -⟩ := VmM.get_ok.mp read
  split
  · exact (ReadOnly.pure _).follows
  · refine .bind_reads (reads_getClosure _) fun _ _ =>
      .bind_reads (reads_getFunction _) fun _ _ => ?_
    dsimp only
    split
    · exact .set rfl rfl
    · split
      · exact .bind (.set rfl rfl) fun _ _ _ => follows_execute _ _
      · exact (ReadOnly.throw _).follows

end

theorem follows_collect : Follows platform (collect platform) vm := by
  refine .bind_reads .get fun laterVm read => ?_
  obtain ⟨rfl, -⟩ := VmM.get_ok.mp read
  dsimp only
  split
  · exact (ReadOnly.throw _).follows
  · exact .single (.collect laterVm laterVm.stack [laterVm.roots] rfl)

theorem follows_start (function : Ptr) : Follows platform (start platform function) vm :=
  .bind (.make nofun) fun _ _ _ => .modify rfl rfl

theorem follows_construct : Follows platform (construct platform) vm :=
  .bind (.get _) fun _ _ _ => .bind (.make nofun) fun _ _ _ => .modify rfl rfl

theorem equal_strings [Number N] {other : Ptr} {rest : List (Value N)} :
    equal { vm with stack := .string other :: .string ptr :: rest } =
      .ok () { vm with stack := .bool (ptr = other) :: rest } := rfl

/-- A name reads what was stored last under the same characters. -/
theorem VM.Interned.lookup_assign {V : Type} (interned : vm.Interned) {entries : List (Ptr × V)}
    {key name : Ptr} {chars text : Text} (stored : vm.Holds key chars) (read : vm.Holds name text)
    (value : V) : lookup (assign entries key value) name =
      if text = chars then some value else lookup entries name := by
  rw [Data.lookup_assign]
  exact if_congr (interned.ptr_eq_iff read stored) rfl rfl

/-- In every reachable state the tables are those of the live strings; `get` finds its
characters; and `equal` and the maps compare names by their characters.  What the machine
does stays reachable. -/
theorem reaches_interned [Number N] (reaches : Evolves platform {} vm) :
    vm.internedStrings.Describes vm.Holds ∧
    (∀ chars, ∃ ptr after, intern platform chars vm = .ok ptr after ∧ after.Holds ptr chars ∧
      Evolves platform {} after) ∧
    (∀ ptr other chars text rest, vm.Holds ptr chars → vm.Holds other text →
      equal { vm with stack := .string other :: .string ptr :: rest } =
        .ok () { vm with stack := .bool (chars = text) :: rest }) ∧
    (∀ {V : Type} (entries : List (Ptr × V)) name chars, vm.Holds name chars →
      ((lookup entries name).isSome ↔ ∃ key ∈ entries.map Prod.fst, vm.Holds key chars)) ∧
    (∀ {V : Type} (entries : List (Ptr × V)) key name chars text value, vm.Holds key chars →
      vm.Holds name text → lookup (assign entries key value) name =
        if text = chars then some value else lookup entries name) ∧
    Evolves platform {} (final (step platform) vm) ∧
    Evolves platform {} (final (collect platform) vm) ∧
    (∀ function, Evolves platform {} (final (start platform function) vm)) ∧
    Evolves platform {} (final (construct platform) vm) := by
  have interned := reaches.interned interned_initial
  refine ⟨interned.tables, fun chars => ?_, fun ptr other chars text rest here there => ?_,
    fun entries name chars => interned.lookup_iff,
    fun entries key name chars text value stored read => interned.lookup_assign stored read value,
    reaches.trans follows_step, reaches.trans follows_collect,
    fun function => reaches.trans (follows_start function), reaches.trans follows_construct⟩
  · obtain ⟨ptr, after, runs, -, holds⟩ := interned.intern platform chars
    have follows : Follows platform (intern platform chars) vm := .get chars
    rw [Follows, final_ok runs] at follows
    exact ⟨ptr, after, runs, holds, reaches.trans follows⟩
  · rw [equal_strings, decide_eq_decide.mpr (interned.ptr_eq_iff here there)]

/-- Addresses above those of the live objects, so a freed one may come again. -/
def Platform.above : Platform Int where
  allocate := fun _ live => live.sum + 1
  allocate_fresh := fun _ _ member =>
    Nat.not_succ_le_self _ (List.le_sum_of_mem member)
  controlBlockSize := fun _ => 1
  clock := fun count => count

/-- A string is collected, and its address goes to the next string. -/
theorem reaches_interned_reused :
    let vm := final (do
      let _ ← intern Platform.above "first".toList
      collect Platform.above
      let _ ← intern Platform.above "second".toList) ({} : VM Int)
    vm.Holds 1 "second".toList ∧ lookup vm.internedStrings.stringsByChars "first".toList = none ∧
      vm.internedStrings.Describes vm.Holds :=
  ⟨rfl, rfl, (reaches_interned (Follows.bind (.get _) fun _ _ _ =>
    follows_collect.bind fun _ _ _ => Follows.bind (.get _) fun _ _ _ =>
      (ReadOnly.pure _).follows)).1⟩

end Cpplox
