import Cpplox.Data.Confined
import Cpplox.Vm.Declarations

namespace Cpplox

open Structured Data

/-! What the machine may throw: its behaviour is always defined. -/

variable {N A B : Type} {platform : Platform N} {vm after : VM N} {activation : Activation N}
  {ptr : Ptr} {token : SourceMapToken Ptr} {index count depth : Nat} {allowed : VmError → Prop}

/-- A closed upvalue. -/
def VM.ClosedAt (vm : VM N) (ptr : Ptr) : Prop :=
  ∃ value, vm.gcHeap.valueAt ptr = some (.upvalue (.closed value))

/-- An upvalue that refers to a slot which is gone. -/
def VM.GoneAt (vm : VM N) (ptr : Ptr) : Prop := vm.OpenAt ptr (vm.stack.length ≤ ·)

/-- A superclass is on the stack, and below it an instance. -/
def VM.HasSuper (vm : VM N) : Prop :=
  ∃ superclass inst rest, vm.stack = .class_ superclass :: .instance_ inst :: rest

/-- What an instruction may throw in an activation of a closure.  A closure keeps the list of
its open upvalues for all its activations: one that another activation has closed, or that
refers to a slot which is gone, is met by the instructions that go through the list and by
reads and writes of upvalues. -/
inductive Instr.Throws (vm : VM N) (running : Closure) : Instr → VmError → Prop
  | reports {instr : Instr} {what : Text} : Throws vm running instr (.runtimeError what)
  | closure {constant : Nat} {captures : List TrackedUpvalue} {upvalue : Ptr} :
      upvalue ∈ running.openUpvalues → vm.ClosedAt upvalue →
      Throws vm running (.closure constant captures) .badVariantAccess
  | closeUpvalue {upvalue : Ptr} : running.openUpvalues.getLast? = some upvalue →
      vm.ClosedAt upvalue → Throws vm running (.simple .closeUpvalue) .badVariantAccess
  | getSuper {index : Nat} : ¬ vm.HasSuper →
      Throws vm running (.operand .getSuper index) .badVariantAccess
  | getUpvalue {index : Nat} {upvalue : Ptr} : running.upvalues[index]? = some upvalue →
      vm.GoneAt upvalue → Throws vm running (.operand .getUpvalue index) .outOfRange
  | setUpvalue {index : Nat} {upvalue : Ptr} : running.upvalues[index]? = some upvalue →
      vm.GoneAt upvalue → Throws vm running (.operand .setUpvalue index) .outOfRange
  | return_ {upvalue : Ptr} : upvalue ∈ running.openUpvalues → vm.GoneAt upvalue →
      Throws vm running (.simple .return_) .outOfRange

theorem Instr.Throws.defined {running : Closure} {instr : Instr} {error : VmError}
    (throws : instr.Throws vm running error) : error ≠ .undefined := by
  rintro rfl
  cases throws

/-- Only the heap and the stack matter. -/
theorem Instr.Throws.of_same {running : Closure} {instr : Instr} {error : VmError}
    (throws : instr.Throws vm running error) (heap : after.gcHeap = vm.gcHeap)
    (stack : after.stack = vm.stack) : instr.Throws after running error := by
  have closed {upvalue : Ptr} : vm.ClosedAt upvalue → after.ClosedAt upvalue := by
    simp only [VM.ClosedAt, heap, imp_self]
  have gone {upvalue : Ptr} : vm.GoneAt upvalue → after.GoneAt upvalue := by
    simp only [VM.GoneAt, VM.OpenAt, heap, stack, imp_self]
  cases throws with
  | reports => exact .reports
  | closure member met => exact .closure member (closed met)
  | closeUpvalue last met => exact .closeUpvalue last (closed met)
  | getSuper lacks => exact .getSuper (by rwa [VM.HasSuper, stack])
  | getUpvalue found met => exact .getUpvalue found (gone met)
  | setUpvalue found met => exact .setUpvalue found (gone met)
  | return_ member met => exact .return_ member (gone met)

/-- There is an object of a kind. -/
def Kind.Found (heap : GcHeap (Object N)) (ptr : Ptr) : Kind → Prop
  | .boundMethod => ∃ bound, heap.valueAt ptr = some (.boundMethod bound)
  | .class_ => ∃ klass, heap.valueAt ptr = some (.class_ klass)
  | .closure => ∃ closure, heap.valueAt ptr = some (.closure closure)
  | .function => ∃ function, heap.valueAt ptr = some (.function function)
  | .instance_ => ∃ inst, heap.valueAt ptr = some (.instance_ inst)
  | .nativeFn => heap.valueAt ptr = some .nativeFn
  | .string => ∃ chars, heap.valueAt ptr = some (.string chars)
  | .upvalue => ∃ upvalue, heap.valueAt ptr = some (.upvalue upvalue)

theorem GcHeap.HasKind.found {heap : GcHeap (Object N)} {kind : Kind} (there : heap.HasKind ptr kind) :
    kind.Found heap ptr := by
  obtain ⟨object, found, rfl⟩ := there
  cases object with
  | nativeFn => exact found
  | _ => exact ⟨_, found⟩

section

variable {rest : A → VmM N B}

theorem confined_peek {rest : Value N → VmM N B} (bound : depth < vm.stack.length)
    (continues : ∀ value, vm.stack[depth]? = some value → Confined allowed (rest value) vm) :
    Confined allowed (peek depth >>= rest) vm := by
  have found := List.getElem?_eq_getElem bound
  exact .step (peek_ok.mpr ⟨rfl, found⟩) (continues _ found)

theorem confined_getClosure {rest : Closure → VmM N B} (there : vm.gcHeap.HasKind ptr .closure)
    (continues : ∀ closure, vm.gcHeap.valueAt ptr = some (.closure closure) →
      Confined allowed (rest closure) vm) : Confined allowed (getClosure ptr >>= rest) vm := by
  obtain ⟨closure, found⟩ := there.found
  exact .step (getClosure_ok.mpr ⟨rfl, found⟩) (continues closure found)

theorem confined_getClass {rest : Class → VmM N B} (there : vm.gcHeap.HasKind ptr .class_)
    (continues : ∀ klass, vm.gcHeap.valueAt ptr = some (.class_ klass) →
      Confined allowed (rest klass) vm) : Confined allowed (getClass ptr >>= rest) vm := by
  obtain ⟨klass, found⟩ := there.found
  exact .step (getClass_ok.mpr ⟨rfl, found⟩) (continues klass found)

theorem confined_getInstance {rest : Instance N → VmM N B} (there : vm.gcHeap.HasKind ptr .instance_)
    (continues : ∀ inst, vm.gcHeap.valueAt ptr = some (.instance_ inst) →
      Confined allowed (rest inst) vm) : Confined allowed (getInstance ptr >>= rest) vm := by
  obtain ⟨inst, found⟩ := there.found
  exact .step (getInstance_ok.mpr ⟨rfl, found⟩) (continues inst found)

theorem confined_getString {rest : Text → VmM N B} (there : vm.gcHeap.HasKind ptr .string)
    (continues : ∀ chars, Confined allowed (rest chars) vm) :
    Confined allowed (getString ptr >>= rest) vm := by
  obtain ⟨chars, found⟩ := there.found
  exact .step (getString_ok.mpr ⟨rfl, found⟩) (continues chars)

theorem confined_getUpvalue {rest : Upvalue N → VmM N B} (there : vm.gcHeap.HasKind ptr .upvalue)
    (continues : ∀ upvalue, vm.gcHeap.valueAt ptr = some (.upvalue upvalue) →
      Confined allowed (rest upvalue) vm) : Confined allowed (getUpvalue ptr >>= rest) vm := by
  obtain ⟨upvalue, found⟩ := there.found
  exact .step (getUpvalue_ok.mpr ⟨rfl, found⟩) (continues upvalue found)

theorem confined_arityOf {rest : Nat → VmM N B} (typed : vm.gcHeap.Typed)
    (there : vm.gcHeap.HasKind ptr .closure) (continues : ∀ arity, Confined allowed (rest arity) vm) :
    Confined allowed (arityOf ptr >>= rest) vm := by
  obtain ⟨closure, live⟩ := there.found
  obtain ⟨function, code⟩ := (typed ptr _ live).1.found
  exact .step (arityOf_ok.mpr ⟨rfl, closure, function, live, code, rfl⟩) (continues _)

theorem confined_erase {rest : Unit → VmM N B} (enough : count ≤ vm.stack.length)
    (continues : Confined allowed (rest ()) { vm with stack := vm.stack.drop count }) :
    Confined allowed (erase count >>= rest) vm := .step (erase_ok.mpr ⟨enough, rfl⟩) continues

theorem confined_erase_last (enough : count ≤ vm.stack.length) :
    Confined allowed (erase count : VmM N Unit) vm := .done (erase_ok.mpr ⟨enough, rfl⟩)

theorem confined_push (value : Value N) : Confined allowed (push value) vm := .done (push_ok.mpr rfl)

theorem confined_setObject (object : Object N) : Confined allowed (setObject ptr object) vm :=
  .done (setObject_ok.mpr rfl)

theorem confined_make {rest : Ptr → VmM N B} (object : Object N)
    (continues : Confined allowed (rest (vm.fresh platform)) (vm.made platform object)) :
    Confined allowed (make platform object >>= rest) vm := .step (run_make object) continues

/-- `get` always finds or makes the string. -/
theorem confined_intern {rest : Ptr → VmM N B} (chars : Text) (interned : vm.Interned)
    (continues : ∀ ptr after, intern platform chars vm = .ok ptr after → Confined allowed (rest ptr) after) :
    Confined allowed (intern platform chars >>= rest) vm := by
  obtain ⟨ptr, after, runs, -⟩ := interned.intern platform chars
  exact .step runs (continues ptr after runs)

end

section

variable (reports : ∀ what, allowed (.runtimeError what))
include reports

theorem confined_throwAt (what : Text) (lexeme : vm.gcHeap.HasKind token.lexeme .string) :
    Confined allowed (throwAt token what : VmM N A) vm :=
  confined_getString lexeme fun _ => .throw (reports _) _

theorem confined_throwUndefined (kind : Text) (name : vm.gcHeap.HasKind ptr .string) :
    Confined allowed (throwUndefined token kind ptr : VmM N A) vm :=
  confined_getString name fun _ => .throw (reports _) _

theorem confined_binaryNumbers (operation : N → N → Value N) (tall : 2 ≤ vm.stack.length)
    (lexeme : vm.gcHeap.HasKind token.lexeme .string) :
    Confined allowed (binaryNumbers operation token) vm := by
  refine confined_peek (by omega) fun rhs _ => confined_peek (by omega) fun lhs _ => ?_
  split
  · exact confined_erase tall (confined_push _)
  · exact confined_throwAt reports _ lexeme

theorem confined_add [Number N] (interned : vm.Interned) (typed : vm.Typed) (tall : 2 ≤ vm.stack.length)
    (lexeme : vm.gcHeap.HasKind token.lexeme .string) : Confined allowed (add platform token) vm := by
  refine confined_peek (by omega) fun rhs top => confined_peek (by omega) fun lhs next => ?_
  split
  · exact confined_erase tall (confined_push _)
  · have left := typed.at_ next
    have right := typed.at_ top
    refine confined_getString left fun _ => confined_getString right fun _ => confined_erase tall ?_
    exact confined_intern _ ⟨interned.ready, interned.waiting, interned.tables⟩ fun _ _ _ => confined_push _
  · exact confined_throwAt reports _ lexeme

theorem confined_negate [Number N] (tall : 1 ≤ vm.stack.length)
    (lexeme : vm.gcHeap.HasKind token.lexeme .string) : Confined allowed (negate token) vm := by
  refine confined_peek (by omega) fun value _ => ?_
  split
  · exact confined_erase tall (confined_push _)
  · exact confined_throwAt reports _ lexeme

theorem confined_getGlobal (name : vm.gcHeap.HasKind ptr .string) :
    Confined allowed (getGlobal token ptr) vm := by
  refine .step (VmM.get_ok.mpr ⟨rfl, rfl⟩) ?_
  split
  · exact confined_push _
  · exact confined_throwUndefined reports _ name

theorem confined_setGlobal (tall : 1 ≤ vm.stack.length) (name : vm.gcHeap.HasKind ptr .string) :
    Confined allowed (setGlobal token ptr) vm := by
  refine .step (VmM.get_ok.mpr ⟨rfl, rfl⟩) ?_
  split
  · exact confined_peek tall fun _ _ => .done (VmM.modify_ok.mpr rfl)
  · exact confined_throwUndefined reports _ name

theorem confined_getProperty (typed : vm.Typed) (tall : 1 ≤ vm.stack.length)
    (lexeme : vm.gcHeap.HasKind token.lexeme .string) (name : vm.gcHeap.HasKind ptr .string) :
    Confined allowed (getProperty platform token ptr) vm := by
  refine confined_peek tall fun value top => ?_
  split
  · next object =>
      have there : vm.gcHeap.HasKind object .instance_ := typed.at_ top
      refine confined_erase tall (confined_getInstance there fun inst found => ?_)
      split
      · exact confined_push _
      · have klass := (typed.heap _ _ found).1
        refine confined_getClass klass fun _ _ => ?_
        split
        · exact confined_make _ (confined_push _)
        · exact confined_throwUndefined reports _ name
  · exact confined_throwAt reports _ lexeme

theorem confined_setProperty (typed : vm.Typed) (tall : 2 ≤ vm.stack.length)
    (lexeme : vm.gcHeap.HasKind token.lexeme .string) :
    Confined allowed (setProperty token ptr) vm := by
  refine confined_peek (by omega) fun value top => ?_
  split
  · next object =>
      have there : vm.gcHeap.HasKind object .instance_ := typed.at_ top
      refine confined_getInstance there fun inst _ => confined_peek (by omega) fun _ _ => ?_
      exact .next (setObject_ok.mpr rfl) (confined_erase_last (by
        change 1 ≤ vm.stack.length
        omega))
  · exact confined_throwAt reports _ lexeme

theorem confined_getSuper (typed : vm.Typed) (tall : 2 ≤ vm.stack.length)
    (name : vm.gcHeap.HasKind ptr .string) (unpaired : ¬ vm.HasSuper → allowed .badVariantAccess) :
    Confined allowed (getSuper platform token ptr) vm := by
  refine confined_peek (by omega) fun first top => confined_peek (by omega) fun second below => ?_
  have lacks (other : ∀ superclass inst, ¬ (first = .class_ superclass ∧ second = .instance_ inst)) :
      allowed .badVariantAccess := by
    refine unpaired ?_
    rintro ⟨superclass, inst, rest, stack⟩
    rw [stack] at top below
    cases top
    cases below
    exact other superclass inst ⟨rfl, rfl⟩
  cases first with
  | class_ superclass =>
      cases second with
      | instance_ object =>
          have there : vm.gcHeap.HasKind superclass .class_ := typed.at_ top
          refine confined_getClass there fun klass _ => ?_
          split
          · exact confined_make _ (confined_erase tall (confined_push _))
          · exact confined_throwUndefined reports _ name
      | _ => exact .throw (lacks (by simp)) _
  | _ => exact .throw (lacks (by simp)) _

theorem confined_inherit (typed : vm.Typed) (holds : Declaring.superclass.Holds vm.stack)
    (lexeme : vm.gcHeap.HasKind token.lexeme .string) : Confined allowed (inherit token) vm := by
  obtain ⟨current, holds⟩ := holds
  generalize stack : vm.stack = values at holds
  cases holds with
  | @superclass value klass rest =>
      have child : vm.gcHeap.HasKind klass .class_ := typed.stack (.class_ klass) (by simp [stack])
      refine .step (peek_ok.mpr ⟨rfl, by rw [stack]; rfl⟩) ?_
      split
      · next parent =>
          have there : vm.gcHeap.HasKind parent .class_ := typed.stack (.class_ parent) (by simp [stack])
          refine .step (peek_ok.mpr ⟨rfl, by rw [stack]; rfl⟩) ?_
          exact confined_getClass there fun _ _ => confined_getClass child fun _ _ =>
            .next (setObject_ok.mpr rfl) (confined_push _)
      · exact confined_throwAt reports _ lexeme

omit reports in
theorem confined_method (typed : vm.Typed) (holds : Declaring.method.Holds vm.stack) :
    Confined allowed (method ptr) vm := by
  obtain ⟨current, holds⟩ := holds
  generalize stack : vm.stack = values at holds
  cases holds with
  | @method closure klass rest =>
      have owner : vm.gcHeap.HasKind klass .class_ := typed.stack (.class_ klass) (by simp [stack])
      refine .step (peek_ok.mpr ⟨rfl, by rw [stack]; rfl⟩)
        (.step (peek_ok.mpr ⟨rfl, by rw [stack]; rfl⟩) ?_)
      exact confined_getClass owner fun _ _ => .next (setObject_ok.mpr rfl)
        (confined_erase_last (by
          change 1 ≤ vm.stack.length
          simp [stack]))

theorem confined_callClosure (typed : vm.Typed) (closure : vm.gcHeap.HasKind ptr .closure)
    (lexeme : vm.gcHeap.HasKind token.lexeme .string) :
    Confined allowed (callClosure token count ptr) vm := by
  refine confined_arityOf typed.heap closure fun arity => ?_
  split
  · exact .done (pushFrame_ok.mpr rfl)
  · exact confined_throwAt reports _ lexeme

theorem confined_callClass (interned : vm.Interned) (typed : vm.Typed)
    (klass : vm.gcHeap.HasKind ptr .class_) (lexeme : vm.gcHeap.HasKind token.lexeme .string) :
    Confined allowed (callClass platform token count ptr) vm := by
  refine confined_intern _ interned fun initString middle interns => ?_
  have extends_ := intern_extends interns
  have laterTyped := intern_typed typed.heap interns
  refine confined_getClass (extends_.hasKind klass) fun owner found => ?_
  split
  · next initializer known =>
      have closure := ((laterTyped _ _ found).2 _ (lookup_mem known)).2
      refine confined_arityOf laterTyped closure fun arity => ?_
      split
      · exact confined_make _ (.next (replace_ok.mpr rfl) (.done (pushFrame_ok.mpr rfl)))
      · exact confined_throwAt reports _ (extends_.hasKind lexeme)
  · split
    · exact confined_make _ (.done (replace_ok.mpr rfl))
    · exact confined_throwAt reports _ (extends_.hasKind lexeme)

theorem confined_callBoundMethod {bound : BoundMethod} (typed : vm.Typed)
    (found : vm.gcHeap.valueAt ptr = some (.boundMethod bound))
    (lexeme : vm.gcHeap.HasKind token.lexeme .string) :
    Confined allowed (callBoundMethod token count bound) vm := by
  refine confined_arityOf typed.heap (typed.heap _ _ found).2 fun arity => ?_
  split
  · exact .next (replace_ok.mpr rfl) (.done (pushFrame_ok.mpr rfl))
  · exact confined_throwAt reports _ lexeme

theorem confined_call (interned : vm.Interned) (typed : vm.Typed) (tall : count + 1 ≤ vm.stack.length)
    (lexeme : vm.gcHeap.HasKind token.lexeme .string) :
    Confined allowed (call platform token count) vm := by
  refine confined_peek tall fun callee found => ?_
  have there := typed.at_ found
  split
  · exact confined_callClosure reports typed there lexeme
  · exact confined_callClass reports interned typed there lexeme
  · obtain ⟨bound, found⟩ := there.found
    exact .step (getBoundMethod_ok.mpr ⟨rfl, found⟩)
      (confined_callBoundMethod reports typed found lexeme)
  · refine .next (getNativeFn_ok.mpr ⟨rfl, there.found⟩) ?_
    exact .step (VmM.get_ok.mpr ⟨rfl, rfl⟩) (.next (VmM.set_ok.mpr rfl)
      (confined_erase tall (confined_push _)))
  · exact confined_throwAt reports _ lexeme

end

section

variable {upvalues : List Ptr} {captures : List TrackedUpvalue} {made : Ptr} {running : Closure}

theorem confined_stackIndex {rest : Nat → VmM N B} (there : vm.gcHeap.HasKind ptr .upvalue)
    (closed : vm.ClosedAt ptr → allowed .badVariantAccess)
    (continues : ∀ index, vm.gcHeap.valueAt ptr = some (.upvalue (.open_ index)) →
      Confined allowed (rest index) vm) : Confined allowed (stackIndex ptr >>= rest) vm := by
  obtain ⟨upvalue, found⟩ := there.found
  cases upvalue with
  | open_ index => exact .step (stackIndex_ok.mpr ⟨rfl, found⟩) (continues index found)
  | closed value =>
      refine .bind (.step (getUpvalue_ok.mpr ⟨rfl, found⟩) (.throw (closed ⟨value, found⟩) _))
        fun index after runs => ?_
      obtain ⟨-, open_⟩ := stackIndex_ok.mp runs
      rw [found] at open_
      cases open_

/-- An upvalue without a value refers to a slot which is gone. -/
theorem goneAt_of_none {upvalue : Upvalue N} (found : vm.gcHeap.valueAt ptr = some (.upvalue upvalue))
    (lacks : upvalue.value? vm.stack = none) : vm.GoneAt ptr := by
  cases upvalue with
  | closed value => cases lacks
  | open_ slot =>
      refine ⟨slot, found, Nat.le_of_not_lt fun inside => ?_⟩
      obtain ⟨value, reads⟩ := slot?_exists inside
      have none_ : slot? vm.stack slot = none := lacks
      rw [reads] at none_
      cases none_

/-- An open upvalue may refer to a slot that is gone. -/
theorem confined_upvalueValue {rest : Value N → VmM N B} (there : vm.gcHeap.HasKind ptr .upvalue)
    (gone : vm.GoneAt ptr → allowed .outOfRange)
    (continues : ∀ value, Confined allowed (rest value) vm) :
    Confined allowed (upvalueValue ptr >>= rest) vm := by
  refine .bind (confined_getUpvalue there fun upvalue found => .step (VmM.get_ok.mpr ⟨rfl, rfl⟩) ?_)
    fun value after runs => ?_
  · split
    · exact .pure _ _
    next lacks => exact .throw (gone (goneAt_of_none found lacks)) _
  · obtain ⟨rfl, -⟩ := upvalueValue_ok.mp runs
    exact continues value

theorem confined_findOpenUpvalue (all : ∀ upvalue ∈ upvalues, vm.gcHeap.HasKind upvalue .upvalue)
    (closed : ∀ upvalue ∈ upvalues, vm.ClosedAt upvalue → allowed .badVariantAccess) :
    Confined allowed (findOpenUpvalue index upvalues : VmM N (Option Ptr)) vm := by
  induction upvalues with
  | nil => exact .pure _ _
  | cons upvalue rest ih =>
      have here := List.mem_cons_self (a := upvalue) (l := rest)
      refine confined_stackIndex (all upvalue here) (closed upvalue here) fun at_ _ => ?_
      split
      · exact .pure _ _
      · exact ih (fun other member => all other (List.mem_cons_of_mem _ member))
          fun other member => closed other (List.mem_cons_of_mem _ member)

theorem confined_insertOpenUpvalue (new : Ptr)
    (all : ∀ upvalue ∈ upvalues, vm.gcHeap.HasKind upvalue .upvalue)
    (closed : ∀ upvalue ∈ upvalues, vm.ClosedAt upvalue → allowed .badVariantAccess) :
    Confined allowed (insertOpenUpvalue index new upvalues : VmM N (List Ptr)) vm := by
  induction upvalues with
  | nil => exact .pure _ _
  | cons upvalue rest ih =>
      have here := List.mem_cons_self (a := upvalue) (l := rest)
      refine confined_stackIndex (all upvalue here) (closed upvalue here) fun at_ _ => ?_
      split
      · exact .pure _ _
      · exact .bind (ih (fun other member => all other (List.mem_cons_of_mem _ member))
          fun other member => closed other (List.mem_cons_of_mem _ member)) fun _ _ _ => .pure _ _

theorem confined_addUpvalue (upvalue : Ptr) (there : vm.gcHeap.HasKind made .closure) :
    Confined allowed (addUpvalue made upvalue) vm :=
  confined_getClosure there fun _ _ => confined_setObject _

/-- Writing a closure closes no upvalue. -/
theorem VM.ClosedAt.of_updated {other : Ptr} {old : Object N} {closure : Closure}
    (there : vm.gcHeap.valueAt ptr = some old)
    (closed : (vm.updated ptr (.closure closure)).ClosedAt other) : vm.ClosedAt other := by
  obtain ⟨value, found⟩ := closed
  rw [valueAt_updated there] at found
  split at found
  · cases found
  · exact ⟨value, found⟩

/-- After a capture the closed upvalues in the list of the running closure are those of before. -/
theorem Captured.closedAt {tracked : TrackedUpvalue} {enclosing : Closure}
    (captured : Captured platform activation made vm tracked after) (different : activation.closure ≠ made)
    (live : vm.gcHeap.valueAt activation.closure = some (.closure enclosing)) :
    ∃ held, after.gcHeap.valueAt activation.closure = some (.closure held) ∧
      held.upvalues = enclosing.upvalues ∧ ∀ upvalue ∈ held.openUpvalues, after.ClosedAt upvalue →
        upvalue ∈ enclosing.openUpvalues ∧ vm.ClosedAt upvalue := by
  cases captured with
  | shared _ _ _ _ there | passed _ _ there =>
      refine ⟨enclosing, ?_, rfl, fun upvalue member closed => ⟨member, closed.of_updated there⟩⟩
      rw [VM.withUpvalue, valueAt_updated there, if_neg different]
      exact live
  | @opened index _ _ lower upper middle last here _ makes there split _ _ same =>
      obtain rfl := Object.closure.inj (Option.some.inj (live.symm.trans here))
      subst same makes
      have running : (VM.withUpvalue _ made _ (vm.fresh platform)).gcHeap.valueAt activation.closure =
          some (.closure enclosing) := running_withUpvalue live there different
      refine ⟨{ enclosing with openUpvalues := lower ++ vm.fresh platform :: upper }, ?_, rfl,
        fun upvalue member closed => ?_⟩
      · rw [valueAt_updated running, if_pos rfl]
      obtain ⟨value, found⟩ := (closed.of_updated running).of_updated there
      rw [valueAt_made] at found
      split at found
      next => cases found
      next other =>
          refine ⟨?_, value, found⟩
          rw [split]
          rcases List.mem_append.mp member with low | high
          · exact List.mem_append_left _ low
          · rcases List.mem_cons.mp high with new | high
            · exact absurd new other
            · exact List.mem_append_right _ high

theorem confined_capture {tracked : TrackedUpvalue} {enclosing : Closure} (typed : vm.gcHeap.Typed)
    (live : vm.gcHeap.valueAt activation.closure = some (.closure enclosing))
    (there : vm.gcHeap.HasKind made .closure)
    (inside : ∀ index, tracked = .upUpvalueIndex index → index < enclosing.upvalues.length)
    (closed : ∀ upvalue ∈ enclosing.openUpvalues, vm.ClosedAt upvalue → allowed .badVariantAccess) :
    Confined allowed (capture platform activation made tracked) vm := by
  have openUpvalues := (typed _ _ live).2.2
  cases tracked with
  | upvalueIndex index =>
      refine .step (getClosure_ok.mpr ⟨rfl, live⟩) (.bind (confined_findOpenUpvalue openUpvalues closed)
        fun found middle finds => ?_)
      obtain rfl := (reads_findOpenUpvalue _ _).ok finds
      cases found with
      | some upvalue => exact confined_addUpvalue _ there
      | none =>
          have made_ : middle.gcHeap.Extends (middle.made platform
              (.upvalue (.open_ (activation.stackBeginIndex + index)))).gcHeap := extends_made _
          refine confined_make _ (.bind (confined_addUpvalue _ (made_.hasKind there))
            fun _ added adds => ?_)
          obtain ⟨held, here, rfl⟩ := addUpvalue_ok.mp adds
          have extends_ := made_.trans (extends_withUpvalue (middle.fresh platform) here)
          refine .bind (confined_insertOpenUpvalue _
            (fun other member => extends_.hasKind (openUpvalues other member))
            fun other member met => closed other member ?_) fun _ _ _ => confined_setObject _
          obtain ⟨value, found⟩ := met.of_updated here
          rw [valueAt_made] at found
          split at found
          · cases found
          · exact ⟨value, found⟩
  | upUpvalueIndex index =>
      refine .step (getClosure_ok.mpr ⟨rfl, live⟩) ?_
      have found := List.getElem?_eq_getElem (inside index rfl)
      rw [found]
      exact confined_addUpvalue _ there

theorem confined_captureAll {enclosing : Closure} (typed : vm.gcHeap.Typed)
    (different : activation.closure ≠ made)
    (live : vm.gcHeap.valueAt activation.closure = some (.closure enclosing))
    (there : vm.gcHeap.HasKind made .closure)
    (inside : ∀ index, .upUpvalueIndex index ∈ captures → index < enclosing.upvalues.length)
    (closed : ∀ upvalue ∈ enclosing.openUpvalues, vm.ClosedAt upvalue → allowed .badVariantAccess) :
    Confined allowed (captureAll platform activation made captures) vm := by
  induction captures generalizing vm enclosing with
  | nil => exact .pure _ _
  | cons tracked rest ih =>
      refine .bind (confined_capture typed live there
        (fun index same => inside index (same ▸ List.mem_cons_self)) closed) fun _ middle runs => ?_
      have captured := capture_ok runs
      obtain ⟨held, laterLive, same, before⟩ := captured.closedAt different live
      refine ih (captured.typed typed) laterLive (captured.extends.hasKind there) (fun index member => ?_)
        fun upvalue member met => ?_
      · rw [same]
        exact inside index (List.mem_cons_of_mem _ member)
      · obtain ⟨member, met⟩ := before upvalue member met
        exact closed upvalue member met

theorem confined_closure {function : Ptr} (typed : vm.Typed)
    (known : activation.chunk.constants[index]? = some (.function function))
    (code : vm.gcHeap.HasKind function .function)
    (live : vm.gcHeap.valueAt activation.closure = some (.closure running))
    (inside : ∀ index, .upUpvalueIndex index ∈ captures → index < running.upvalues.length)
    (closed : ∀ upvalue ∈ running.openUpvalues, vm.ClosedAt upvalue → allowed .badVariantAccess) :
    Confined allowed (closure platform activation index captures) vm := by
  have extends_ : vm.gcHeap.Extends (vm.made platform (.closure { function })).gcHeap := extends_made _
  have different : activation.closure ≠ vm.fresh platform := by
    intro same
    rw [same, valueAt_fresh] at live
    cases live
  refine .step (functionAt_ok.mpr ⟨rfl, known⟩) (confined_make _ (.next (push_ok.mpr rfl) ?_))
  refine confined_captureAll ?_ different (valueAt_made_of live) (hasKind_made (.closure { function }))
    inside fun upvalue member met => closed upvalue member ?_
  · exact typed_made _ typed.heap ⟨extends_.hasKind code, by simp, by simp⟩
  · obtain ⟨value, found⟩ := met
    change (vm.made platform (.closure { function })).gcHeap.valueAt upvalue = _ at found
    rw [valueAt_made] at found
    split at found
    · cases found
    · exact ⟨value, found⟩

theorem confined_closeUpvalueInstr (typed : vm.Typed) (tall : 1 ≤ vm.stack.length)
    (live : vm.gcHeap.valueAt activation.closure = some (.closure running))
    (closed : ∀ upvalue, running.openUpvalues.getLast? = some upvalue → vm.ClosedAt upvalue →
      allowed .badVariantAccess) :
    Confined allowed (closeUpvalueInstr activation) vm := by
  refine .step (getClosure_ok.mpr ⟨rfl, live⟩) ?_
  split
  · exact confined_erase_last tall
  · next upvalue last =>
      have there := (typed.heap _ _ live).2.2 upvalue (List.mem_of_getLast? last)
      refine confined_stackIndex there (closed upvalue last) fun index found =>
        .step (VmM.get_ok.mpr ⟨rfl, rfl⟩) ?_
      split
      next top =>
          obtain ⟨value, reads⟩ : ∃ value, slot? vm.stack index = some value := slot?_exists (by omega)
          exact .next (closeUpvalue_ok.mpr ⟨_, value, found, reads, rfl⟩)
            (.next (setObject_ok.mpr rfl) (confined_erase_last tall))
      next => exact confined_erase_last tall

theorem confined_closeAll (all : ∀ upvalue ∈ upvalues, vm.gcHeap.HasKind upvalue .upvalue)
    (gone : ∀ upvalue ∈ upvalues, vm.GoneAt upvalue → allowed .outOfRange) :
    Confined allowed (closeAll upvalues) vm := by
  induction upvalues generalizing vm with
  | nil => exact .pure _ _
  | cons upvalue rest ih =>
      have here := all upvalue List.mem_cons_self
      refine .bind (confined_upvalueValue here (gone upvalue List.mem_cons_self)
        fun _ => confined_setObject _) fun _ middle closes => ?_
      obtain ⟨captured, value, found, -, rfl⟩ := closeUpvalue_ok.mp closes
      have extends_ := extends_updated (.upvalue (.closed value)) found .upvalue
      refine ih (fun other member => extends_.hasKind (all other (List.mem_cons_of_mem _ member)))
        fun other member met => gone other (List.mem_cons_of_mem _ member) ?_
      obtain ⟨slot, there, high⟩ := met
      rw [valueAt_updated found] at there
      split at there
      · cases there
      · exact ⟨slot, there, high⟩

theorem confined_return (typed : vm.Typed)
    (live : vm.gcHeap.valueAt activation.closure = some (.closure running))
    (tall : activation.stackBeginIndex < vm.stack.length)
    (gone : ∀ upvalue ∈ running.openUpvalues, vm.GoneAt upvalue → allowed .outOfRange) :
    Confined allowed (return_ activation) vm := by
  refine .step (getClosure_ok.mpr ⟨rfl, live⟩)
    (.bind (confined_closeAll (typed.heap _ _ live).2.2 gone) fun _ middle closes => ?_)
  have same := (closeAll_ok closes).onlyHeap
  have height : middle.stack = vm.stack := by rw [same]
  refine confined_peek (by rw [height]; omega) fun result _ => .step (VmM.get_ok.mpr ⟨rfl, rfl⟩) ?_
  rw [if_pos (by rwa [height])]
  exact .done (VmM.set_ok.mpr rfl)

theorem confined_upvalueAt {rest : Ptr → VmM N B}
    (live : vm.gcHeap.valueAt activation.closure = some (.closure running))
    (inside : index < running.upvalues.length)
    (continues : ∀ upvalue, running.upvalues[index]? = some upvalue → Confined allowed (rest upvalue) vm) :
    Confined allowed (upvalueAt activation.closure index >>= rest) vm := by
  have found := List.getElem?_eq_getElem inside
  refine .bind (.step (getClosure_ok.mpr ⟨rfl, live⟩) ?_) fun upvalue after runs => ?_
  · rw [found]
    exact .pure _ _
  · obtain ⟨here, middle, finds, runs⟩ := VmM.bind_ok.mp runs
    obtain ⟨rfl, laterLive⟩ := getClosure_ok.mp finds
    obtain rfl := Object.closure.inj (Option.some.inj (live.symm.trans laterLive))
    rw [found] at runs
    obtain ⟨rfl, rfl⟩ := VmM.pure_ok.mp runs
    exact continues _ found

theorem confined_setUpvalueValue (value : Value N) (there : vm.gcHeap.HasKind ptr .upvalue)
    (gone : vm.GoneAt ptr → allowed .outOfRange) : Confined allowed (setUpvalueValue ptr value) vm := by
  refine confined_getUpvalue there fun upvalue found => ?_
  cases upvalue with
  | closed value => exact confined_setObject _
  | open_ slot =>
      refine .step (VmM.get_ok.mpr ⟨rfl, rfl⟩) ?_
      split
      · exact .done (VmM.set_ok.mpr rfl)
      next outside => exact .throw (gone ⟨slot, found, Nat.le_of_not_lt outside⟩) _

end

/-- A collection throws exactly when it meets an open upvalue whose slot is gone. -/
theorem collect_error {error : VmError} (interned : vm.Interned) :
    (∃ after, collect platform vm = .error error after) ↔
      error = .outOfRange ∧ ∃ ptr, vm.Kept ptr ∧ vm.GoneAt ptr := by
  have meets : ((GcHeap.markPhase (Object.traceRefs vm.stack) [vm.roots] vm.gcHeap).allPtrs.any
      fun block => block.marked && block.value.isDangling vm.stack) = true ↔
        ∃ ptr, vm.Kept ptr ∧ vm.GoneAt ptr := by
    have marked (ptr : Ptr) (object : Object N) :
        (∃ block ∈ (GcHeap.markPhase (Object.traceRefs vm.stack) [vm.roots] vm.gcHeap).allPtrs,
          block.marked = true ∧ block.ptr = ptr ∧ block.value = object) ↔
        vm.gcHeap.valueAt ptr = some object ∧ vm.Kept ptr := by
      rw [GcHeap.marked_markPhase interned.ready, interned.waiting, List.flatten_singleton,
        List.append_nil, VM.Kept]
    rw [List.any_eq_true]
    constructor
    · rintro ⟨block, member, tests⟩
      obtain ⟨isMarked, dangles⟩ := Bool.and_eq_true_iff.mp tests
      obtain ⟨found, kept⟩ := (marked block.ptr block.value).mp ⟨block, member, isMarked, rfl, rfl⟩
      refine ⟨block.ptr, kept, ?_⟩
      generalize block.value = object at found dangles
      cases object with
      | upvalue captured => exact goneAt_of_none found (Option.isNone_iff_eq_none.mp dangles)
      | _ => cases dangles
    · rintro ⟨ptr, kept, slot, found, high⟩
      obtain ⟨block, member, isMarked, -, same⟩ := (marked ptr _).mpr ⟨found, kept⟩
      refine ⟨block, member, Bool.and_eq_true_iff.mpr ⟨isMarked, ?_⟩⟩
      rw [same]
      exact Option.isNone_iff_eq_none.mpr (slot?_none high)
  constructor
  · rintro ⟨after, fails⟩
    rcases VmM.bind_error.mp fails with reads | ⟨now, middle, reads, throws⟩
    · cases reads
    · obtain ⟨rfl, rfl⟩ := VmM.get_ok.mp reads
      split at throws
      next some_ =>
          cases throws
          exact ⟨rfl, meets.mp some_⟩
      next => cases throws
  · rintro ⟨rfl, some_⟩
    refine ⟨vm, VmM.bind_error.mpr (.inr ⟨vm, vm, VmM.get_ok.mpr ⟨rfl, rfl⟩, ?_⟩)⟩
    rw [if_pos (meets.mpr some_)]
    rfl

/-- A text that is read off the heap in several steps. -/
theorem VmM.text_exists {α : Type} {value : α} {action : VmM N α} {rest : α → VmM N Text}
    (reads : action vm = .ok value vm) (further : ∃ text, rest value vm = .ok text vm) :
    ∃ text, (action >>= rest) vm = .ok text vm := by
  obtain ⟨text, runs⟩ := further
  exact ⟨text, VmM.bind_ok.mpr ⟨value, vm, reads, runs⟩⟩

theorem functionText_exists {function : HeapFunction N}
    (typed : (Object.function function).Typed vm.gcHeap) :
    ∃ text, functionText function vm = .ok text vm := by
  obtain ⟨name, found⟩ := typed.1.found
  have named : getString function.name vm = .ok name vm := getString_ok.mpr ⟨rfl, found⟩
  rw [functionText]
  exact VmM.text_exists named ⟨_, rfl⟩

theorem closureText_exists (typed : vm.gcHeap.Typed) (there : vm.gcHeap.HasKind ptr .closure) :
    ∃ text, closureText ptr vm = .ok text vm := by
  obtain ⟨closure, live⟩ := there.found
  obtain ⟨function, code⟩ := (typed _ _ live).1.found
  have isClosure : getClosure ptr vm = .ok closure vm := getClosure_ok.mpr ⟨rfl, live⟩
  have isFunction : getFunction closure.function vm = .ok function vm :=
    getFunction_ok.mpr ⟨rfl, code⟩
  rw [closureText]
  refine VmM.text_exists isClosure ?_
  refine VmM.text_exists isFunction ?_
  exact functionText_exists (typed _ _ code)

/-- Every value can be printed. -/
theorem valueText_exists [Number N] {value : Value N} (typed : vm.gcHeap.Typed) (there : value.Typed vm.gcHeap) :
    ∃ text, valueText value vm = .ok text vm := by
  cases value with
  | nil | number | nativeFn => exact ⟨_, rfl⟩
  | bool value => cases value <;> exact ⟨_, rfl⟩
  | boundMethod ptr =>
      obtain ⟨bound, found⟩ := GcHeap.HasKind.found there
      have isBound : getBoundMethod ptr vm = .ok bound vm := getBoundMethod_ok.mpr ⟨rfl, found⟩
      rw [valueText]
      refine VmM.text_exists isBound ?_
      exact closureText_exists typed (typed _ _ found).2
  | class_ ptr =>
      obtain ⟨klass, found⟩ := GcHeap.HasKind.found there
      obtain ⟨name, text⟩ := (typed _ _ found).1.found
      have isClass : getClass ptr vm = .ok klass vm := getClass_ok.mpr ⟨rfl, found⟩
      have named : getString klass.name vm = .ok name vm := getString_ok.mpr ⟨rfl, text⟩
      rw [valueText]
      refine VmM.text_exists isClass ?_
      exact VmM.text_exists named ⟨_, rfl⟩
  | closure ptr => exact closureText_exists typed there
  | function ptr =>
      obtain ⟨function, code⟩ := GcHeap.HasKind.found there
      have isFunction : getFunction ptr vm = .ok function vm := getFunction_ok.mpr ⟨rfl, code⟩
      rw [valueText]
      refine VmM.text_exists isFunction ?_
      exact functionText_exists (typed _ _ code)
  | instance_ ptr =>
      obtain ⟨inst, found⟩ := GcHeap.HasKind.found there
      obtain ⟨klass, here⟩ := (typed _ _ found).1.found
      obtain ⟨name, text⟩ := (typed _ _ here).1.found
      have isInstance : getInstance ptr vm = .ok inst vm := getInstance_ok.mpr ⟨rfl, found⟩
      have isClass : getClass inst.klass vm = .ok klass vm := getClass_ok.mpr ⟨rfl, here⟩
      have named : getString klass.name vm = .ok name vm := getString_ok.mpr ⟨rfl, text⟩
      rw [valueText]
      refine VmM.text_exists isInstance ?_
      refine VmM.text_exists isClass ?_
      exact VmM.text_exists named ⟨_, rfl⟩
  | string ptr =>
      obtain ⟨chars, found⟩ := GcHeap.HasKind.found there
      exact ⟨chars, getString_ok.mpr ⟨rfl, found⟩⟩

/-- What an activation has when it executes an instruction. -/
structure VM.Ready (vm : VM N) (activation : Activation N) (running : Closure)
    (around : Surroundings N) (slots : List Slot) (known : Declaring) : Prop where
  interned : vm.Interned
  typed : vm.Typed
  constants : ∃ ptrs, List.Forall₂ (ConstantAt vm.gcHeap ptrs) around.constants activation.chunk.constants
  sound : ∀ value ∈ activation.chunk.constants, value.Typed vm.gcHeap
  lexeme : vm.gcHeap.HasKind activation.token.lexeme .string
  live : vm.gcHeap.valueAt activation.closure = some (.closure running)
  upvalues : running.upvalues.length = around.captures.length
  tall : activation.stackBeginIndex + slots.length ≤ vm.stack.length
  holds : known.Holds vm.stack

section

variable [Number N] {around : Surroundings N} {slots : List Slot} {before next : Declaring}
  {emission : Emission} {opcode : Opcode} {running : Closure}

omit [Number N] in
theorem VM.Ready.upvalue {upvalue : Ptr} (ready : vm.Ready activation running around slots before)
    (found : running.upvalues[index]? = some upvalue) : vm.gcHeap.HasKind upvalue .upvalue :=
  (ready.typed.heap _ _ ready.live).2.1 upvalue (List.mem_of_getElem? found)

omit [Number N] in
/-- A name among the constants. -/
theorem VM.Ready.name {chars : Text} (ready : vm.Ready activation running around slots before)
    (named : around.constants[index]? = some (.string chars)) :
    ∃ name, activation.chunk.constants[index]? = some (.string name) ∧ vm.gcHeap.HasKind name .string := by
  obtain ⟨ptrs, constants⟩ := ready.constants
  obtain ⟨value, found, here⟩ := matched_left constants named
  cases here with
  | string held => exact ⟨_, found, _, held, rfl⟩

omit [Number N] in
theorem confined_nameAt {chars : Text} {rest : Ptr → VmM N B}
    (ready : vm.Ready activation running around slots before)
    (named : around.constants[index]? = some (.string chars))
    (continues : ∀ name, vm.gcHeap.HasKind name .string → Confined allowed (rest name) vm) :
    Confined allowed (nameAt activation.chunk index >>= rest) vm := by
  obtain ⟨name, found, there⟩ := ready.name named
  exact .step (nameAt_ok.mpr ⟨rfl, found⟩) (continues name there)

theorem confined_executeSimple (ready : vm.Ready activation running around slots before)
    (shape : opcode.shape = .simple) (pops : (Instr.simple opcode).pops ≤ slots.length)
    (steps : before.Steps (.simple opcode) next) :
    Confined ((Instr.simple opcode).Throws vm running) (executeSimple platform activation opcode) vm := by
  have reports (what : Text) : (Instr.simple opcode).Throws vm running (.runtimeError what) := .reports
  have tall : (Instr.simple opcode).pops ≤ vm.stack.length := by
    have := ready.tall
    omega
  cases opcode with
  | nil | true_ | false_ => exact confined_push _
  | pop => exact confined_erase_last tall
  | equal =>
      exact confined_peek (by simp only [Instr.pops] at tall; omega) fun _ _ =>
        confined_peek tall fun _ _ => confined_erase tall (confined_push _)
  | greater | less | subtract | multiply | divide =>
      exact confined_binaryNumbers reports _ tall ready.lexeme
  | add => exact confined_add reports ready.interned ready.typed tall ready.lexeme
  | not_ => exact confined_peek tall fun _ _ => confined_erase tall (confined_push _)
  | negate => exact confined_negate reports tall ready.lexeme
  | print =>
      refine confined_peek tall fun value top => ?_
      obtain ⟨text, prints⟩ := valueText_exists ready.typed.heap (ready.typed.at_ top)
      exact .step prints (.next (VmM.modify_ok.mpr rfl) (confined_erase_last tall))
  | closeUpvalue => exact confined_closeUpvalueInstr ready.typed tall ready.live fun _ => .closeUpvalue
  | return_ =>
      refine confined_return ready.typed ready.live ?_ fun _ => .return_
      have enough := ready.tall
      simp only [Instr.pops] at pops
      omega
  | inherit =>
      cases steps with
      | inherit => exact confined_inherit reports ready.typed ready.holds ready.lexeme
      | other other => cases other
  | _ => cases shape

omit [Number N] in
theorem confined_executeOperand (ready : vm.Ready activation running around slots before)
    (instr : emission.instr = .operand opcode index) (refers : around.Refers slots emission)
    (pops : (Instr.operand opcode index).pops ≤ slots.length)
    (steps : before.Steps (.operand opcode index) next) :
    Confined ((Instr.operand opcode index).Throws vm running) (executeOperand platform activation index opcode) vm := by
  have reports (what : Text) : (Instr.operand opcode index).Throws vm running (.runtimeError what) := .reports
  have tall : (Instr.operand opcode index).pops ≤ vm.stack.length := by
    have := ready.tall
    omega
  unfold Surroundings.Refers at refers
  rw [instr] at refers
  cases opcode with
  | constant =>
      have known : ∃ constant, around.constants[index]? = some constant := by
        rcases refers with ⟨_, known⟩ | ⟨_, known⟩ <;> exact ⟨_, known⟩
      obtain ⟨constant, known⟩ := known
      obtain ⟨ptrs, constants⟩ := ready.constants
      obtain ⟨value, found, -⟩ := matched_left constants known
      exact .step (constantAt_ok.mpr ⟨rfl, found⟩) (confined_push _)
  | getLocal =>
      have bound := refers.1
      obtain ⟨value, found⟩ : ∃ value, slot? vm.stack (activation.stackBeginIndex + index) = some value :=
        slot?_exists (by have := ready.tall; omega)
      refine .step (VmM.get_ok.mpr ⟨rfl, rfl⟩) ?_
      rw [found]
      exact confined_push _
  | setLocal =>
      have bound := refers.1
      refine .step (VmM.get_ok.mpr ⟨rfl, rfl⟩) (confined_peek tall fun _ _ => ?_)
      rw [if_pos (by have := ready.tall; omega)]
      exact .done (VmM.set_ok.mpr rfl)
  | getUpvalue =>
      have inside : index < running.upvalues.length := ready.upvalues ▸ refers
      exact confined_upvalueAt ready.live inside fun upvalue found =>
        confined_upvalueValue (ready.upvalue found) (.getUpvalue found) fun _ => confined_push _
  | setUpvalue =>
      have inside : index < running.upvalues.length := ready.upvalues ▸ refers
      exact confined_upvalueAt ready.live inside fun upvalue found =>
        confined_peek tall fun _ _ =>
          confined_setUpvalueValue _ (ready.upvalue found) (.setUpvalue found)
  | getGlobal =>
      obtain ⟨chars, named, -⟩ := refers
      exact confined_nameAt ready named fun name there => confined_getGlobal reports there
  | defineGlobal =>
      obtain ⟨chars, named, -⟩ := refers
      exact confined_nameAt ready named fun name there => confined_peek tall fun _ _ =>
        .next (VmM.modify_ok.mpr rfl) (confined_erase_last tall)
  | setGlobal =>
      obtain ⟨chars, named, -⟩ := refers
      exact confined_nameAt ready named fun name there => confined_setGlobal reports tall there
  | getProperty =>
      obtain ⟨chars, named, -⟩ := refers
      exact confined_nameAt ready named fun name there =>
        confined_getProperty reports ready.typed tall ready.lexeme there
  | setProperty =>
      obtain ⟨chars, named, -⟩ := refers
      exact confined_nameAt ready named fun name there =>
        confined_setProperty reports ready.typed tall ready.lexeme
  | getSuper =>
      obtain ⟨chars, named, -⟩ := refers
      exact confined_nameAt ready named fun name there =>
        confined_getSuper reports ready.typed tall there .getSuper
  | call => exact confined_call reports ready.interned ready.typed tall ready.lexeme
  | class_ =>
      obtain ⟨chars, named, -⟩ := refers
      exact confined_nameAt ready named fun name there => confined_make _ (confined_push _)
  | method =>
      obtain ⟨chars, named, -⟩ := refers
      cases steps with
      | method =>
          exact confined_nameAt ready named fun name there => confined_method ready.typed ready.holds
      | other other => cases other
      | superclass opcode => rcases opcode with same | same | same <;> cases same
  | _ => exact refers.elim

/-- An instruction of a function throws nothing else. -/
theorem confined_execute (ready : vm.Ready activation running around slots before)
    (refers : around.Refers slots emission) (pops : emission.instr.pops ≤ slots.length)
    (steps : before.Steps emission.instr next) :
    Confined (emission.instr.Throws vm running) (execute platform activation emission.instr) vm := by
  have kept := refers
  unfold Surroundings.Refers at refers
  cases instr : emission.instr with
  | simple opcode =>
      rw [instr] at refers pops steps
      exact confined_executeSimple ready refers pops steps
  | operand opcode index =>
      rw [instr] at pops steps
      exact confined_executeOperand ready instr kept pops steps
  | closure constant captures =>
      rw [instr] at refers
      obtain ⟨⟨position, function, known, -, -⟩, all⟩ := refers
      obtain ⟨ptrs, constants⟩ := ready.constants
      obtain ⟨value, found, here⟩ := matched_left constants known
      cases here with
      | function =>
          have code := ready.sound _ (List.mem_of_getElem? found)
          exact confined_closure ready.typed found code ready.live
            (fun index member => ready.upvalues ▸ all _ member) fun _ => .closure
  | jump | unexpected =>
      rw [instr] at refers
      exact refers.elim

end

section

variable [Number N] {frame : Frame} {callers : List Frame} {closure live : Closure}
  {object : HeapFunction N} {program : Program N} {function : LoweredFunction N} {slots : List Slot}
  {fetched : Fetched N} {floor below : Nat}

/-- An activation is at the end of its bytecode, or something is fetched. -/
theorem Frame.Runs.fetches (runs : frame.Runs vm.gcHeap closure program function slots) :
    ∃ object, vm.Runs frame closure object ∧ (frame.bytecodeIndex = object.chunk.bytecode.length ∨
      ∃ fetched, vm.Fetches frame closure object fetched) := by
  have fits := program.fits function runs.full.of.member
  obtain ⟨object, code, isObject⟩ : ∃ object, vm.gcHeap.valueAt closure.function = some (.function object) ∧
      ∃ ptrs, ObjectOf vm.gcHeap ptrs function.assemble object := by
    cases runs.full.of.embodies with
    | intro found holds => exact ⟨_, found, _, holds⟩
  obtain ⟨ptrs, isObject⟩ := isObject
  refine ⟨object, ⟨runs.live, code⟩, ?_⟩
  obtain ⟨entry, listing, verified, arrives⟩ := runs.arrives
  rcases verified.arrives_cases arrives with ⟨atEnd, -⟩ | ⟨written, flat, there, -⟩
  · exact .inl (isObject.bytecode ▸ atEnd)
  · obtain ⟨token, at_, -⟩ := matched_left isObject.tokens (verified.token_entry there)
    have decodes := verified.decode_entry fits there
    rw [← isObject.bytecode] at decodes
    exact .inr ⟨⟨LoweredFlat.instr flat, flat.size layout,
      { closure := frame.closure, stackBeginIndex := frame.stackBeginIndex, chunk := object.chunk, token }⟩,
      ⟨runs.live, code⟩, decodes, at_, rfl⟩

/-- An iteration that fetches an instruction throws what the instruction throws. -/
theorem VM.Fetches.confined {allowed : VmError → Prop} (fetches : vm.Fetches frame live object fetched)
    (frames : vm.callFrames = frame :: callers)
    (executes : Confined allowed (execute platform fetched.activation fetched.instr)
      (vm.advanced frame callers fetched.size)) : Confined allowed (step platform) vm := by
  refine .step (VmM.get_ok.mpr ⟨rfl, rfl⟩) ?_
  rw [frames]
  refine .step (getClosure_ok.mpr ⟨rfl, fetches.runs.live⟩)
    (.step (getFunction_ok.mpr ⟨rfl, fetches.runs.code⟩) ?_)
  dsimp only
  rw [if_neg (fetches.not_end fetches.runs), fetches.decodes, fetches.token]
  refine .next (VmM.set_ok.mpr rfl) ?_
  rw [← fetches.activation]
  exact executes

/-- What is known of an instruction that is not a jump. -/
theorem VM.Declares.steps (declares : vm.Declares) (frames : vm.callFrames = frame :: callers)
    (fetches : vm.Fetches frame live object fetched)
    (stays : ∀ opcode distance, fetched.instr ≠ .jump opcode distance) :
    ∃ known next : Declaring, known.Holds vm.stack ∧ known.Steps fetched.instr next := by
  obtain ⟨closure, program, function, known, knows, holds⟩ := declares.running frame callers frames
  obtain ⟨listing, listed, arrives⟩ := knows.arrives
  obtain rfl := Object.closure.inj (Option.some.inj (knows.live.symm.trans fetches.runs.live))
  obtain ⟨_, isObject⟩ := knows.of.embodies.object fetches.runs.code
  have decodes := fetches.decodes
  rw [isObject.bytecode] at decodes
  obtain ⟨flat, there, instr, -⟩ :=
    listed.arrives_decode (program.fits function knows.of.member) arrives decodes
  have goes := listed.verified _ _ _ there
  cases flat with
  | plain emission =>
      obtain ⟨next, typed, -⟩ := goes
      exact ⟨known, next, holds, instr ▸ typed⟩
  | jump | jumpIfFalse | loop => exact absurd instr.symm (stays _ _)

/-- What the innermost activation has when it executes an instruction. -/
theorem Frame.Runs.ready {known : Declaring} {written : List Slot} (sound : vm.Sound)
    (frames : vm.callFrames = frame :: callers)
    (runs : frame.Runs vm.gcHeap closure program function slots)
    (fetches : vm.Fetches frame live object fetched) (leaves : function.Leaves frame floor below)
    (tall : vm.stack.length = floor + written.length) (holds : known.Holds vm.stack) :
    (vm.advanced frame callers fetched.size).Ready fetched.activation closure
      (function.surroundings program.functions) written known := by
  obtain rfl := Object.closure.inj (Option.some.inj (runs.live.symm.trans fetches.runs.live))
  obtain ⟨ptrs, isObject⟩ := runs.full.of.embodies.object fetches.runs.code
  have moved := sound.advanced frames fetched.size
  have typed := sound.typed.heap _ _ fetches.runs.code
  have active : fetched.activation.closure = frame.closure := by rw [fetches.activation]
  have chunk : fetched.activation.chunk = object.chunk := by rw [fetches.activation]
  refine ⟨moved.interned, moved.typed, ⟨ptrs, ?_⟩, ?_, ?_, ?_, ?_, ?_, holds⟩
  · rw [chunk]
    exact isObject.constants
  · rw [chunk]
    exact typed.2.1
  · exact typed.2.2 _ (List.mem_of_getElem? fetches.token)
  · rw [active]
    exact runs.live
  · exact runs.full.upvalues
  · have begins := leaves.1
    have same : fetched.activation.stackBeginIndex = frame.stackBeginIndex := by rw [fetches.activation]
    change _ ≤ vm.stack.length
    omega

omit [Number N] in
theorem confined_moveTo {allowed : VmError → Prop} {target : Nat → Option Nat} {bytecodeIndex : Nat}
    (frames : vm.callFrames = frame :: callers) (goes : target frame.bytecodeIndex = some bytecodeIndex) :
    Confined allowed (moveTo target) vm := by
  refine .step (VmM.get_ok.mpr ⟨rfl, rfl⟩) ?_
  rw [frames]
  dsimp only
  rw [goes]
  exact .done (VmM.set_ok.mpr rfl)

omit [Number N] in
/-- A jump of a function finds its condition, and goes somewhere. -/
theorem LoweredFunction.Verified.confined_jump {allowed : VmError → Prop}
    {functions : List (LoweredFunction N)} {entry : List TrackedLocal}
    {listing : Listing Emission JumpTag Context} {context : Context} {flat : LoweredFlat} {offset : Nat}
    {opcode : Opcode} {distance : Nat}
    (verified : function.Verified functions entry listing)
    (there : EntryAt layout listing offset (context, flat))
    (instr : LoweredFlat.instr flat = .jump opcode distance)
    (frames : vm.callFrames = frame :: callers) (index : frame.bytecodeIndex = offset + flat.size layout)
    (tall : ∀ written, context = .live written → written.length ≤ vm.stack.length) :
    Confined allowed (jump opcode distance) vm := by
  have steps := verified.verified _ _ _ there
  cases flat with
  | plain emission =>
      obtain ⟨slots, after, rfl, executes, -⟩ := verified.executes there
      have refers := executes.refers
      simp only [LoweredFlat.instr] at instr
      simp only [Surroundings.Refers, instr] at refers
  | jump tag other =>
      cases instr
      have goes : jumpForward distance frame.bytecodeIndex = some (frame.bytecodeIndex + distance) := rfl
      exact confined_moveTo frames goes
  | jumpIfFalse tag other =>
      cases instr
      obtain ⟨⟨slots, rfl, tests⟩, -⟩ := steps
      obtain ⟨⟨rest, rfl, -⟩, -⟩ := tests
      have some_ := tall _ rfl
      refine confined_peek (by simp only [List.length_cons] at some_; omega) fun value _ => ?_
      split
      · exact .pure _ _
      · exact confined_moveTo frames rfl
  | loop tag other =>
      cases instr
      obtain ⟨-, target, back, -⟩ := steps
      have enough : distance ≤ frame.bytecodeIndex := by
        rw [index]
        exact Nat.le.intro ((Nat.add_comm _ _).trans back)
      exact confined_moveTo frames (if_pos enough)

/-- An iteration throws nothing but what the instruction it executes may throw. -/
theorem step_confined (sound : vm.Sound) (standing : vm.Standing) (declares : vm.Declares) :
    Confined (fun error => ∃ fetched running, vm.fetch? = some fetched ∧
      vm.gcHeap.valueAt fetched.activation.closure = some (.closure running) ∧
      fetched.instr.Throws vm running error) (step platform) vm := by
  obtain ⟨base, stacked⟩ := standing.stacked
  generalize height : vm.stack.length = tall at stacked
  generalize frames : vm.callFrames = all at stacked
  cases stacked with
  | nil =>
      refine .step (VmM.get_ok.mpr ⟨rfl, rfl⟩) ?_
      rw [frames]
      exact .pure _ _
  | @cons frame callers closure program function slots floor below outer runs leaves =>
      obtain ⟨object, here, atEnd | ⟨fetched, fetches⟩⟩ := runs.fetches
      · refine .step (VmM.get_ok.mpr ⟨rfl, rfl⟩) ?_
        rw [frames]
        refine .step (getClosure_ok.mpr ⟨rfl, here.live⟩) (.step (getFunction_ok.mpr ⟨rfl, here.code⟩) ?_)
        dsimp only
        rw [if_pos atEnd]
        exact .done (VmM.set_ok.mpr rfl)
      · have known : vm.fetch? = some fetched := by
          rw [VM.fetch?_cons frames]
          exact VM.fetchFrom_some.mpr ⟨_, _, fetches⟩
        have live : vm.gcHeap.valueAt fetched.activation.closure = some (.closure closure) := by
          rw [fetches.activation]
          exact here.live
        suffices executes : Confined (fetched.instr.Throws (vm.advanced frame callers fetched.size) closure)
            (execute platform fetched.activation fetched.instr) (vm.advanced frame callers fetched.size) from
          (fetches.confined frames executes).mono fun error throws =>
            ⟨fetched, closure, known, live, throws.of_same rfl rfl⟩
        obtain ⟨entry, listing, written, flat, verified, there, le, instr, size⟩ := runs.fetched fetches
        have tall : vm.stack.length = floor + written.length := height.trans (by rw [le.length])
        by_cases jumps : ∃ opcode distance, fetched.instr = .jump opcode distance
        · obtain ⟨opcode, distance, jumps⟩ := jumps
          rw [jumps]
          refine verified.confined_jump there (instr.trans jumps) rfl (by rw [size]) fun other same => ?_
          cases same
          change written.length ≤ vm.stack.length
          omega
        · have stays (opcode : Opcode) (distance : Nat) : fetched.instr ≠ .jump opcode distance :=
            fun same => jumps ⟨opcode, distance, same⟩
          obtain ⟨known, next, holds, steps⟩ := declares.steps frames fetches stays
          have ready := runs.ready sound frames fetches leaves tall holds
          cases flat with
          | plain emission =>
              obtain ⟨_, after, same, executes, -⟩ := verified.executes there
              cases same
              have pops := verified.pops_le there
              rw [← show emission.instr = fetched.instr from instr] at steps ⊢
              exact confined_execute ready executes.refers pops steps
          | jump | jumpIfFalse | loop => exact absurd instr.symm (stays _ _)

end

end Cpplox
