import Cpplox.Vm.TwinSteps

namespace Cpplox

open Data

/-! Twin machines execute the same instruction alike. -/

variable {N : Type} {pairing : Addresses} {vm twinVm : VM N} {platform twinPlatform : Platform N}
  {ptr twinPtr name twinName : Ptr} {token twinToken : SourceMapToken Ptr}
  {chunk twinChunk : Chunk (Value N) Ptr}
  {activation twinActivation : Activation N}

namespace Chunk.Twin

theorem constantAt (twin : chunk.Twin pairing twinChunk) (index : Nat) :
    Finds (Value.Twin pairing) (constantAt chunk index)
      (Cpplox.constantAt twinChunk index) vm twinVm := by
  unfold Cpplox.constantAt
  rcases some_or_none (alike_getElem? twin.constants index) with
    ⟨_, _, found, twinFound, same⟩ | ⟨none, twinNone⟩
  · rw [found, twinFound]
    exact .pure same
  · rw [none, twinNone]
    exact .throw _

theorem nameAt (twin : chunk.Twin pairing twinChunk) (index : Nat) :
    Finds pairing.pairs (nameAt chunk index) (Cpplox.nameAt twinChunk index) vm twinVm := by
  refine (twin.constantAt index).bind fun _ _ same => ?_
  cases same with
  | string pair => exact .pure pair
  | _ => exact .throw _

theorem functionAt (twin : chunk.Twin pairing twinChunk) (index : Nat) :
    Finds pairing.pairs (functionAt chunk index) (Cpplox.functionAt twinChunk index) vm twinVm := by
  refine (twin.constantAt index).bind fun _ _ same => ?_
  cases same with
  | function pair => exact .pure pair
  | _ => exact .throw _

end Chunk.Twin

namespace VM.Twins

theorem binaryNumbers (twins : VM.Twins pairing vm twinVm) (twin : token.Twin pairing twinToken)
    {operation : N → N → Value N}
    (plain : ∀ left right, (operation left right).Twin pairing (operation left right)) :
    Alongside pairing (binaryNumbers operation token)
      (Cpplox.binaryNumbers operation twinToken) vm twinVm := by
  refine .looks (twins.peek 0) twins fun _ _ rhs => .looks (twins.peek 1) twins fun _ _ lhs => ?_
  cases lhs with
  | number left =>
      cases rhs with
      | number right => exact twins.eraseAndPush 2 (plain left right)
      | _ => exact twins.fails twin _
  | _ => exact twins.fails twin _

/-- Pointers are equal exactly when their partners are. -/
theorem equal_values [Number N] {lhs twinLhs rhs twinRhs : Value N} (left : lhs.Twin pairing twinLhs)
    (right : rhs.Twin pairing twinRhs) : lhs.equal rhs = twinLhs.equal twinRhs := by
  cases left <;> cases right <;> try rfl
  all_goals
    simp only [Value.equal, decide_eq_decide]
    exact Pairing.eq_iff ‹_› ‹_›

theorem equal [Number N] (twins : VM.Twins pairing vm twinVm) :
    Alongside pairing equal (equal (N := N)) vm twinVm := by
  refine .looks (twins.peek 0) twins fun _ _ rhs => .looks (twins.peek 1) twins fun _ _ lhs => ?_
  rw [equal_values lhs rhs]
  exact twins.eraseAndPush 2 (.bool _)

theorem negate [Number N] (twins : VM.Twins pairing vm twinVm) (twin : token.Twin pairing twinToken) :
    Alongside pairing (negate token) (Cpplox.negate twinToken) vm twinVm := by
  refine .looks (twins.peek 0) twins fun _ _ value => ?_
  cases value with
  | number value => exact twins.eraseAndPush 1 (.number _)
  | _ => exact twins.fails twin _

theorem isTruthy {value twinValue : Value N} (twin : value.Twin pairing twinValue) :
    value.isTruthy = twinValue.isTruthy := by
  cases twin <;> rfl

theorem not_ (twins : VM.Twins pairing vm twinVm) : Alongside pairing not_ not_ vm twinVm := by
  refine .looks (twins.peek 0) twins fun _ _ value => ?_
  rw [isTruthy value]
  exact twins.eraseAndPush 1 (.bool _)

theorem print [Number N] (twins : VM.Twins pairing vm twinVm) :
    Alongside pairing print (print (N := N)) vm twinVm := by
  refine .looks (twins.peek 0) twins fun _ _ value => ?_
  refine .looks (twins.valueText value) twins fun text _ same => ?_
  subst same
  refine (Together.modify le_rfl { twins with output := ?_ }).andThen fun _ _ _ _ printed =>
    printed.erase 1
  rw [twins.output]

theorem withGlobal (twins : VM.Twins pairing vm twinVm) {value twinValue : Value N}
    (pair : pairing.pairs name twinName) (twin : value.Twin pairing twinValue) :
    VM.Twins pairing { vm with globals := assign vm.globals name value }
      { twinVm with globals := assign twinVm.globals twinName twinValue } :=
  { twins with globals := twins.globals.assign pair twin }

theorem defineGlobal (twins : VM.Twins pairing vm twinVm) (pair : pairing.pairs name twinName) :
    Alongside pairing (defineGlobal name) (Cpplox.defineGlobal twinName) vm twinVm :=
  .looks (twins.peek 0) twins fun _ _ value =>
    (Together.modify le_rfl (twins.withGlobal pair value)).andThen fun _ _ _ _ defined =>
      defined.erase 1

theorem getGlobal (twins : VM.Twins pairing vm twinVm) (twin : token.Twin pairing twinToken)
    (pair : pairing.pairs name twinName) :
    Alongside pairing (getGlobal token name) (Cpplox.getGlobal twinToken twinName) vm twinVm := by
  refine .get ?_
  rcases some_or_none (twins.globals.lookup pair) with ⟨_, _, found, twinFound, value⟩ |
    ⟨none, twinNone⟩
  · simp only [found, twinFound]
    exact twins.push value
  · simp only [none, twinNone]
    exact twins.failsUndefined twin _ pair

theorem setGlobal (twins : VM.Twins pairing vm twinVm) (twin : token.Twin pairing twinToken)
    (pair : pairing.pairs name twinName) :
    Alongside pairing (setGlobal token name) (Cpplox.setGlobal twinToken twinName) vm twinVm := by
  refine .get ?_
  rcases some_or_none (twins.globals.lookup pair) with ⟨_, _, found, twinFound, -⟩ | ⟨none, twinNone⟩
  · simp only [found, twinFound]
    exact .looks (twins.peek 0) twins fun _ _ value => .modify le_rfl (twins.withGlobal pair value)
  · simp only [none, twinNone]
    exact twins.failsUndefined twin _ pair

theorem getLocal (twins : VM.Twins pairing vm twinVm) (index : Nat) :
    Alongside pairing (getLocal index) (Cpplox.getLocal index) vm twinVm := by
  refine .get ?_
  rcases some_or_none (alike_slot? twins.stack index) with ⟨_, _, found, twinFound, value⟩ |
    ⟨none, twinNone⟩
  · simp only [found, twinFound]
    exact twins.push value
  · simp only [none, twinNone]
    exact .throw _ twins

theorem setLocal (twins : VM.Twins pairing vm twinVm) (index : Nat) :
    Alongside pairing (setLocal index) (Cpplox.setLocal index) vm twinVm :=
  .get (.looks (twins.peek 0) twins fun _ _ value => twins.writeSlot index value)

theorem upvalueAt (twins : VM.Twins pairing vm twinVm) (pair : pairing.pairs ptr twinPtr)
    (index : Nat) :
    Finds pairing.pairs (upvalueAt ptr index) (Cpplox.upvalueAt twinPtr index) vm twinVm := by
  refine (twins.getClosure pair).bind fun _ _ made => ?_
  rcases some_or_none (alike_getElem? made.upvalues index) with
    ⟨_, _, found, twinFound, upvalue⟩ | ⟨none, twinNone⟩
  · simp only [found, twinFound]
    exact .pure upvalue
  · simp only [none, twinNone]
    exact .throw _

theorem getUpvalueInstr (twins : VM.Twins pairing vm twinVm) (pair : pairing.pairs ptr twinPtr)
    (index : Nat) :
    Alongside pairing (getUpvalueInstr ptr index) (Cpplox.getUpvalueInstr twinPtr index) vm twinVm :=
  .looks (twins.upvalueAt pair index) twins fun _ _ upvalue =>
    .looks (twins.upvalueValue upvalue) twins fun _ _ value => twins.push value

theorem setUpvalueInstr (twins : VM.Twins pairing vm twinVm) (pair : pairing.pairs ptr twinPtr)
    (index : Nat) :
    Alongside pairing (setUpvalueInstr ptr index) (Cpplox.setUpvalueInstr twinPtr index) vm twinVm :=
  .looks (twins.upvalueAt pair index) twins fun _ _ upvalue =>
    .looks (twins.peek 0) twins fun _ _ value => twins.setUpvalueValue upvalue value

theorem getProperty (twins : VM.Twins pairing vm twinVm) (twin : token.Twin pairing twinToken)
    (pair : pairing.pairs name twinName) :
    Alongside pairing (getProperty platform token name)
      (Cpplox.getProperty twinPlatform twinToken twinName)
      vm twinVm := by
  refine .looks (twins.peek 0) twins fun _ _ value => ?_
  cases value with
  | instance_ this =>
      refine (twins.erase 1).andThen fun _ _ _ le erased => ?_
      replace pair := le _ _ pair
      replace this := le _ _ this
      refine .looks (erased.getInstance this) erased fun _ _ inst => ?_
      rcases some_or_none (inst.fields.lookup pair) with ⟨_, _, found, twinFound, field⟩ |
        ⟨none, twinNone⟩
      · simp only [found, twinFound]
        exact erased.push field
      · simp only [none, twinNone]
        refine .looks (erased.getClass inst.klass) erased fun _ _ klass => ?_
        rcases some_or_none (klass.methods.lookup pair) with ⟨_, _, found, twinFound, method⟩ |
          ⟨none, twinNone⟩
        · simp only [found, twinFound]
          exact (erased.make (.boundMethod ⟨this, method⟩)).bind fun _ _ _ _ _ _ made bound =>
            made.push (.boundMethod bound)
        · simp only [none, twinNone]
          exact erased.failsUndefined (twin.mono le) _ pair
  | _ => exact twins.fails twin _

theorem setProperty (twins : VM.Twins pairing vm twinVm) (twin : token.Twin pairing twinToken)
    (pair : pairing.pairs name twinName) :
    Alongside pairing (setProperty token name) (Cpplox.setProperty twinToken twinName) vm twinVm := by
  refine .looks (twins.peek 0) twins fun _ _ value => ?_
  cases value with
  | instance_ this =>
      refine .looks (twins.getInstance this) twins fun _ _ inst =>
        .looks (twins.peek 1) twins fun _ _ value => ?_
      refine .andThen (twins.setObject this (.instance_ ?_)) fun _ _ _ _ written => written.erase 1
      exact ⟨inst.klass, inst.fields.assign pair value⟩
  | _ => exact twins.fails twin _

theorem getSuper (twins : VM.Twins pairing vm twinVm) (twin : token.Twin pairing twinToken)
    (pair : pairing.pairs name twinName) :
    Alongside pairing (getSuper platform token name)
      (Cpplox.getSuper twinPlatform twinToken twinName) vm twinVm := by
  refine .looks (twins.peek 0) twins fun _ _ top => .looks (twins.peek 1) twins fun _ _ below => ?_
  cases top with
  | class_ superclass =>
      cases below with
      | instance_ this =>
          refine .looks (twins.getClass superclass) twins fun _ _ klass => ?_
          rcases some_or_none (klass.methods.lookup pair) with ⟨_, _, found, twinFound, method⟩ |
            ⟨none, twinNone⟩
          · simp only [found, twinFound]
            exact (twins.make (.boundMethod ⟨this, method⟩)).bind fun _ _ _ _ _ _ made bound =>
              made.eraseAndPush 2 (.boundMethod bound)
          · simp only [none, twinNone]
            exact twins.failsUndefined twin _ pair
      | _ => exact .throw _ twins
  | _ => exact .throw _ twins

theorem inherit (twins : VM.Twins pairing vm twinVm) (twin : token.Twin pairing twinToken) :
    Alongside pairing (inherit token) (Cpplox.inherit twinToken) vm twinVm := by
  refine .looks (twins.peek 0) twins fun _ _ top => ?_
  cases top with
  | class_ parent =>
      refine .looks (twins.peek 1) twins fun _ _ below => ?_
      cases below with
      | class_ child =>
          refine .looks (twins.getClass parent) twins fun _ _ parentClass =>
            .looks (twins.getClass child) twins fun _ _ childClass => ?_
          refine .andThen (twins.setObject child (.class_ ?_)) fun _ _ _ le written =>
            written.push (.class_ (le _ _ child))
          exact ⟨childClass.name, childClass.methods.insertAll parentClass.methods⟩
      | _ => exact .throw _ twins
  | _ => exact twins.fails twin _

theorem method (twins : VM.Twins pairing vm twinVm) (pair : pairing.pairs name twinName) :
    Alongside pairing (method name : VmM N Unit) (Cpplox.method twinName) vm twinVm := by
  refine .looks (twins.peek 0) twins fun _ _ top => .looks (twins.peek 1) twins fun _ _ below => ?_
  cases top with
  | closure closure =>
      cases below with
      | class_ klass =>
          refine .looks (twins.getClass klass) twins fun _ _ owner => ?_
          refine .andThen (twins.setObject klass (.class_ ?_)) fun _ _ _ _ written => written.erase 1
          exact ⟨owner.name, owner.methods.assign pair closure⟩
      | _ => exact .throw _ twins
  | _ => exact .throw _ twins

theorem pushFrame (twins : VM.Twins pairing vm twinVm) (pair : pairing.pairs ptr twinPtr)
    (argCount : Nat) :
    Alongside pairing (pushFrame ptr argCount) (Cpplox.pushFrame twinPtr argCount) vm twinVm := by
  refine .modify le_rfl { twins with callFrames := .cons ⟨pair, rfl, ?_⟩ twins.callFrames }
  rw [twins.stack.length_eq]

theorem arityOf (twins : VM.Twins pairing vm twinVm) (pair : pairing.pairs ptr twinPtr) :
    Finds Eq (arityOf ptr) (Cpplox.arityOf twinPtr) vm twinVm :=
  (twins.getClosure pair).bind fun _ _ made =>
    (twins.getFunction made.function).bind fun _ _ function =>
    .pure function.arity

theorem callClosure (twins : VM.Twins pairing vm twinVm) (twin : token.Twin pairing twinToken)
    (argCount : Nat)
    (pair : pairing.pairs ptr twinPtr) :
    Alongside pairing (callClosure token argCount ptr)
      (Cpplox.callClosure twinToken argCount twinPtr) vm twinVm := by
  refine .looks (twins.arityOf pair) twins fun arity _ same => ?_
  subst same
  split
  · exact twins.pushFrame pair argCount
  · exact twins.fails twin _

/-- A new instance of a class. -/
theorem makeInstance (twins : VM.Twins pairing vm twinVm) (pair : pairing.pairs ptr twinPtr) :
    Points pairing (Cpplox.make platform (.instance_ { klass := ptr }))
      (Cpplox.make twinPlatform (.instance_ { klass := twinPtr })) vm twinVm := by
  refine twins.make (.instance_ ?_)
  exact ⟨pair, .nil⟩

theorem callBoundMethod (twins : VM.Twins pairing vm twinVm) (twin : token.Twin pairing twinToken)
    (argCount : Nat)
    {bound twinBound : BoundMethod} (same : bound.Twin pairing twinBound) :
    Alongside pairing (callBoundMethod token argCount bound)
      (Cpplox.callBoundMethod twinToken argCount twinBound)
      vm twinVm := by
  refine .looks (twins.arityOf same.method) twins fun arity _ agrees => ?_
  subst agrees
  split
  · exact (twins.replace argCount (.instance_ same.instance_)).andThen fun _ _ _ le replaced =>
      replaced.pushFrame (le _ _ same.method) argCount
  · exact twins.fails twin _

theorem callNative (twins : VM.Twins pairing vm twinVm) (clock : platform.clock = twinPlatform.clock)
    (argCount : Nat) :
    Alongside pairing (callNative platform argCount)
      (Cpplox.callNative twinPlatform argCount) vm twinVm := by
  refine .get ?_
  rw [clock, twins.nClock]
  refine (Together.set le_rfl { twins with nClock := rfl }).andThen fun _ _ _ _ counted => ?_
  exact counted.eraseAndPush (argCount + 1) (.number _)

theorem findOpenUpvalue (twins : VM.Twins pairing vm twinVm) (index : Nat)
    {upvalues twinUpvalues : List Ptr}
    (same : List.Forall₂ pairing.pairs upvalues twinUpvalues) :
    Finds (Option.Rel pairing.pairs) (findOpenUpvalue index upvalues)
      (Cpplox.findOpenUpvalue index twinUpvalues) vm twinVm := by
  induction same with
  | nil => exact .pure .none
  | cons head _ ih =>
      refine (twins.stackIndex head).bind fun found _ agrees => ?_
      subst agrees
      split
      · exact .pure (.some head)
      · exact ih

theorem insertOpenUpvalue (twins : VM.Twins pairing vm twinVm) (index : Nat)
    (pair : pairing.pairs ptr twinPtr)
    {upvalues twinUpvalues : List Ptr} (same : List.Forall₂ pairing.pairs upvalues twinUpvalues) :
    Finds (List.Forall₂ pairing.pairs) (insertOpenUpvalue index ptr upvalues)
      (Cpplox.insertOpenUpvalue index twinPtr twinUpvalues) vm twinVm := by
  induction same with
  | nil => exact .pure (.cons pair .nil)
  | cons head rest ih =>
      refine (twins.stackIndex head).bind fun found _ agrees => ?_
      subst agrees
      split
      · exact .pure (.cons pair (.cons head rest))
      · exact ih.bind fun _ _ inserted => .pure (.cons head inserted)

theorem addUpvalue (twins : VM.Twins pairing vm twinVm) {upvalue twinUpvalue : Ptr}
    (pair : pairing.pairs ptr twinPtr) (added : pairing.pairs upvalue twinUpvalue) :
    Alongside pairing (addUpvalue ptr upvalue) (Cpplox.addUpvalue twinPtr twinUpvalue) vm twinVm := by
  refine .looks (twins.getClosure pair) twins fun _ _ made => twins.setObject pair (.closure ?_)
  exact ⟨made.function, List.rel_append made.upvalues (.cons added .nil), made.openUpvalues⟩

theorem capture (twins : VM.Twins pairing vm twinVm) (twin : activation.Twin pairing twinActivation)
    (pair : pairing.pairs ptr twinPtr) (tracked : TrackedUpvalue) :
    Alongside pairing (capture platform activation ptr tracked)
      (Cpplox.capture twinPlatform twinActivation twinPtr tracked) vm twinVm := by
  cases tracked with
  | upvalueIndex index =>
      simp only [Cpplox.capture, twin.stackBeginIndex]
      refine .looks (twins.getClosure twin.closure) twins fun _ _ enclosing => ?_
      refine .looks (twins.findOpenUpvalue _ enclosing.openUpvalues) twins fun _ _ found => ?_
      cases found with
      | some upvalue => exact twins.addUpvalue pair upvalue
      | none =>
          refine (twins.make (.upvalue (.open_ _))).bind fun _ _ _ _ _ le made upvalue => ?_
          refine (made.addUpvalue (le _ _ pair) upvalue).andThen fun _ _ _ twinLe added => ?_
          have le := le.trans twinLe
          have earlier := enclosing.openUpvalues.imp le
          refine .looks (added.insertOpenUpvalue _ (twinLe _ _ upvalue) earlier) added
            fun _ _ inserted => ?_
          refine added.setObject (le _ _ twin.closure) (.closure ?_)
          exact ⟨le _ _ enclosing.function, enclosing.upvalues.imp le, inserted⟩
  | upUpvalueIndex index =>
      refine .looks (twins.getClosure twin.closure) twins fun _ _ enclosing => ?_
      rcases some_or_none (alike_getElem? enclosing.upvalues index) with
        ⟨_, _, found, twinFound, upvalue⟩ | ⟨none, twinNone⟩
      · simp only [found, twinFound]
        exact twins.addUpvalue pair upvalue
      · simp only [none, twinNone]
        exact .throw _ twins

theorem captureAll (twins : VM.Twins pairing vm twinVm) (twin : activation.Twin pairing twinActivation)
    (pair : pairing.pairs ptr twinPtr) (captures : List TrackedUpvalue) :
    Alongside pairing (captureAll platform activation ptr captures)
      (Cpplox.captureAll twinPlatform twinActivation twinPtr captures) vm twinVm := by
  induction captures generalizing pairing vm twinVm with
  | nil => exact .pure twins trivial
  | cons tracked rest ih =>
      exact (twins.capture twin pair tracked).andThen fun _ _ _ le captured =>
        ih captured (twin.mono le) (le _ _ pair)

theorem closure (twins : VM.Twins pairing vm twinVm) (twin : activation.Twin pairing twinActivation)
    (constant : Nat) (captures : List TrackedUpvalue) :
    Alongside pairing (closure platform activation constant captures)
      (Cpplox.closure twinPlatform twinActivation constant captures) vm twinVm := by
  refine .looks (twin.chunk.functionAt constant) twins fun _ _ function => ?_
  refine .bind (twins.make (.closure ?_)) fun _ _ _ _ _ le made pair => ?_
  · exact ⟨function, .nil, .nil⟩
  · exact (made.push (.closure pair)).andThen fun _ _ _ twinLe pushed =>
      pushed.captureAll (twin.mono (le.trans twinLe)) (twinLe _ _ pair) captures

theorem closeUpvalueInstr (twins : VM.Twins pairing vm twinVm)
    (twin : activation.Twin pairing twinActivation) :
    Alongside pairing (closeUpvalueInstr activation)
      (Cpplox.closeUpvalueInstr twinActivation) vm twinVm := by
  refine .looks (twins.getClosure twin.closure) twins fun _ _ closure => ?_
  rcases some_or_none (alike_getLast? closure.openUpvalues) with ⟨_, _, found, twinFound, upvalue⟩ |
    ⟨none, twinNone⟩
  · simp only [found, twinFound]
    refine .looks (twins.stackIndex upvalue) twins fun index _ same => .get ?_
    subst same
    rw [twins.stack.length_eq]
    split
    · refine (twins.closeUpvalue upvalue).andThen fun _ _ _ le closed => ?_
      refine .andThen (closed.setObject (le _ _ twin.closure) (.closure ?_)) fun _ _ _ _ written =>
        written.erase 1
      exact ⟨le _ _ closure.function, closure.upvalues.imp le,
        (alike_dropLast closure.openUpvalues).imp le⟩
    · exact twins.erase 1
  · simp only [none, twinNone]
    exact twins.erase 1

theorem closeAll (twins : VM.Twins pairing vm twinVm) {upvalues twinUpvalues : List Ptr}
    (same : List.Forall₂ pairing.pairs upvalues twinUpvalues) :
    Alongside pairing (closeAll upvalues) (Cpplox.closeAll twinUpvalues) vm twinVm := by
  induction upvalues generalizing twinUpvalues pairing vm twinVm with
  | nil =>
      cases same
      exact .pure twins trivial
  | cons upvalue rest ih =>
      cases same with
      | cons pair later =>
          exact (twins.closeUpvalue pair).andThen fun _ _ _ le closed => ih closed (later.imp le)

theorem return_ (twins : VM.Twins pairing vm twinVm) (twin : activation.Twin pairing twinActivation) :
    Alongside pairing (return_ activation) (Cpplox.return_ twinActivation) vm twinVm := by
  refine .looks (twins.getClosure twin.closure) twins fun _ _ closure => ?_
  refine (twins.closeAll closure.openUpvalues).andThen fun _ _ _ _ closed => ?_
  refine .looks (closed.peek 0) closed fun _ _ result => .get ?_
  rw [closed.stack.length_eq, twin.stackBeginIndex]
  split
  · refine .set le_rfl { closed with
      stack := .cons result (List.forall₂_drop _ closed.stack), callFrames := ?_ }
    rw [← List.drop_one, ← List.drop_one]
    exact List.forall₂_drop 1 closed.callFrames
  · exact .throw _ closed

theorem withFrames (twins : VM.Twins pairing vm twinVm) {callFrames twinCallFrames : List Frame}
    (same : List.Forall₂ (Frame.Twin pairing) callFrames twinCallFrames) :
    VM.Twins pairing { vm with callFrames } { twinVm with callFrames := twinCallFrames } :=
  { twins with callFrames := same }

theorem moveTo (twins : VM.Twins pairing vm twinVm) (target : Nat → Option Nat) :
    Alongside pairing (moveTo target) (Cpplox.moveTo target) vm twinVm := by
  refine .get ?_
  cases frames : vm.callFrames with
  | nil =>
      have twinFrames := List.forall₂_nil_left_iff.mp (frames ▸ twins.callFrames)
      simp only [twinFrames]
      exact .pure twins trivial
  | cons frame callers =>
      obtain ⟨twinFrame, twinCallers, head, rest, twinFrames⟩ :=
        List.forall₂_cons_left_iff.mp (frames ▸ twins.callFrames)
      simp only [twinFrames, head.bytecodeIndex]
      cases target twinFrame.bytecodeIndex with
      | some bytecodeIndex =>
          refine .set le_rfl (twins.withFrames (.cons ?_ rest))
          exact ⟨head.closure, rfl, head.stackBeginIndex⟩
      | none => exact .throw _ twins

theorem jump (twins : VM.Twins pairing vm twinVm) (opcode : Opcode) (distance : Nat) :
    Alongside pairing (jump opcode distance) (Cpplox.jump opcode distance) vm twinVm := by
  unfold Cpplox.jump
  split
  · exact twins.moveTo _
  · refine .looks (twins.peek 0) twins fun _ _ value => ?_
    rw [isTruthy value]
    split
    · exact .pure twins trivial
    · exact twins.moveTo _
  · exact twins.moveTo _
  · exact .throw _ twins

theorem unexpectedOpcode (twins : VM.Twins pairing vm twinVm) (twin : token.Twin pairing twinToken)
    (byte : Nat) :
    Alongside pairing (unexpectedOpcode token byte)
      (Cpplox.unexpectedOpcode twinToken byte) vm twinVm := by
  have text : Finds Eq (opcodeText byte : VmM N Text) (opcodeText byte) vm twinVm := by
    unfold opcodeText
    split
    · exact .pure rfl
    · exact .pure rfl
    · exact .throw _
  refine .looks text twins fun opcode _ same => ?_
  refine .looks (twins.getString twin.lexeme) twins fun lexeme _ twinSame => ?_
  subst same twinSame
  rw [twin.line]
  exact .throw _ twins

end VM.Twins

namespace VM.Paired

theorem add [Number N] (paired : VM.Paired pairing vm twinVm) (twin : token.Twin pairing twinToken) :
    Alongside pairing (add platform token) (Cpplox.add twinPlatform twinToken) vm twinVm := by
  have twins := paired.twins
  refine .looks (twins.peek 0) twins fun _ _ rhs => .looks (twins.peek 1) twins fun _ _ lhs => ?_
  cases lhs with
  | number left =>
      cases rhs with
      | number right => exact twins.eraseAndPush 2 (.number _)
      | _ => exact twins.fails twin _
  | string left =>
      cases rhs with
      | string right =>
          refine .looks (twins.getString left) twins fun _ _ same =>
            .looks (twins.getString right) twins fun _ _ twinSame => ?_
          subst same twinSame
          have follows : Follows platform (Cpplox.erase 2) vm := follows_erase 2
          have twinFollows : Follows twinPlatform (Cpplox.erase 2) twinVm := follows_erase 2
          have erases := paired.together follows twinFollows (twins.erase 2)
          refine erases.bindFrom (fun _ _ _ reached => reached.twins) fun _ _ _ _ _ _ erased _ => ?_
          refine (erased.twins.intern erased.interned erased.twinInterned _).bind
            fun _ _ _ _ _ _ interned pair => ?_
          exact interned.push (.string pair)
      | _ => exact twins.fails twin _
  | _ => exact twins.fails twin _

theorem callClass (paired : VM.Paired pairing vm twinVm) (twin : token.Twin pairing twinToken)
    (argCount : Nat)
    (pair : pairing.pairs ptr twinPtr) :
    Alongside pairing (callClass platform token argCount ptr)
      (Cpplox.callClass twinPlatform twinToken argCount twinPtr)
      vm twinVm := by
  refine (paired.twins.intern paired.interned paired.twinInterned initName).bind
    fun _ _ _ _ _ le twins init => ?_
  replace pair := le _ _ pair
  replace twin := twin.mono le
  refine .looks (twins.getClass pair) twins fun _ _ klass => ?_
  rcases some_or_none (klass.methods.lookup init) with ⟨_, _, found, twinFound, initializer⟩ |
    ⟨none, twinNone⟩
  · simp only [found, twinFound]
    refine .looks (twins.arityOf initializer) twins fun arity _ same => ?_
    subst same
    split
    · refine (twins.makeInstance pair).bind fun _ _ _ _ _ le made this => ?_
      refine (made.replace argCount (.instance_ this)).andThen fun _ _ _ twinLe replaced => ?_
      exact replaced.pushFrame (twinLe _ _ (le _ _ initializer)) argCount
    · exact twins.fails twin _
  · simp only [none, twinNone]
    split
    · exact (twins.makeInstance pair).bind fun _ _ _ _ _ _ made this =>
        made.replace argCount (.instance_ this)
    · exact twins.fails twin _

theorem call (paired : VM.Paired pairing vm twinVm) (clock : platform.clock = twinPlatform.clock)
    (twin : token.Twin pairing twinToken) (argCount : Nat) :
    Alongside pairing (call platform token argCount)
      (Cpplox.call twinPlatform twinToken argCount) vm twinVm := by
  have twins := paired.twins
  refine .looks (twins.peek argCount) twins fun _ _ callee => ?_
  cases callee with
  | closure pair => exact twins.callClosure twin argCount pair
  | class_ pair => exact paired.callClass twin argCount pair
  | boundMethod pair =>
      exact .looks (twins.getBoundMethod pair) twins fun _ _ bound =>
        twins.callBoundMethod twin argCount bound
  | nativeFn pair =>
      exact .looks (twins.getNativeFn pair) twins fun _ _ _ =>
        twins.callNative clock argCount
  | _ => exact twins.fails twin _

end VM.Paired

namespace VM.Paired

theorem executeSimple [Number N] (paired : VM.Paired pairing vm twinVm)
    (twin : activation.Twin pairing twinActivation)
    (opcode : Opcode) :
    Alongside pairing (executeSimple platform activation opcode)
      (Cpplox.executeSimple twinPlatform twinActivation opcode) vm twinVm := by
  have twins := paired.twins
  cases opcode with
  | nil => exact twins.push .nil
  | true_ => exact twins.push (.bool true)
  | false_ => exact twins.push (.bool false)
  | pop => exact twins.erase 1
  | equal => exact twins.equal
  | greater => exact twins.binaryNumbers twin.token fun _ _ => .bool _
  | less => exact twins.binaryNumbers twin.token fun _ _ => .bool _
  | add => exact paired.add twin.token
  | subtract => exact twins.binaryNumbers twin.token fun _ _ => .number _
  | multiply => exact twins.binaryNumbers twin.token fun _ _ => .number _
  | divide => exact twins.binaryNumbers twin.token fun _ _ => .number _
  | not_ => exact twins.not_
  | negate => exact twins.negate twin.token
  | print => exact twins.print
  | closeUpvalue => exact twins.closeUpvalueInstr twin
  | return_ => exact twins.return_ twin
  | inherit => exact twins.inherit twin.token
  | _ => exact .throw _ twins

theorem executeOperand (paired : VM.Paired pairing vm twinVm)
    (clock : platform.clock = twinPlatform.clock)
    (twin : activation.Twin pairing twinActivation) (index : Nat) (opcode : Opcode) :
    Alongside pairing (executeOperand platform activation index opcode)
      (Cpplox.executeOperand twinPlatform twinActivation index opcode) vm twinVm := by
  have twins := paired.twins
  have named {one two : Ptr → VmM N Unit}
      (rest : ∀ name twinName, pairing.pairs name twinName →
        Alongside pairing (one name) (two twinName) vm twinVm) :
      Alongside pairing (do one (← nameAt activation.chunk index))
        (do two (← nameAt twinActivation.chunk index)) vm twinVm :=
    .looks (twin.chunk.nameAt index) twins rest
  cases opcode with
  | constant => exact .looks (twin.chunk.constantAt index) twins fun _ _ value => twins.push value
  | getLocal =>
      simp only [Cpplox.executeOperand, twin.stackBeginIndex]
      exact twins.getLocal _
  | setLocal =>
      simp only [Cpplox.executeOperand, twin.stackBeginIndex]
      exact twins.setLocal _
  | getGlobal => exact named fun _ _ name => twins.getGlobal twin.token name
  | defineGlobal => exact named fun _ _ name => twins.defineGlobal name
  | setGlobal => exact named fun _ _ name => twins.setGlobal twin.token name
  | getUpvalue => exact twins.getUpvalueInstr twin.closure index
  | setUpvalue => exact twins.setUpvalueInstr twin.closure index
  | getProperty => exact named fun _ _ name => twins.getProperty twin.token name
  | setProperty => exact named fun _ _ name => twins.setProperty twin.token name
  | getSuper => exact named fun _ _ name => twins.getSuper twin.token name
  | call => exact paired.call clock twin.token index
  | class_ =>
      refine named fun _ _ name => .bind (twins.make (.class_ ?_)) fun _ _ _ _ _ _ made klass =>
        made.push (.class_ klass)
      exact ⟨name, .nil⟩
  | method => exact named fun _ _ name => twins.method name
  | _ => exact .throw _ twins

theorem execute [Number N] (paired : VM.Paired pairing vm twinVm)
    (clock : platform.clock = twinPlatform.clock)
    (twin : activation.Twin pairing twinActivation) (instr : Instr) :
    Alongside pairing (execute platform activation instr)
      (Cpplox.execute twinPlatform twinActivation instr)
      vm twinVm := by
  cases instr with
  | simple opcode => exact paired.executeSimple twin opcode
  | operand opcode index => exact paired.executeOperand clock twin index opcode
  | jump opcode distance => exact paired.twins.jump opcode distance
  | closure constant captures => exact paired.twins.closure twin constant captures
  | unexpected byte => exact paired.twins.unexpectedOpcode twin.token byte

theorem withFrames (paired : VM.Paired pairing vm twinVm) {callFrames twinCallFrames : List Frame}
    (same : List.Forall₂ (Frame.Twin pairing) callFrames twinCallFrames) :
    VM.Paired pairing { vm with callFrames } { twinVm with callFrames := twinCallFrames } where
  twins := paired.twins.withFrames same
  interned := ⟨paired.interned.ready, paired.interned.waiting, paired.interned.tables⟩
  twinInterned := ⟨paired.twinInterned.ready, paired.twinInterned.waiting, paired.twinInterned.tables⟩

/-- One iteration, whatever it executes and throws. -/
theorem step [Number N] (paired : VM.Paired pairing vm twinVm)
    (clock : platform.clock = twinPlatform.clock) :
    Together VM.Paired (fun _ _ _ => True) pairing (step platform)
      (Cpplox.step twinPlatform) vm twinVm := by
  refine paired.together follows_step follows_step (.get ?_)
  have twins := paired.twins
  cases frames : vm.callFrames with
  | nil =>
      have twinFrames := List.forall₂_nil_left_iff.mp (frames ▸ twins.callFrames)
      simp only [twinFrames]
      exact .pure twins trivial
  | cons frame callers =>
      obtain ⟨twinFrame, twinCallers, head, rest, twinFrames⟩ :=
        List.forall₂_cons_left_iff.mp (frames ▸ twins.callFrames)
      simp only [twinFrames]
      refine .looks (twins.getClosure head.closure) twins fun _ _ closure =>
        .looks (twins.getFunction closure.function) twins fun function twinFunction compiled => ?_
      simp only [compiled.chunk.bytecode, head.bytecodeIndex]
      split
      · exact .set le_rfl (twins.withFrames rest)
      cases decode (twinFunction.chunk.bytecode.drop twinFrame.bytecodeIndex) with
      | none => exact .throw _ twins
      | some decoded =>
          rcases some_or_none (alike_getElem? compiled.chunk.sourceMapTokens twinFrame.bytecodeIndex) with
            ⟨token, twinToken, found, twinFound, twin⟩ | ⟨none, twinNone⟩
          · simp only [found, twinFound]
            have here : Activation.Twin pairing
                ⟨frame.closure, frame.stackBeginIndex, function.chunk, token⟩
                ⟨twinFrame.closure, twinFrame.stackBeginIndex, twinFunction.chunk, twinToken⟩ :=
              ⟨head.closure, head.stackBeginIndex, compiled.chunk, twin⟩
            refine Together.bindFrom (.set le_rfl (paired.withFrames (.cons ?_ rest)))
              (fun _ _ _ reached => reached.twins) fun _ _ _ _ _ le advanced _ =>
                advanced.execute clock (here.mono le) decoded.1
            exact ⟨head.closure, rfl, head.stackBeginIndex⟩
          · simp only [none, twinNone]
            exact .throw _ twins

end VM.Paired

end Cpplox
