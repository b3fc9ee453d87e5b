import Cpplox.Ast.Assemble
import Cpplox.Ast.LowerSteps
import Cpplox.Ast.Parse

namespace Cpplox

open Structured

/-! What the compiler's emit functions do, in terms of lowering. -/

section Runs

variable {σ ε α β : Type}

theorem run_bind_ok {first : StateT σ (Except ε) α} {rest : α → StateT σ (Except ε) β} {before : σ}
    {result : β × σ} : (first >>= rest).run before = .ok result ↔
      ∃ value middle, first.run before = .ok (value, middle) ∧
        (rest value).run middle = .ok result := by
  rw [StateT.run_bind]
  cases first.run before with
  | error error => simp [bind, Except.bind]
  | ok pair => obtain ⟨value, middle⟩ := pair; simp [bind, Except.bind]

theorem run_lift_bind_ok {action : Except ε α} {rest : α → StateT σ (Except ε) β} {before : σ}
    {result : β × σ} : (liftM action >>= rest).run before = .ok result ↔
      ∃ value, action = .ok value ∧ (rest value).run before = .ok result := by
  cases action with
  | error error =>
      have fails : ((liftM (Except.error error : Except ε α) : StateT σ (Except ε) α) >>=
        rest).run before = .error error := rfl
      simp [fails]
  | ok made =>
      have continues : ((liftM (Except.ok made : Except ε α) : StateT σ (Except ε) α) >>=
        rest).run before = (rest made).run before := rfl
      simp [continues]

theorem run_lift_bind {action : Except ε α} {value : α} (runs : action = .ok value)
    (rest : α → StateT σ (Except ε) β) (before : σ) :
    (liftM action >>= rest).run before = (rest value).run before := by
  subst runs
  rfl

theorem run_ok_bind {first : StateT σ (Except ε) α} {value : α}
    {rest : α → StateT σ (Except ε) β} {before middle : σ}
    (runs : first.run before = .ok (value, middle)) :
    (first >>= rest).run before = (rest value).run middle := by
  rw [StateT.run_bind, runs]
  rfl

theorem run_get_bind (rest : σ → StateT σ (Except ε) β) (state : σ) :
    (get >>= rest).run state = (rest state).run state := rfl

end Runs

variable {N : Type} {α β : Type}

def constantsOf (function : FunctionChunk (Chunk.Compiled N)) :
    FunctionChunk (List (Constant N)) :=
  function.map (·.constants)

def LoweredFunction.Fits (function : LoweredFunction N) : Prop :=
  ∀ flat ∈ function.flats, (LoweredFlat.instr flat).Fits

/-- The function objects made are the lowered functions, assembled. -/
structure Assembles (made : List (Function (Constant N) Text))
    (functions : List (LoweredFunction N)) : Prop where
  made : made = functions.map LoweredFunction.assemble
  fits : ∀ function ∈ functions, function.Fits

theorem Assembles.snoc {made : List (Function (Constant N) Text)}
    {functions : List (LoweredFunction N)} {function : LoweredFunction N}
    (assembles : Assembles made functions) (fits : function.Fits) :
    Assembles (made ++ [function.assemble]) (functions ++ [function]) where
  made := by simp [assembles.made]
  fits := by
    intro other member
    rcases List.mem_append.mp member with inside | last
    · exact assembles.fits other inside
    · rw [List.mem_singleton.mp last]
      exact fits

/-- Lowering keeps what the compiler keeps, but for the bytes. -/
structure Matches (compiler : Compiler N) (lower : Lower N) : Prop where
  functions : Assembles compiler.gcHeap lower.functions
  scopeDepth : compiler.scopeDepth = lower.scopeDepth
  back : lower.back = constantsOf compiler.back
  enclosing : lower.enclosing = compiler.enclosing.map constantsOf
  scanned : compiler.tokenIter.Scanned

namespace Matches

variable {compiler : Compiler N} {lower : Lower N}

theorem constants (matched : Matches compiler lower) :
    compiler.back.chunk.constants = lower.back.chunk := by
  rw [matched.back]; rfl

theorem trackedLocals (matched : Matches compiler lower) :
    compiler.back.trackedLocals = lower.back.trackedLocals := by
  rw [matched.back]; rfl

theorem isClassInitMethod (matched : Matches compiler lower) :
    compiler.back.isClassInitMethod = lower.back.isClassInitMethod := by
  rw [matched.back]; rfl

end Matches

/-- From `before` to `after` the compiler emitted the bytes of `flats` into the current
chunk and nothing into the enclosing ones. -/
structure Emits (before : Compiler N) (flats : List LoweredFlat) (after : Compiler N)
    (lower : Lower N) : Prop where
  matched : Matches after lower
  bytecode : after.back.chunk.bytecode = before.back.chunk.bytecode ++ bytecodeOf flats
  sourceMap : after.back.chunk.sourceMapTokens =
    before.back.chunk.sourceMapTokens ++ sourceMapOf flats
  chunks : after.enclosing.map (·.chunk) = before.enclosing.map (·.chunk)
  fits : ∀ flat ∈ flats, (LoweredFlat.instr flat).Fits

namespace Emits

variable {before middle after : Compiler N} {l final : Lower N} {flats more : List LoweredFlat}

theorem refl (matched : Matches before l) : Emits before [] before l :=
  ⟨matched, by simp, by simp, rfl, by simp⟩

theorem trans (first : Emits before flats middle l) (second : Emits middle more after final) :
    Emits before (flats ++ more) after final where
  matched := second.matched
  bytecode := by rw [second.bytecode, first.bytecode, bytecodeOf_append, List.append_assoc]
  sourceMap := by rw [second.sourceMap, first.sourceMap, sourceMapOf_append, List.append_assoc]
  chunks := second.chunks.trans first.chunks
  fits := by
    intro flat member
    rcases List.mem_append.mp member with inside | inside
    · exact first.fits flat inside
    · exact second.fits flat inside

theorem length_bytecode (emits : Emits before flats after l) :
    after.back.chunk.bytecode.length =
      before.back.chunk.bytecode.length + extent layout flats := by
  rw [emits.bytecode, List.length_append, length_bytecodeOf]

end Emits

theorem run_current_bind (rest : Token → CompileM N β) (compiler : Compiler N) :
    (current >>= rest).run compiler = (rest compiler.tokenIter.token).run compiler := rfl

theorem Parse.run_current_bind (rest : Token → ParseM β) (iter : TokenIterator) :
    (Parse.current >>= rest).run iter = (rest iter.token).run iter := rfl

/-- `action` only reads tokens, as `parse` does. -/
structure Reads (parse : ParseM α) (before : Compiler N) (value : α) (after : Compiler N)
    (lower : Lower N) : Prop where
  parses : parse.run before.tokenIter = .ok (value, after.tokenIter)
  emits : Emits before [] after lower

variable {before after : Compiler N} {l : Lower N} {token : Token} {type expected : TokenType}

theorem Matches.withTokenIter (matched : Matches before l) {iter : TokenIterator}
    (scanned : iter.Scanned) : Matches { before with tokenIter := iter } l :=
  ⟨matched.functions, matched.scopeDepth, matched.back, matched.enclosing, scanned⟩

theorem Emits.ofTokenIter (matched : Matches before l) {iter : TokenIterator}
    (scanned : iter.Scanned) : Emits before [] { before with tokenIter := iter } l :=
  ⟨matched.withTokenIter scanned, by simp, by simp, rfl, by simp⟩

theorem next_reads (runs : next.run before = .ok (token, after)) (matched : Matches before l) :
    token = before.tokenIter.token ∧ Reads Parse.next before token after l := by
  obtain ⟨_, _, gets, runs⟩ := run_bind_ok.mp runs
  cases gets
  obtain ⟨iter, advances, runs⟩ := run_lift_bind_ok.mp runs
  cases runs
  refine ⟨rfl, ?_, .ofTokenIter matched (TokenIterator.advance_scanned advances)⟩
  rw [Parse.next, run_get_bind, run_lift_bind advances]
  rfl

theorem expectNext_reads (runs : (expectNext expected).run before = .ok (token, after))
    (matched : Matches before l) : Reads (Parse.expectNext expected) before token after l := by
  obtain ⟨first, middle, takes, runs⟩ := run_bind_ok.mp runs
  obtain ⟨_, ensures, runs⟩ := run_lift_bind_ok.mp runs
  cases runs
  obtain ⟨-, reads⟩ := next_reads takes matched
  refine ⟨?_, reads.emits⟩
  rw [Parse.expectNext, run_ok_bind reads.parses, run_lift_bind ensures]
  rfl

theorem expectCurrent_reads (runs : (expectCurrent expected).run before = .ok (token, after))
    (matched : Matches before l) : token = before.tokenIter.token ∧
      Reads (Parse.expectCurrent expected) before token after l := by
  rw [expectCurrent, run_current_bind] at runs
  obtain ⟨_, ensures, runs⟩ := run_lift_bind_ok.mp runs
  obtain ⟨same, reads⟩ := next_reads runs matched
  refine ⟨same, ?_, reads.emits⟩
  rw [Parse.expectCurrent, Parse.run_current_bind, run_lift_bind ensures]
  exact reads.parses

theorem advanceIfMatch_reads {found : Bool}
    (runs : (advanceIfMatch type).run before = .ok (found, after)) (matched : Matches before l) :
    Reads (Parse.advanceIfMatch type) before found after l := by
  rw [advanceIfMatch, run_current_bind] at runs
  split at runs
  next here =>
      obtain ⟨first, middle, takes, runs⟩ := run_bind_ok.mp runs
      cases runs
      obtain ⟨-, reads⟩ := next_reads takes matched
      refine ⟨?_, reads.emits⟩
      rw [Parse.advanceIfMatch, Parse.run_current_bind, if_pos here, run_ok_bind reads.parses]
      rfl
  next elsewhere =>
      cases runs
      refine ⟨?_, .refl matched⟩
      rw [Parse.advanceIfMatch, Parse.run_current_bind, if_neg elsewhere]
      rfl

/-- Nothing but the current chunk changes. -/
theorem emitWith_run {emission : Chunk.Compiled N → Except Error (Chunk.Compiled N)} {done : Unit}
    (runs : (emitWith emission).run before = .ok (done, after)) :
    ∃ chunk, emission before.back.chunk = .ok chunk ∧
      after = { before with back := { before.back with chunk } } := by
  rw [emitWith, run_get_bind] at runs
  obtain ⟨chunk, emits, runs⟩ := run_lift_bind_ok.mp runs
  cases runs
  exact ⟨chunk, emits, rfl⟩

/-- `action` emits `flats` and reads no token. -/
structure EmitsOnly (before : Compiler N) (flats : List LoweredFlat) (after : Compiler N)
    (lower : Lower N) : Prop where
  emits : Emits before flats after lower
  tokenIter : after.tokenIter = before.tokenIter

theorem EmitsOnly.ofChunk (matched : Matches before l) (chunk : Chunk.Compiled N)
    (flats : List LoweredFlat)
    (bytecode : chunk.bytecode = before.back.chunk.bytecode ++ bytecodeOf flats)
    (sourceMap : chunk.sourceMapTokens =
      before.back.chunk.sourceMapTokens ++ sourceMapOf flats)
    (fits : ∀ flat ∈ flats, (LoweredFlat.instr flat).Fits) :
    EmitsOnly before flats { before with back := { before.back with chunk } }
      (l.withConstants chunk.constants) where
  emits := {
    matched := ⟨matched.functions, matched.scopeDepth,
      by simp [Lower.withConstants, matched.back, constantsOf, FunctionChunk.map],
      matched.enclosing, matched.scanned⟩
    bytecode, sourceMap, fits
    chunks := rfl }
  tokenIter := rfl

variable {opcode : Opcode} {mapToken : SourceMapToken Text} {done : Unit}

theorem emit_emits (runs : (emit opcode mapToken).run before = .ok (done, after))
    (shape : opcode.shape = .simple) (matched : Matches before l) :
    EmitsOnly before ((l.simple opcode mapToken).flatten layout) after l := by
  obtain ⟨chunk, emits, rfl⟩ := emitWith_run runs
  cases emits
  have same : l.withConstants before.back.chunk.constants = l := by
    rw [matched.constants, Lower.withConstants_self]
  have made := EmitsOnly.ofChunk matched (before.back.chunk.emit opcode mapToken)
    ((l.simple opcode mapToken).flatten layout) rfl rfl
  simp only [Lower.simple, Code.flatten, List.mem_singleton, forall_eq] at made
  rw [← same]
  exact made shape

theorem EmitsOnly.trans {middle : Compiler N} {final : Lower N} {flats more : List LoweredFlat}
    (first : EmitsOnly before flats middle l) (second : EmitsOnly middle more after final) :
    EmitsOnly before (flats ++ more) after final :=
  ⟨first.emits.trans second.emits, second.tokenIter.trans first.tokenIter⟩

theorem EmitsOnly.refl (matched : Matches before l) : EmitsOnly before [] before l :=
  ⟨.refl matched, rfl⟩

/-- The bookkeeping changes and nothing is emitted. -/
theorem EmitsOnly.ofTracking {final : Lower N} (matched : Matches after final)
    (bytecode : after.back.chunk = before.back.chunk)
    (chunks : after.enclosing.map (·.chunk) = before.enclosing.map (·.chunk))
    (tokenIter : after.tokenIter = before.tokenIter) : EmitsOnly before [] after final :=
  ⟨⟨matched, by simp [bytecode], by simp [bytecode], chunks, by simp⟩, tokenIter⟩

theorem narrowByte_ok {value narrowed : Nat} (narrows : narrowByte value = .ok narrowed) :
    value = narrowed ∧ value < 256 := by
  unfold narrowByte at narrows
  split at narrows
  next small => cases narrows; exact ⟨rfl, small⟩
  next => cases narrows

theorem narrowShort_ok {value narrowed : Nat} (narrows : narrowShort value = .ok narrowed) :
    value = narrowed ∧ value < 65536 := by
  unfold narrowShort at narrows
  split at narrows
  next small => cases narrows; exact ⟨rfl, small⟩
  next => cases narrows

theorem bind_ok {first : Except Error α} {rest : α → Except Error β} {result : β} :
    (first >>= rest) = .ok result ↔ ∃ value, first = .ok value ∧ rest value = .ok result := by
  cases first <;> simp [bind, Except.bind]

/-- An opcode with one operand, after `constants` changed. -/
theorem operand_emits (matched : Matches before l) (constants : List (Constant N))
    (emission : Emission) {index : Nat} (instr : emission.instr = .operand opcode index)
    (fits : emission.instr.Fits) :
    EmitsOnly before [.plain emission]
      { before with back := { before.back with chunk :=
        (({ before.back.chunk with constants }.emitByte opcode.toByte emission.token).emitByte
          index emission.token) } }
      (l.withConstants constants) := by
  refine EmitsOnly.ofChunk matched (({ before.back.chunk with constants }.emitByte
    opcode.toByte emission.token).emitByte index emission.token) _ ?_ ?_ ?_
  · simp [Chunk.emitByte, bytecodeOf, LoweredFlat.instr, instr, Instr.encode]
  · simp [Chunk.emitByte, sourceMapOf, LoweredFlat.instr, LoweredFlat.token, instr]
  · simpa [LoweredFlat.instr] using fits

theorem emitIndex_emits {index : Nat}
    (runs : (emitIndex opcode index mapToken).run before = .ok (done, after))
    (shape : opcode.shape = .operand) (matched : Matches before l) (occurrence : Option Text) :
    index < 256 ∧ EmitsOnly before
      ((l.plain (.operand opcode index) mapToken occurrence).flatten layout) after l := by
  obtain ⟨chunk, emits, rfl⟩ := emitWith_run runs
  obtain ⟨narrowed, narrows, emits⟩ := bind_ok.mp emits
  obtain ⟨rfl, small⟩ := narrowByte_ok narrows
  cases emits
  refine ⟨small, ?_⟩
  have made := operand_emits matched before.back.chunk.constants
    { instr := .operand opcode index, token := mapToken, scopes := l.scopes, occurrence } rfl ⟨shape, small⟩
  rw [matched.constants, Lower.withConstants_self] at made
  rw [← matched.constants] at made
  exact made

theorem Matches.withLocals (matched : Matches before l) (trackedLocals : List TrackedLocal) :
    Matches { before with back := { before.back with trackedLocals } }
      (l.withLocals trackedLocals) :=
  ⟨matched.functions, matched.scopeDepth,
    by simp [Lower.withLocals, matched.back, constantsOf, FunctionChunk.map],
    matched.enclosing, matched.scanned⟩

theorem trackLocal_emits {initialized : Bool}
    (runs : (trackLocal mapToken initialized).run before = .ok (done, after))
    (matched : Matches before l) :
    ∃ code final, (Lower.trackLocal mapToken initialized).run l = some (code, final) ∧
      EmitsOnly before (code.flatten layout) after final := by
  rw [trackLocal, run_get_bind] at runs
  split at runs
  next => cases runs
  next fresh =>
      cases runs
      rw [matched.trackedLocals, matched.scopeDepth, Bool.not_eq_true] at fresh
      refine ⟨_, _, Lower.run_trackLocal fresh initialized, ?_⟩
      rw [Lower.flatten_declared, ← matched.trackedLocals]
      have tracked := matched.withLocals (l.newLocal mapToken initialized ::
        before.back.trackedLocals)
      rw [Lower.newLocal, ← matched.scopeDepth] at tracked ⊢
      exact .ofTracking tracked rfl rfl rfl

theorem popLocals_emits {depth : Nat} {locals : List TrackedLocal}
    (runs : (popLocals depth mapToken locals).run before = .ok (done, after))
    (matched : Matches before l) :
    ∃ code final, (Lower.popLocals depth mapToken locals).run l = some (code, final) ∧
      EmitsOnly before (code.flatten layout) after final := by
  induction locals generalizing before l with
  | nil =>
      cases runs
      exact ⟨_, _, rfl, .refl matched⟩
  | cons tracked rest ih =>
      rw [popLocals] at runs
      split at runs
      next here =>
          obtain ⟨_, popped, emits, runs⟩ := run_bind_ok.mp runs
          obtain ⟨_, _, drops, runs⟩ := run_bind_ok.mp runs
          cases drops
          have shape : (if tracked.isCaptured then Opcode.closeUpvalue else .pop).shape =
              .simple := by split <;> rfl
          have pops := emit_emits emits shape matched
          have dropped : EmitsOnly popped [] _ (l.withLocals rest) :=
            .ofTracking (pops.emits.matched.withLocals rest) rfl rfl rfl
          obtain ⟨code, final, lowers, rests⟩ := ih runs dropped.emits.matched
          refine ⟨.seq (l.simple (if tracked.isCaptured then .closeUpvalue else .pop) mapToken) code,
            final, ?_, by simpa [Code.flatten] using (pops.trans dropped).trans rests⟩
          have modifies : (modify fun lower : Lower N =>
              { lower with back := { lower.back with trackedLocals := rest } } :
                LowerM N Unit).run l = some ((), l.withLocals rest) := rfl
          simp only [Lower.popLocals, if_pos here, StateT.run_bind, Lower.run_emit,
            Option.bind_eq_bind, Option.bind_some, modifies, lowers]
          rfl
      next elsewhere =>
          cases runs
          refine ⟨.nil, l, ?_, .refl matched⟩
          rw [Lower.popLocals, if_neg elsewhere]
          rfl

theorem Matches.withScopeDepth (matched : Matches before l) (change : Nat → Nat) :
    Matches { before with scopeDepth := change before.scopeDepth }
      { l with scopeDepth := change l.scopeDepth } :=
  ⟨matched.functions, by simp [matched.scopeDepth], matched.back, matched.enclosing, matched.scanned⟩

theorem beginScope_emits (runs : beginScope.run before = .ok (done, after))
    (matched : Matches before l) : EmitsOnly before [] after l.enterScope := by
  cases runs
  exact .ofTracking (matched.withScopeDepth (· + 1)) rfl rfl rfl

theorem popTopScopeDepth_emits (runs : (popTopScopeDepth mapToken).run before = .ok (done, after))
    (matched : Matches before l) :
    ∃ code final, (Lower.popTopScopeDepth mapToken).run l = some (code, final) ∧
      EmitsOnly before (code.flatten layout) after final := by
  rw [popTopScopeDepth, run_get_bind, matched.trackedLocals, matched.scopeDepth] at runs
  obtain ⟨_, popped, pops, runs⟩ := run_bind_ok.mp runs
  cases runs
  obtain ⟨code, final, lowers, emits⟩ := popLocals_emits pops matched
  refine ⟨code, { final with scopeDepth := final.scopeDepth - 1 }, ?_, ?_⟩
  · simp only [Lower.popTopScopeDepth, StateT.run_bind, StateT.run_get, Option.pure_def,
      Option.bind_eq_bind, Option.bind_some, lowers]
    rfl
  · have left : EmitsOnly popped [] { popped with scopeDepth := popped.scopeDepth - 1 } _ :=
      .ofTracking (emits.emits.matched.withScopeDepth (· - 1)) rfl rfl rfl
    simpa using emits.trans left

/-- A jump whose distance is not known yet. -/
theorem emitJump_emits {jumpBeginIndex : Nat} (flat : Nat → LoweredFlat)
    (runs : (emitJump opcode mapToken).run before = .ok (jumpBeginIndex, after))
    (instr : ∀ distance, LoweredFlat.instr (flat distance) = .jump opcode distance)
    (tokens : ∀ distance, LoweredFlat.token (flat distance) = mapToken)
    (shape : opcode.shape = .jump) (matched : Matches before l) :
    jumpBeginIndex = before.back.chunk.bytecode.length + 3 ∧
      EmitsOnly before [flat 0] after l := by
  cases runs
  refine ⟨by simp [Chunk.emitByte], ?_⟩
  have made := EmitsOnly.ofChunk matched (before.back.chunk.emitJump opcode mapToken).1
    [flat 0]
    (by simp [Chunk.emitJump, Chunk.emitByte, bytecodeOf, instr, Instr.encode])
    (by simp [Chunk.emitJump, Chunk.emitByte, sourceMapOf, instr, tokens])
    (by simp [instr, Instr.Fits, shape])
  have constants : (before.back.chunk.emitJump opcode mapToken).1.constants = l.back.chunk :=
    matched.constants
  rw [constants, Lower.withConstants_self] at made
  exact made

theorem set_set_append (earlier later : List Nat) (first high low newHigh newLow : Nat) :
    ((earlier ++ first :: high :: low :: later).set (earlier.length + 1) newHigh).set
      (earlier.length + 2) newLow = earlier ++ first :: newHigh :: newLow :: later := by
  simp

/-- `to_next_opcode` gives the jump the length of what was emitted since. -/
theorem toNextOpcode_emits {start : Compiler N} {jumpBeginIndex : Nat} (flat : Nat → LoweredFlat)
    {earlier later : List LoweredFlat}
    (runs : (toNextOpcode jumpBeginIndex).run before = .ok (done, after))
    (instr : ∀ distance, LoweredFlat.instr (flat distance) = .jump opcode distance)
    (tokens : ∀ distance, LoweredFlat.token (flat distance) = mapToken)
    (begins : jumpBeginIndex = start.back.chunk.bytecode.length + extent layout earlier + 3)
    (emitted : Emits start (earlier ++ flat 0 :: later) before l) :
    Emits start (earlier ++ flat (extent layout later) :: later) after l ∧
      after.tokenIter = before.tokenIter := by
  obtain ⟨chunk, emits, rfl⟩ := emitWith_run runs
  obtain ⟨narrowed, narrows, emits⟩ := bind_ok.mp emits
  obtain ⟨rfl, small⟩ := narrowShort_ok narrows
  cases emits
  have length := emitted.length_bytecode
  have size : (flat 0).size layout = 3 := by rw [LoweredFlat.size_eq, instr]; rfl
  simp only [extent_append, extent_cons, size] at length
  have distance : before.back.chunk.bytecode.length - jumpBeginIndex = extent layout later := by omega
  have shape : opcode.shape = .jump := by
    have fits := emitted.fits (flat 0) (by simp)
    rw [instr] at fits
    exact fits.1
  rw [distance] at small narrows ⊢
  refine ⟨⟨?_, ?_, ?_, emitted.chunks, ?_⟩, rfl⟩
  · exact ⟨emitted.matched.functions, emitted.matched.scopeDepth, emitted.matched.back,
      emitted.matched.enclosing, emitted.matched.scanned⟩
  · have begin_ : jumpBeginIndex =
        (start.back.chunk.bytecode ++ bytecodeOf earlier).length + 3 := by
      simp [begins, length_bytecodeOf]
    have split : before.back.chunk.bytecode = (start.back.chunk.bytecode ++ bytecodeOf earlier) ++
        opcode.toByte :: 0 :: 0 :: bytecodeOf later := by
      rw [emitted.bytecode]
      simp [bytecodeOf_cons, instr, Instr.encode]
    have high : jumpBeginIndex - 2 =
        (start.back.chunk.bytecode ++ bytecodeOf earlier).length + 1 := by omega
    have low : jumpBeginIndex - 1 =
        (start.back.chunk.bytecode ++ bytecodeOf earlier).length + 2 := by omega
    dsimp only
    rw [split, high, low, set_set_append]
    simp [bytecodeOf_cons, instr, Instr.encode]
  · rw [emitted.sourceMap]
    simp [sourceMapOf_cons, instr, tokens]
  · intro other member
    simp only [List.mem_append, List.mem_cons] at member
    rcases member with inside | rfl | inside
    · exact emitted.fits other (by simp [inside])
    · rw [instr]
      exact ⟨shape, small⟩
    · exact emitted.fits other (by simp [inside])

theorem emitLoop_ok {K L : Type} {chunk made : Chunk K L} {mapToken : SourceMapToken L}
    {loopBegin distance : Nat}
    (back : distance = chunk.bytecode.length + 3 - loopBegin)
    (emits : chunk.emitLoop loopBegin mapToken = .ok made) :
    distance < 65536 ∧ made = { chunk with
      bytecode := chunk.bytecode ++ [Opcode.loop.toByte, distance / 256, distance % 256]
      sourceMapTokens := chunk.sourceMapTokens ++ [mapToken, mapToken, mapToken] } := by
  have length : (((chunk.emitByte Opcode.loop.toByte mapToken).emitByte 0 mapToken).emitByte 0
      mapToken).bytecode.length = chunk.bytecode.length + 3 := by
    simp [Chunk.emitByte]
  unfold Chunk.emitLoop at emits
  obtain ⟨narrowed, narrows, emits⟩ := bind_ok.mp emits
  obtain ⟨rfl, small⟩ := narrowShort_ok narrows
  cases emits
  rw [length, ← back] at small ⊢
  refine ⟨small, ?_⟩
  have high : chunk.bytecode.length + 3 - 2 = chunk.bytecode.length + 1 := by omega
  have low : chunk.bytecode.length + 3 - 1 = chunk.bytecode.length + 2 := by omega
  rw [high, low]
  have sets := set_set_append chunk.bytecode [] Opcode.loop.toByte 0 0 (distance / 256)
    (distance % 256)
  simp only [Chunk.emitByte, List.append_assoc, List.cons_append, List.nil_append, sets]

theorem emitLoop_emits {loopBegin : Nat} (tag : JumpTag) (tagged : tag.token = mapToken)
    (runs : (emitLoop loopBegin mapToken).run before = .ok (done, after))
    (matched : Matches before l) :
    EmitsOnly before [.loop tag (before.back.chunk.bytecode.length + 3 - loopBegin)]
      after l := by
  subst tagged
  obtain ⟨chunk, emits, rfl⟩ := emitWith_run runs
  obtain ⟨small, rfl⟩ := emitLoop_ok rfl emits
  have made := EmitsOnly.ofChunk matched
    { before.back.chunk with
      bytecode := before.back.chunk.bytecode ++ [Opcode.loop.toByte,
        (before.back.chunk.bytecode.length + 3 - loopBegin) / 256,
        (before.back.chunk.bytecode.length + 3 - loopBegin) % 256]
      sourceMapTokens := before.back.chunk.sourceMapTokens ++ [tag.token, tag.token, tag.token] }
    [.loop tag (before.back.chunk.bytecode.length + 3 - loopBegin)]
    (by simp [bytecodeOf, LoweredFlat.instr, Instr.encode])
    (by simp [sourceMapOf, LoweredFlat.instr, LoweredFlat.token, List.replicate])
    (by simpa [LoweredFlat.instr, Instr.Fits] using ⟨rfl, small⟩)
  have constants : before.back.chunk.constants = l.back.chunk := matched.constants
  dsimp only at made
  rw [constants, Lower.withConstants_self] at made
  rw [← constants] at made
  exact made

/-- The compiler in front of the body of a new function. -/
def Compiler.enterFunction (compiler : Compiler N) (isClassInitMethod : Bool) : Compiler N :=
  { compiler with
    scopeDepth := compiler.scopeDepth + 1
    back := { chunk := {}, isClassInitMethod }
    enclosing := compiler.back :: compiler.enclosing }

theorem Matches.enterFunction (matched : Matches before l) (isClassInitMethod : Bool) :
    Matches (before.enterFunction isClassInitMethod) (l.enterFunction isClassInitMethod) :=
  ⟨matched.functions, by simp [Compiler.enterFunction, Lower.enterFunction, matched.scopeDepth], rfl,
    by simp [Compiler.enterFunction, Lower.enterFunction, matched.back, matched.enclosing],
    matched.scanned⟩

theorem inFunction_run {isClassInitMethod : Bool} {body : CompileM N α} {result : α}
    {compiled : FunctionChunk (Chunk.Compiled N)}
    (runs : (inFunction isClassInitMethod body).run before = .ok ((result, compiled), after)) :
    ∃ inner outer rest, body.run (before.enterFunction isClassInitMethod) = .ok (result, inner) ∧
      inner.enclosing = outer :: rest ∧ compiled = inner.back ∧
      after = { inner with
        scopeDepth := inner.scopeDepth - 1, back := outer, enclosing := rest } := by
  obtain ⟨_, _, enters, runs⟩ := run_bind_ok.mp runs
  cases enters
  obtain ⟨value, inner, runsBody, runs⟩ := run_bind_ok.mp runs
  rw [run_get_bind] at runs
  cases functions : inner.enclosing with
  | nil => rw [functions] at runs; cases runs
  | cons outer rest =>
      rw [functions] at runs
      cases runs
      exact ⟨inner, outer, rest, runsBody, functions, rfl, rfl⟩

/-- What a body emits ends up in the chunk of its function, and nothing in the chunk of
the enclosing one. -/
theorem leaveFunction_emits {isClassInitMethod : Bool} {inner : Compiler N} {final : Lower N}
    {flats : List LoweredFlat} {outer : FunctionChunk (Chunk.Compiled N)}
    {rest : List (FunctionChunk (Chunk.Compiled N))}
    (emitted : Emits (before.enterFunction isClassInitMethod) flats inner final)
    (functions : inner.enclosing = outer :: rest) :
    ∃ l'', final.leaveFunction = some (constantsOf inner.back, l'') ∧
      inner.back.chunk.bytecode = bytecodeOf flats ∧
      inner.back.chunk.sourceMapTokens = sourceMapOf flats ∧
      Emits before [] { inner with
        scopeDepth := inner.scopeDepth - 1, back := outer, enclosing := rest } l'' := by
  have lowered : final.enclosing = constantsOf outer :: rest.map constantsOf := by
    rw [emitted.matched.enclosing, functions]
    rfl
  have chunks := emitted.chunks
  simp only [functions, Compiler.enterFunction, List.map_cons, List.cons.injEq] at chunks
  refine ⟨{ final with
      scopeDepth := final.scopeDepth - 1, back := constantsOf outer,
      enclosing := rest.map constantsOf }, ?_, by simpa [Compiler.enterFunction] using emitted.bytecode,
    by simpa [Compiler.enterFunction] using emitted.sourceMap, ?_, by simp [chunks.1], by simp [chunks.1], chunks.2, by simp⟩
  · simp only [Lower.leaveFunction, lowered, emitted.matched.back]
  · exact ⟨emitted.matched.functions, by simp [emitted.matched.scopeDepth], rfl, rfl,
      emitted.matched.scanned⟩

theorem emitTrackedUpvalues_ok {K L : Type} {chunk made : Chunk K L} {mapToken : SourceMapToken L}
    {captures : List TrackedUpvalue}
    (emits : chunk.emitTrackedUpvalues captures mapToken = .ok made) :
    (∀ capture ∈ captures, capture.index < 256) ∧ made = { chunk with
      bytecode := chunk.bytecode ++ captures.flatMap Instr.encodeCapture
      sourceMapTokens := chunk.sourceMapTokens ++ List.replicate (2 * captures.length) mapToken } := by
  induction captures generalizing chunk with
  | nil => cases emits; simp
  | cons capture rest ih =>
      cases capture with
      | upvalueIndex index | upUpvalueIndex index =>
          simp only [Chunk.emitTrackedUpvalues] at emits
          obtain ⟨narrowed, narrows, emits⟩ := bind_ok.mp emits
          obtain ⟨rfl, small⟩ := narrowByte_ok narrows
          obtain ⟨others, rfl⟩ := ih emits
          refine ⟨?_, ?_⟩
          · intro other member
            rcases List.mem_cons.mp member with rfl | inside
            · exact small
            · exact others other inside
          · simp [Chunk.emitByte, Instr.encodeCapture, Nat.mul_add, List.replicate_succ]

theorem emitAll_emits {opcodes : List Opcode}
    (runs : (emitAll opcodes mapToken).run before = .ok (done, after))
    (shapes : ∀ opcode ∈ opcodes, opcode.shape = .simple) (matched : Matches before l) :
    EmitsOnly before ((l.simples mapToken opcodes).flatten layout) after l := by
  induction opcodes generalizing before with
  | nil => cases runs; exact .refl matched
  | cons opcode rest ih =>
      obtain ⟨_, middle, emits, runs⟩ := run_bind_ok.mp runs
      have first := emit_emits emits (shapes opcode (by simp)) matched
      exact first.trans (ih runs (fun other member => shapes other (by simp [member]))
        first.emits.matched)

theorem emitDefaultReturnValue_emits
    (runs : (emitDefaultReturnValue mapToken).run before = .ok (done, after))
    (matched : Matches before l) :
    ∃ code final, (Lower.emitDefaultReturnValue mapToken).run l = some (code, final) ∧
      EmitsOnly before (code.flatten layout) after final := by
  rw [emitDefaultReturnValue, run_get_bind, matched.isClassInitMethod] at runs
  simp only [Lower.emitDefaultReturnValue, StateT.run_bind, StateT.run_get, Option.pure_def,
    Option.bind_eq_bind, Option.bind_some]
  split at runs
  next initializer =>
      rw [if_pos initializer]
      obtain ⟨small, emits⟩ := emitIndex_emits runs rfl matched none
      exact ⟨_, _, Lower.run_emitIndex small none, emits⟩
  next ordinary =>
      rw [if_neg ordinary]
      exact ⟨_, _, Lower.run_emit l .nil mapToken, emit_emits runs rfl matched⟩

theorem trackDeclared_emits {initialized : Bool}
    (runs : (optionally (before.scopeDepth > 0) (trackLocal mapToken initialized)).run before =
      .ok (done, after)) (matched : Matches before l) :
    ∃ code final, (Lower.trackDeclared mapToken initialized).run l = some (code, final) ∧
      EmitsOnly before (code.flatten layout) after final := by
  rw [matched.scopeDepth, optionally] at runs
  simp only [Lower.trackDeclared, StateT.run_bind, StateT.run_get, Option.pure_def,
    Option.bind_eq_bind, Option.bind_some]
  by_cases inside : l.scopeDepth > 0
  · rw [if_pos (decide_eq_true inside)] at runs
    rw [if_pos inside]
    exact trackLocal_emits runs matched
  · rw [if_neg (by simpa using inside)] at runs
    cases runs
    rw [if_neg inside]
    exact ⟨.nil, l, rfl, .refl matched⟩

theorem initializeBack_emits (runs : initializeBack.run before = .ok (done, after))
    (matched : Matches before l) :
    ∃ code final, Lower.initializeBack.run l = some (code, final) ∧
      EmitsOnly before (code.flatten layout) after final := by
  cases runs
  simp only [Lower.initializeBack, StateT.run_bind, StateT.run_get, Option.pure_def,
    Option.bind_eq_bind, Option.bind_some, matched.trackedLocals]
  cases locals : l.back.trackedLocals with
  | nil =>
      refine ⟨.nil, l, rfl, .ofTracking ?_ rfl rfl rfl⟩
      have same := matched.withLocals []
      have unchanged : l.withLocals [] = l := by rw [Lower.withLocals, ← locals]
      rwa [unchanged] at same
  | cons tracked rest =>
      exact ⟨_, _, rfl, .ofTracking (matched.withLocals _) rfl rfl rfl⟩

theorem initializeDeclared_emits
    (runs : (optionally (before.scopeDepth > 0) initializeBack).run before = .ok (done, after))
    (matched : Matches before l) :
    ∃ code final, Lower.initializeDeclared.run l = some (code, final) ∧
      EmitsOnly before (code.flatten layout) after final := by
  rw [matched.scopeDepth, optionally] at runs
  simp only [Lower.initializeDeclared, StateT.run_bind, StateT.run_get, Option.pure_def,
    Option.bind_eq_bind, Option.bind_some]
  by_cases inside : l.scopeDepth > 0
  · rw [if_pos (decide_eq_true inside)] at runs
    rw [if_pos inside]
    exact initializeBack_emits runs matched
  · rw [if_neg (by simpa using inside)] at runs
    cases runs
    rw [if_neg inside]
    exact ⟨.nil, l, rfl, .refl matched⟩

theorem pushPlaceholder_emits
    (runs : (optionally (before.scopeDepth = 0) (modify fun compiler : Compiler N =>
      { compiler with back := { compiler.back with
          trackedLocals := { name := [] } :: compiler.back.trackedLocals } })).run before =
      .ok (done, after)) (matched : Matches before l) :
    ∃ code final, Lower.pushPlaceholder.run l = some (code, final) ∧
      EmitsOnly before (code.flatten layout) after final := by
  rw [matched.scopeDepth, optionally] at runs
  simp only [Lower.pushPlaceholder, StateT.run_bind, StateT.run_get, Option.pure_def,
    Option.bind_eq_bind, Option.bind_some]
  by_cases top : l.scopeDepth = 0
  · rw [if_pos (decide_eq_true top)] at runs
    rw [if_pos top]
    cases runs
    rw [← matched.trackedLocals]
    exact ⟨_, _, rfl, .ofTracking (matched.withLocals _) rfl rfl rfl⟩
  · rw [if_neg (by simpa using top)] at runs
    cases runs
    rw [if_neg top]
    exact ⟨.nil, l, rfl, .refl matched⟩

theorem popPlaceholder_emits
    (runs : (optionally (before.scopeDepth = 0) (modify fun compiler : Compiler N =>
      { compiler with back := { compiler.back with
          trackedLocals := compiler.back.trackedLocals.tail } })).run before = .ok (done, after))
    (matched : Matches before l) :
    ∃ code final, Lower.popPlaceholder.run l = some (code, final) ∧
      EmitsOnly before (code.flatten layout) after final := by
  rw [matched.scopeDepth, optionally] at runs
  simp only [Lower.popPlaceholder, StateT.run_bind, StateT.run_get, Option.pure_def,
    Option.bind_eq_bind, Option.bind_some]
  by_cases top : l.scopeDepth = 0
  · rw [if_pos (decide_eq_true top)] at runs
    rw [if_pos top]
    cases runs
    rw [← matched.trackedLocals]
    exact ⟨_, _, rfl, .ofTracking (matched.withLocals _) rfl rfl rfl⟩
  · rw [if_neg (by simpa using top)] at runs
    cases runs
    rw [if_neg top]
    exact ⟨.nil, l, rfl, .refl matched⟩

theorem endSuperclass_emits {superclass : Token}
    (runs : (endSuperclass superclass).run before = .ok (done, after)) (matched : Matches before l) :
    ∃ code final, (Lower.endSuperclass superclass).run l = some (code, final) ∧
      EmitsOnly before (code.flatten layout) after final := by
  obtain ⟨_, popped, pops, runs⟩ := run_bind_ok.mp runs
  obtain ⟨_, closed, closes, runs⟩ := run_bind_ok.mp runs
  rw [run_get_bind] at runs
  have pop := emit_emits pops rfl matched
  obtain ⟨scope, l₁, lowersScope, scopes⟩ := popTopScopeDepth_emits closes pop.emits.matched
  obtain ⟨last, l₂, lowers, placeholder⟩ := popPlaceholder_emits runs scopes.emits.matched
  refine ⟨.seq (l.simple .pop (sourceMapToken superclass)) (.seq scope last), l₂, ?_, ?_⟩
  · simp [Lower.endSuperclass, Lower.run_emit, lowersScope, lowers]
  · simpa [Code.flatten] using (pop.trans scopes).trans placeholder

variable [Number N]

theorem emitWithConstant_ok {K L F : Type} [Constants K L F] {chunk made : Chunk K L} {value : K}
    {mapToken : SourceMapToken L}
    (emits : chunk.emitWithConstant opcode value mapToken = .ok made) :
    (insertConstant chunk.constants value).1 < 256 ∧
      made = ({ chunk with constants := (insertConstant chunk.constants value).2 }.emitByte
        opcode.toByte mapToken).emitByte (insertConstant chunk.constants value).1 mapToken := by
  unfold Chunk.emitWithConstant at emits
  obtain ⟨narrowed, narrows, emits⟩ := bind_ok.mp emits
  obtain ⟨rfl, small⟩ := narrowByte_ok narrows
  cases emits
  exact ⟨small, rfl⟩

theorem emitWithConstant_emits {value : Constant N}
    (runs : (emitWith fun chunk => chunk.emitWithConstant opcode value mapToken).run before =
      .ok (done, after))
    (shape : opcode.shape = .operand) (matched : Matches before l) (occurrence : Option Text) :
    ∃ code final, (Lower.emitWithConstant opcode value mapToken occurrence).run l = some (code, final) ∧
      EmitsOnly before (code.flatten layout) after final := by
  obtain ⟨chunk, emits, rfl⟩ := emitWith_run runs
  obtain ⟨small, rfl⟩ := emitWithConstant_ok emits
  rw [matched.constants] at small ⊢
  exact ⟨_, _, Lower.run_emitWithConstant small occurrence,
    operand_emits matched _ _ rfl ⟨shape, small⟩⟩

theorem emitName_emits {name : Text}
    (runs : (emitName opcode name mapToken).run before = .ok (done, after))
    (shape : opcode.shape = .operand) (matched : Matches before l) (occurrence : Option Text) :
    ∃ code final, (Lower.emitName opcode name mapToken occurrence).run l = some (code, final) ∧
      EmitsOnly before (code.flatten layout) after final :=
  emitWithConstant_emits runs shape matched occurrence

theorem emitConstant_emits {value : Constant N}
    (runs : (emitConstant value mapToken).run before = .ok (done, after))
    (matched : Matches before l) :
    ∃ code final, (Lower.emitConstant value mapToken).run l = some (code, final) ∧
      EmitsOnly before (code.flatten layout) after final :=
  emitWithConstant_emits runs rfl matched none

theorem emitGetterSetter_emits {localOpcode upvalueOpcode globalOpcode : Opcode}
    (runs : (emitGetterSetter localOpcode upvalueOpcode globalOpcode mapToken).run before =
      .ok (done, after))
    (localShape : localOpcode.shape = .operand) (upvalueShape : upvalueOpcode.shape = .operand)
    (globalShape : globalOpcode.shape = .operand) (named : mapToken.lexeme ≠ [])
    (matched : Matches before l) :
    ∃ code final, (Lower.emitGetterSetter localOpcode upvalueOpcode globalOpcode mapToken).run l =
        some (code, final) ∧ EmitsOnly before (code.flatten layout) after final := by
  rw [emitGetterSetter, run_get_bind, matched.trackedLocals] at runs
  have lowers : (Lower.emitGetterSetter localOpcode upvalueOpcode globalOpcode mapToken).run l = _ :=
    rfl
  simp only [Lower.emitGetterSetter, StateT.run_bind, StateT.run_get, Option.pure_def,
    Option.bind_eq_bind, Option.bind_some, if_neg named]
  cases found : findLocal l.back.trackedLocals mapToken.lexeme with
  | some here =>
      obtain ⟨index, tracked⟩ := here
      rw [found] at runs
      dsimp only at runs ⊢
      split at runs
      next initialized =>
          obtain ⟨small, emits⟩ := emitIndex_emits runs localShape matched (some mapToken.lexeme)
          rw [if_pos initialized]
          exact ⟨_, _, Lower.run_emitIndex small _, emits⟩
      next => cases runs
  | none =>
      rw [found] at runs
      dsimp only at runs ⊢
      have same := trackUpvalue_map (·.constants) mapToken.lexeme before.back before.enclosing
      cases tracks : trackUpvalue mapToken.lexeme before.back before.enclosing with
      | none =>
          rw [tracks] at runs same
          have lowered : trackUpvalue mapToken.lexeme l.back l.enclosing = none := by
            rw [matched.back, matched.enclosing]; exact same
          rw [lowered]
          exact emitName_emits runs globalShape matched (some mapToken.lexeme)
      | some result =>
          obtain ⟨index, back, enclosing⟩ := result
          rw [tracks] at runs same
          have lowered : trackUpvalue mapToken.lexeme l.back l.enclosing =
              some (index, constantsOf back, enclosing.map constantsOf) := by
            rw [matched.back, matched.enclosing]; exact same
          obtain ⟨chunk, chunks⟩ := trackUpvalue_chunks tracks
          obtain ⟨_, middle, sets, runs⟩ := run_bind_ok.mp runs
          cases sets
          have tracked : EmitsOnly before [] { before with back, enclosing }
              { l with back := constantsOf back, enclosing := enclosing.map constantsOf } :=
            .ofTracking ⟨matched.functions, matched.scopeDepth, rfl, rfl, matched.scanned⟩
              chunk chunks rfl
          obtain ⟨small, emits⟩ := emitIndex_emits runs upvalueShape tracked.emits.matched
            (some mapToken.lexeme)
          rw [lowered]
          exact ⟨_, _, Lower.run_emitIndex small _, tracked.trans emits⟩

theorem emitGetter_emits (runs : (emitGetter mapToken).run before = .ok (done, after))
    (named : mapToken.lexeme ≠ []) (matched : Matches before l) :
    ∃ code final, (Lower.emitGetter mapToken).run l = some (code, final) ∧
      EmitsOnly before (code.flatten layout) after final :=
  emitGetterSetter_emits runs rfl rfl rfl named matched

theorem emitSetter_emits (runs : (emitSetter mapToken).run before = .ok (done, after))
    (named : mapToken.lexeme ≠ []) (matched : Matches before l) :
    ∃ code final, (Lower.emitSetter mapToken).run l = some (code, final) ∧
      EmitsOnly before (code.flatten layout) after final :=
  emitGetterSetter_emits runs rfl rfl rfl named matched

theorem emitClosure_ok {K L F : Type} [Constants K L F] {chunk made : Chunk K L} {function : F}
    {mapToken : SourceMapToken L} {captures : List TrackedUpvalue} {index : Nat} {constants : List K}
    (inserts : insertConstant chunk.constants (Constants.function function) = (index, constants))
    (emits : chunk.emitClosure function captures mapToken = .ok made) :
    (Instr.closure index captures).Fits ∧ made =
      { bytecode := chunk.bytecode ++ (Instr.closure index captures).encode
        constants
        sourceMapTokens := chunk.sourceMapTokens ++
          List.replicate (Instr.closure index captures).size mapToken } := by
  unfold Chunk.emitClosure at emits
  rw [inserts] at emits
  obtain ⟨narrowed, narrows, emits⟩ := bind_ok.mp emits
  obtain ⟨rfl, small⟩ := narrowByte_ok narrows
  obtain ⟨narrowed, narrows, emits⟩ := bind_ok.mp emits
  obtain ⟨rfl, few⟩ := narrowByte_ok narrows
  obtain ⟨indices, rfl⟩ := emitTrackedUpvalues_ok emits
  refine ⟨⟨small, few, indices⟩, ?_⟩
  have size : (Instr.closure index captures).size = 2 * captures.length + 1 + 1 + 1 := by
    rw [Instr.size_closure]; omega
  simp [Chunk.emitByte, Instr.encode, size, List.replicate_succ]

/-- Making a function object and emitting its closure. -/
theorem emitFunction_emits {name : Text} {compiled : Nat × FunctionChunk (Chunk.Compiled N)}
    {function : LoweredFunction N}
    (runs : (emitFunction name compiled mapToken).run before = .ok (done, after))
    (assembled : function.assemble = ⟨name, compiled.1, compiled.2.chunk⟩)
    (captures : function.captures = compiled.2.trackedUpvalues) (functionFits : function.Fits)
    (matched : Matches before l) (leading : Bool) :
    ∃ code final, (Lower.emitFunction function mapToken leading).run l = some (code, final) ∧
      EmitsOnly before (code.flatten layout) after final := by
  obtain ⟨index, middle, makes, runs⟩ := run_bind_ok.mp runs
  cases makes
  have count : before.gcHeap.length = l.functions.length := by simp [matched.functions.made]
  let made : Lower N := { l with functions := l.functions ++ [function] }
  have matchedMade : Matches
      { before with gcHeap := before.gcHeap ++ [⟨name, compiled.1, compiled.2.chunk⟩] } made :=
    ⟨assembled ▸ matched.functions.snoc functionFits, matched.scopeDepth, matched.back,
      matched.enclosing, matched.scanned⟩
  obtain ⟨chunk, emits, rfl⟩ := emitWith_run runs
  cases inserts : insertConstant l.back.chunk (.function l.functions.length) with
  | mk index constants =>
      rw [← matched.constants, ← count] at inserts
      obtain ⟨fits, rfl⟩ := emitClosure_ok inserts emits
      rw [matched.constants, count] at inserts
      rw [← captures] at fits ⊢
      let emission : Emission := {
        instr := .closure index function.captures, token := mapToken
        scopes := (made.withConstants constants).scopes, leading }
      refine ⟨.plain emission, made.withConstants constants, ?_, ?_⟩
      · have inserted : (Lower.constant (.function l.functions.length)).run made =
            some (index, made.withConstants constants) := by
          rw [Lower.run_constant, Lower.withConstant]
          simp only [made, inserts]
        simp only [Lower.emitFunction, StateT.run_bind, StateT.run_get, StateT.run_set,
          Option.pure_def, Option.bind_eq_bind, Option.bind_some]
        change ((Lower.constant (.function l.functions.length)).run made).bind _ = _
        rw [inserted, Option.bind_some, if_pos fits]
        rfl
      · have added : EmitsOnly before [] _ made := .ofTracking matchedMade rfl rfl rfl
        exact added.trans (EmitsOnly.ofChunk matchedMade _ _
            (by simp [bytecodeOf, LoweredFlat.instr, emission])
            (by simp [sourceMapOf, LoweredFlat.instr, LoweredFlat.token, emission])
            (by simpa [LoweredFlat.instr, Code.flatten, emission] using fits))

theorem defineGlobalAtTop_emits {name : Text}
    (runs : (defineGlobalAtTop name mapToken).run before = .ok (done, after))
    (matched : Matches before l) :
    ∃ code final, (Lower.defineGlobalAtTop name mapToken).run l = some (code, final) ∧
      EmitsOnly before (code.flatten layout) after final := by
  rw [defineGlobalAtTop, run_get_bind, matched.scopeDepth, optionally] at runs
  simp only [Lower.defineGlobalAtTop, StateT.run_bind, StateT.run_get, Option.pure_def,
    Option.bind_eq_bind, Option.bind_some]
  by_cases top : l.scopeDepth = 0
  · rw [if_pos (decide_eq_true top)] at runs
    rw [if_pos top]
    exact emitName_emits runs rfl matched none
  · rw [if_neg (by simpa using top)] at runs
    cases runs
    rw [if_neg top]
    exact ⟨.nil, l, rfl, .refl matched⟩

theorem beginSuperclass_emits {name superclass : Token}
    (runs : (beginSuperclass name superclass).run before = .ok (done, after))
    (named : superclass.lexeme ≠ []) (matched : Matches before l) :
    ∃ code final, (Lower.beginSuperclass name superclass).run l = some (code, final) ∧
      EmitsOnly before (code.flatten layout) after final := by
  rw [beginSuperclass] at runs
  dsimp only at runs
  split at runs
  next => cases runs
  next other =>
      rw [run_get_bind] at runs
      obtain ⟨_, c₁, pushes, runs⟩ := run_bind_ok.mp runs
      obtain ⟨_, c₂, begins, runs⟩ := run_bind_ok.mp runs
      obtain ⟨_, c₃, gets, runs⟩ := run_bind_ok.mp runs
      obtain ⟨_, c₄, tracks, runs⟩ := run_bind_ok.mp runs
      obtain ⟨placeholder, l₁, lowersPlaceholder, first⟩ := pushPlaceholder_emits pushes matched
      have scope := beginScope_emits begins first.emits.matched
      obtain ⟨getter, l₂, lowersGetter, second⟩ := emitGetter_emits gets named scope.emits.matched
      obtain ⟨declared, l₃, lowersTrack, third⟩ := trackLocal_emits tracks second.emits.matched
      have inherit := emit_emits runs rfl third.emits.matched
      refine ⟨.seq placeholder (.seq getter (.seq declared
        (l₃.simple .inherit (sourceMapToken superclass)))), l₃, ?_, ?_⟩
      · simp only [Lower.beginSuperclass, if_neg other, StateT.run_bind, lowersPlaceholder,
          Lower.run_beginScope, lowersGetter, lowersTrack, Lower.run_emit, Option.bind_eq_bind,
          Option.bind_some]
        rfl
      · simpa [Code.flatten] using
          (((first.trans scope).trans second).trans third).trans inherit

theorem emitPropertyPath_emits {names : List Token}
    (runs : (emitPropertyPath names).run before = .ok (done, after)) (matched : Matches before l) :
    ∃ code final, (Lower.emitPropertyPath names).run l = some (code, final) ∧
      EmitsOnly before (code.flatten layout) after final := by
  induction names generalizing before l with
  | nil => cases runs; exact ⟨.nil, l, rfl, .refl matched⟩
  | cons name rest ih =>
      cases rest with
      | nil => exact emitName_emits runs rfl matched none
      | cons second others =>
          obtain ⟨_, middle, emits, runs⟩ := run_bind_ok.mp runs
          obtain ⟨first, l₁, lowersFirst, firsts⟩ := emitName_emits emits rfl matched none
          obtain ⟨code, final, lowers, more⟩ := ih runs firsts.emits.matched
          refine ⟨.seq first code, final, ?_, firsts.trans more⟩
          simp [Lower.emitPropertyPath, lowersFirst, lowers]

theorem emitAssignment_emits {target equalToken : Token} {names : List Token}
    (runs : (emitAssignment target equalToken names).run before = .ok (done, after))
    (named : target.lexeme ≠ []) (matched : Matches before l) :
    ∃ code final, (Lower.emitAssignment target names).run l = some (code, final) ∧
      EmitsOnly before (code.flatten layout) after final := by
  cases names with
  | nil =>
      simp only [emitAssignment] at runs
      split at runs
      next => cases runs
      next other =>
          simp only [Lower.emitAssignment, if_neg other]
          exact emitSetter_emits runs named matched
  | cons name rest =>
      obtain ⟨_, middle, gets, runs⟩ := run_bind_ok.mp runs
      obtain ⟨object, l₁, lowersObject, objects⟩ := emitGetter_emits gets named matched
      obtain ⟨path, final, lowers, paths⟩ := emitPropertyPath_emits runs objects.emits.matched
      refine ⟨.seq object path, final, ?_, objects.trans paths⟩
      simp [Lower.emitAssignment, lowersObject, lowers]

end Cpplox
