import Cpplox.Ast.Program
import Cpplox.Bytecode.Ordinary

namespace Cpplox

open Structured Lower

/-! The stack discipline of an accepted source. -/

variable {N : Type}

/-- Nothing of it is a `return_`. -/
def Returnless (emissions : List Emission) : Prop :=
  ∀ emission ∈ emissions, emission.instr ≠ .simple .return_

theorem Returnless.append {first second : List Emission} (one : Returnless first)
    (two : Returnless second) : Returnless (first ++ second) := fun emission member =>
  (List.mem_append.mp member).elim (one emission) (two emission)

theorem Ordinary.returnless {emissions : List Emission} (ordinary : Ordinary emissions) :
    Returnless emissions := fun emission member returns => by
  have goes := Emission.stops_eq_false.mp (ordinary emission member).1
  rw [returns] at goes
  cases goes

namespace Lower

variable {l final : Lower N} {code : LoweredCode} {token : SourceMapToken Text}

theorem Grows.script {declared : List TrackedLocal} (grows : l.Grows declared final)
    (script : l.enclosing = []) : final.enclosing = [] := by
  have enclosing := grows.enclosing
  rw [script] at enclosing
  exact List.forall₂_nil_left_iff.mp enclosing

theorem trackDeclared_enclosing {initialized : Bool}
    (runs : (trackDeclared token initialized).run l = some (code, final)) :
    final.enclosing = l.enclosing := by
  rcases trackDeclared_some runs with ⟨-, tracks⟩ | ⟨-, -, rfl⟩
  · obtain ⟨-, -, rfl⟩ := trackLocal_some tracks
    rfl
  · rfl

theorem pushPlaceholder_enclosing (runs : pushPlaceholder.run l = some (code, final)) :
    final.enclosing = l.enclosing := by
  rcases pushPlaceholder_some runs with ⟨-, -, rfl⟩ | ⟨-, -, rfl⟩ <;> rfl

theorem returnless_simple (l : Lower N) (opcode : Opcode) (other : opcode ≠ .return_)
    (token : SourceMapToken Text) : Returnless (l.simple opcode token).plains :=
  (ordinary_simple l opcode other token).returnless

variable [Number N]

theorem emitFunction_returnless {function : LoweredFunction N} {leading : Bool}
    (runs : (emitFunction function token leading).run l = some (code, final)) :
    Returnless code.plains := by
  obtain ⟨-, rfl⟩ := emitFunction_some runs
  intro emission member
  obtain rfl := List.mem_singleton.mp member
  exact Instr.noConfusion

/-- The code of the root script has no `return_`. -/
theorem Lowers.returnless {node : Node} (lowers : Lowers l node code final) (ready : node.Ready l)
    (script : l.enclosing = []) : Returnless code.plains := by
  induction lowers with
  | false_ | true_ | nil => exact returnless_simple _ _ (by decide) _
  | argsNil | empty | declsNil | methodsNil => exact Ordinary.nil.returnless
  | number runs | string runs => exact (emitWithConstant_ordinary runs).returnless
  | occurrence runs => exact (emitGetterSetter_ordinary runs).returnless
  | super receiver superclass method =>
      exact ((emitGetterSetter_ordinary receiver).append ((emitGetterSetter_ordinary superclass).append
        (emitWithConstant_ordinary method))).returnless
  | functionExpr _ ih => exact ih ready script
  | function _ _ _ _ closure => exact emitFunction_returnless closure
  | call callee args call ihCallee ihArgs =>
      have steady := callee.outcome ready
      exact (ihCallee ready script).append ((ihArgs (steady.tracks ready)
        (steady.grows.script script)).append (emitIndex_ordinary call).returnless)
  | getProperty _ property ihObject =>
      exact (ihObject ready script).append (emitWithConstant_ordinary property).returnless
  | @unary _ _ _ operator _ _ _ ihOperand =>
      have other : unaryOpcode operator.type ≠ .return_ := by cases operator.type <;> decide
      exact (ihOperand ready script).append (returnless_simple _ _ other _)
  | binary binary left _ ihLeft ihRight =>
      have steady := left.outcome ready
      exact (ihLeft ready script).append ((ihRight (steady.tracks ready)
        (steady.grows.script script)).append (ordinary_binary _ binary _).returnless)
  | and_ left _ ihLeft ihRight | or_ left _ ihLeft ihRight =>
      have steady := left.outcome ready
      exact (ihLeft ready script).append ((returnless_simple _ .pop (by decide) _).append
        (ihRight (steady.tracks ready) (steady.grows.script script)))
  | argsCons left _ ihLeft ihRight =>
      have steady := left.outcome ready
      exact (ihLeft ready script).append (ihRight (steady.tracks ready) (steady.grows.script script))
  | assign _ assignment ihValue =>
      exact (ihValue ready script).append (emitAssignment_ordinary assignment).returnless
  | expression _ ihValue | print _ ihValue =>
      exact (ihValue ready.1 script).append (returnless_simple _ _ (by decide) _)
  | if_ condition thenBranch _ ihCondition ihThen ihElse =>
      have test := condition.outcome ready.1
      have ready₁ := test.ready ready
      have script₁ := test.grows.script script
      have yes := thenBranch.outcome ready₁
      have pop (l : Lower N) (token : SourceMapToken Text) :=
        returnless_simple l .pop (by decide) token
      exact (ihCondition ready.1 script).append (((pop _ _).append (ihThen ready₁ script₁)).append
        ((pop _ _).append (ihElse (yes.ready ready₁) (yes.grows.script script₁))))
  | for_ initializer condition increment _ pops ihInitializer ihCondition ihIncrement ihBody =>
      have entered := ready.1.enterScope
      obtain ⟨declared, grows, declares, linked⟩ := initializer.outcome ⟨entered, ready.2⟩
      have ready₁ := grows.ready declares linked ⟨entered, ready.2⟩
      have script₁ := grows.script script
      have test := condition.outcome ready₁.1
      have ready₂ := test.ready ready₁
      have script₂ := test.grows.script script₁
      have step := increment.outcome ready₂
      have pop (l : Lower N) (token : SourceMapToken Text) :=
        returnless_simple l .pop (by decide) token
      have body := ihBody (step.ready ready₂) (step.grows.script script₂)
      exact (ihInitializer ⟨entered, ready.2⟩ script).append
        (((ihCondition ready₁.1 script₁).append ((ihIncrement ready₂ script₂).append
          ((pop _ _).append body))).append
          ((pop _ _).append (popTopScopeDepth_ordinary pops).returnless))
  | block _ pops ihBody =>
      exact (ihBody ⟨ready.1.enterScope, ready.2⟩ script).append (popTopScopeDepth_ordinary pops).returnless
  | returnDefault inside | return_ inside => exact absurd script inside
  | while_ condition _ ihCondition ihBody =>
      have test := condition.outcome ready.1
      have body := ihBody (test.ready ready) (test.grows.script script)
      exact ((ihCondition ready.1 script).append
        ((returnless_simple _ .pop (by decide) _).append body)).append
        (returnless_simple _ _ (by decide) _)
  | statement _ ih => exact ih ready script
  | baseClass klass declared _ define ihMethods =>
      have named := emitWithConstant_steady klass
      obtain ⟨names, grows, declares, linked⟩ := trackDeclared_grows declared
      have ready₁ := named.ready ready
      have methods := ihMethods (grows.ready declares (linked ready₁.1.linked) ready₁)
        (grows.script (named.grows.script script))
      exact (emitWithConstant_ordinary klass).returnless.append
        ((trackDeclared_ordinary declared).returnless.append
          (methods.append (defineGlobalAtTop_ordinary define).returnless))
  | subclass klass declared before _ after define ihMethods =>
      have named := emitWithConstant_steady klass
      obtain ⟨names, grows, declares, linked⟩ := trackDeclared_grows declared
      have ready₁ := named.ready ready
      have ready₂ := grows.ready declares (linked ready₁.1.linked) ready₁
      obtain ⟨_, l₃, _, pushes, begins, -, tracks₃, settled₃⟩ :=
        beginSuperclass_tracks ready₂.1 ready₂.2 before
      have script₃ : l₃.enterScope.enclosing = [] :=
        (pushPlaceholder_enclosing pushes).trans (grows.script (named.grows.script script))
      have methods := ihMethods ⟨tracks₃, settled₃⟩ (begins.script script₃)
      exact (emitWithConstant_ordinary klass).returnless.append
        ((trackDeclared_ordinary declared).returnless.append
          (((beginSuperclass_ordinary before).returnless.append
            (methods.append (endSuperclass_ordinary after).returnless)).append
            (defineGlobalAtTop_ordinary define).returnless))
  | fun_ closure define declared ihClosure =>
      exact (ihClosure ready.1 script).append ((defineGlobalAtTop_ordinary define).returnless.append
        (trackDeclared_ordinary declared).returnless)
  | var tracked _ define declared ihValue =>
      have value := ihValue (trackWaiting_tracks ready.1 ready.2 tracked)
        ((trackDeclared_enclosing tracked).trans script)
      exact value.append ((defineGlobalAtTop_ordinary define).returnless.append
        (initializeDeclared_ordinary declared).returnless)
  | declsCons head _ ihHead ihTail =>
      obtain ⟨_, grows, declares, linked⟩ := head.outcome ready
      exact (ihHead ready script).append
        (ihTail (grows.ready declares linked ready) (grows.script script))
  | methodsCons closure method _ ihClosure ihTail =>
      have both := (closure.outcome ready.1).trans (emitWithConstant_steady method)
      exact (ihClosure ready.1 script).append ((emitWithConstant_ordinary method).returnless.append
        (ihTail (both.ready ready) (both.grows.script script)))

end Lower

namespace LoweredFunction

/-- Every path to an offset arrives with one height, at an instruction or at the end; no
instruction takes what was there on entry but a `return_`, which finds a value above it;
the locals an instruction refers to are on the stack, but for the one local whose slot is
about to be filled: a closure that is the first instruction of its initializer may capture it. -/
structure Disciplined (function : LoweredFunction N) : Prop where
  unique : ∀ offset height other,
    Reaches function.assemble.chunk.bytecode function.entryHeight offset height →
    Reaches function.assemble.chunk.bytecode function.entryHeight offset other → height = other
  decodes : ∀ offset height,
    Reaches function.assemble.chunk.bytecode function.entryHeight offset height →
    offset = function.assemble.chunk.bytecode.length ∨
      ∃ instr size, decode (function.assemble.chunk.bytecode.drop offset) = some (instr, size)
  pops : ∀ offset height instr size,
    Reaches function.assemble.chunk.bytecode function.entryHeight offset height →
    decode (function.assemble.chunk.bytecode.drop offset) = some (instr, size) → instr.pops ≠ 0 →
    function.entryHeight + instr.pops ≤ height
  locals : ∀ offset height opcode index size,
    Reaches function.assemble.chunk.bytecode function.entryHeight offset height →
    decode (function.assemble.chunk.bytecode.drop offset) = some (.operand opcode index, size) →
    opcode = .getLocal ∨ opcode = .setLocal → index < height
  captures : ∀ offset height constant captures index size,
    Reaches function.assemble.chunk.bytecode function.entryHeight offset height →
    decode (function.assemble.chunk.bytecode.drop offset) = some (.closure constant captures, size) →
    .upvalueIndex index ∈ captures → index ≤ height
  operands : ∀ offset height earlier emission later,
    Reaches function.assemble.chunk.bytecode function.entryHeight offset height →
    function.flats = earlier ++ .plain emission :: later → extent layout earlier = offset →
    ((∀ index ∈ emission.instr.localOperands, index < height) ↔
      ¬ emission.CapturesOwnLocal function.kind)

end LoweredFunction

namespace LoweredFunction.Verified

variable {function : LoweredFunction N} {functions : List (LoweredFunction N)}
  {entry : List TrackedLocal} {listing : Listing Emission JumpTag Context} {offset height size : Nat}
  {instr : Instr}

/-- What the listing says of an instruction at the end of a path. -/
theorem reaches_executes (verified : function.Verified functions entry listing) (fits : function.Fits)
    (reaches : Reaches function.assemble.chunk.bytecode function.entryHeight offset height)
    (found : decode (function.assemble.chunk.bytecode.drop offset) = some (instr, size))
    (stays : ∀ opcode distance, instr ≠ .jump opcode distance) :
    ∃ slots emission, slots.length = height ∧ emission.instr = instr ∧
      (function.surroundings functions).Refers slots emission := by
  obtain ⟨slots, rfl, arrives⟩ := verified.reaches_arrives fits reaches
  obtain ⟨written, flat, there, le, rfl, rfl⟩ := verified.arrives_decode fits arrives found
  cases flat with
  | jump | jumpIfFalse | loop => exact absurd rfl (stays _ _)
  | plain emission =>
      obtain ⟨_, after, same, executes, -⟩ := verified.executes there
      cases same
      exact ⟨written, emission, le.length, rfl, executes.refers⟩

theorem disciplined (verified : function.Verified functions entry listing) (fits : function.Fits) :
    function.Disciplined where
  unique _ _ _ one two := verified.reaches_unique fits one two
  decodes offset height reaches := by
    obtain ⟨slots, -, arrives⟩ := verified.reaches_arrives fits reaches
    rcases verified.arrives_cases arrives with ⟨atEnd, -⟩ | ⟨written, flat, there, -⟩
    · exact .inl atEnd
    · exact .inr ⟨_, _, verified.decode_entry fits there⟩
  pops _ _ _ _ reaches found takes := verified.reaches_pops fits reaches found takes
  locals offset height opcode index size reaches found isLocal := by
    obtain ⟨slots, emission, rfl, same, refers⟩ :=
      verified.reaches_executes fits reaches found (fun _ _ => Instr.noConfusion)
    unfold Surroundings.Refers at refers
    rw [same] at refers
    rcases isLocal with rfl | rfl <;> exact refers.1
  captures offset height constant captures index size reaches found member := by
    obtain ⟨slots, emission, rfl, same, refers⟩ :=
      verified.reaches_executes fits reaches found (fun _ _ => Instr.noConfusion)
    unfold Surroundings.Refers at refers
    rw [same] at refers
    exact (refers.2 _ member).1
  operands _ _ _ _ _ reaches split begins := verified.reaches_locals fits reaches split begins

/-- A path ends where the bytecode does only in the root script, with nothing left. -/
theorem reaches_end (verified : function.Verified functions entry listing) (fits : function.Fits)
    (reaches : Reaches function.assemble.chunk.bytecode function.entryHeight
      function.assemble.chunk.bytecode.length height) : function.kind = .script ∧ height = 0 := by
  obtain ⟨slots, rfl, arrives⟩ := verified.reaches_arrives fits reaches
  rcases verified.arrives_cases arrives with ⟨-, script, rfl⟩ | ⟨written, flat, there, -⟩
  · exact ⟨script, rfl⟩
  · have found := verified.decode_entry fits there
    rw [List.drop_length] at found
    cases found

end LoweredFunction.Verified

variable [Number N]

/-- Every function keeps the stack discipline, from the callee and its arguments on; the
root script begins with nothing, never returns, and has nothing on the stack between its
declarations and at its end. -/
def StackDiscipline (decls : Decls) (functions : List (Function (Constant N) Text)) : Prop :=
  ∃ (code : LoweredCode) (l : Lower N), Lowers {} (.decls decls) code l ∧
    functions = (l.functions ++ [l.script code]).map LoweredFunction.assemble ∧
    (∀ function ∈ l.functions, function.Disciplined ∧
      function.entryHeight = function.assemble.arity + 1 ∧
      ∀ height, ¬ Reaches function.assemble.chunk.bytecode function.entryHeight
        function.assemble.chunk.bytecode.length height) ∧
    (l.script code).Disciplined ∧ (l.script code).entryHeight = 0 ∧
    (∀ height, Reaches (l.script code).assemble.chunk.bytecode 0
      (l.script code).assemble.chunk.bytecode.length height → height = 0) ∧
    (∀ instrs, Decodes (l.script code).assemble.chunk.bytecode 0 instrs → ∀ offset,
      (offset, .simple .return_) ∉ instrs) ∧
    ∀ earlier later, decls = earlier.append later → ∃ (first : LoweredCode) (middle : Lower N),
      Lowers {} (.decls earlier) first middle ∧
      ∀ height, Reaches (l.script code).assemble.chunk.bytecode 0 (first.extent layout) height →
        height = 0

/-- The height of the script between two declarations is 0. -/
theorem Lower.Lowers.height_between {l : Lower N} {code : LoweredCode} {earlier later : Decls}
    (lowers : Lowers ({} : Lower N) (.decls (earlier.append later)) code l)
    (fits : (l.script code).Fits) :
    ∃ (first : LoweredCode) (middle : Lower N), Lowers {} (.decls earlier) first middle ∧
      ∀ height, Reaches (l.script code).assemble.chunk.bytecode 0 (first.extent layout) height →
        height = 0 := by
  obtain ⟨first, middle, before, listing, verified, arrives⟩ := lowers.verified_between
  refine ⟨first, middle, before, fun height reaches => ?_⟩
  obtain ⟨slots, rfl, written, found, le⟩ := verified.reaches_arrives fits reaches
  obtain ⟨laterWritten, laterFound, laterLe⟩ := arrives
  rw [found] at laterFound
  cases laterFound
  cases written with
  | live written => exact le.length.symm.trans laterLe.length
  | ended => cases le

/-- Every accepted source keeps it. -/
theorem compile_disciplined {fuel : Nat} {source : Text}
    {functions : List (Function (Constant N) Text)}
    (accepted : compile fuel source = .ok functions) :
    ∃ decls, parse fuel source = .ok decls ∧ StackDiscipline decls functions := by
  obtain ⟨decls, code, l, parses, lowers, assembles⟩ := compile_factors accepted
  have verified (function : LoweredFunction N) (member : function ∈ l.functions ++ [l.script code]) :
      ∃ entry listing, function.Verified (l.functions ++ [l.script code]) entry listing :=
    (lowers.certified_program function member).verified
  have fits := assembles.fits
  have isRoot : l.script code ∈ l.functions ++ [l.script code] := by simp
  obtain ⟨entry, listing, script⟩ := verified _ isRoot
  refine ⟨decls, parses, code, l, lowers, assembles.made, fun function inside => ?_,
    script.disciplined (fits _ isRoot), rfl,
    fun height reaches => (script.reaches_end (fits _ isRoot) reaches).2, fun instrs decodes => ?_,
    fun earlier later split => ?_⟩
  · have here := List.mem_append_left [l.script code] inside
    obtain ⟨entry, listing, inner⟩ := verified _ here
    have notScript := (lowers.certified_functions function inside).1
    exact ⟨inner.disciplined (fits _ here), if_neg notScript, fun tall reaches =>
      notScript (inner.reaches_end (fits _ here) reaches).1⟩
  · obtain rfl := decodes.unique (script.decodes (fits _ isRoot))
    intro offset member
    obtain ⟨context, flat, ⟨before, after, listed, -⟩, same⟩ := mem_placed.mp member
    have inside : flat ∈ (l.script code).flats := by
      rw [← script.flats, listed]
      simp [Listing.flats]
    cases flat with
    | jump | jumpIfFalse | loop => cases same
    | plain emission =>
        exact lowers.returnless ready_program rfl emission ((Code.mem_plains layout).mpr inside) same
  · subst split
    exact lowers.height_between (fits _ isRoot)

theorem compile_disciplined_loop : ∃ functions : List (Function (Constant Int) Text),
    compile 40 "fun f(a) { while (a) { var b = a; a = b; } return a; } print f(1);".toList =
      .ok functions ∧
    ∃ decls, parse 40 "fun f(a) { while (a) { var b = a; a = b; } return a; } print f(1);".toList =
      .ok decls ∧ StackDiscipline decls functions := by
  have succeeds : (compile 40
      "fun f(a) { while (a) { var b = a; a = b; } return a; } print f(1);".toList :
      Except Error (List (Function (Constant Int) Text))).isOk = true := by decide +kernel
  obtain ⟨functions, accepted⟩ := exists_ok succeeds
  exact ⟨functions, accepted, compile_disciplined accepted⟩

end Cpplox
