import Cpplox.Compiler.Fuel
import Cpplox.Grammar.Complete
import Cpplox.Integers

namespace Cpplox

open Dialect TokenIterator Filter

/-! The sources that the compiler accepts, and those of the grammar. -/

/-- The tokens of the source are a program. -/
def InLanguage (dialect : Dialect) (source : Text) : Prop :=
  ∃ tokens last, tokenize source = .ok (tokens, last) ∧
    Derives dialect .program (tokens.map (·.type) ++ [.eof])

variable {dialect : Dialect} {types : List TokenType} {iter last : TokenIterator}

theorem Level.operand_ne_program (level : Level) : level.operand ≠ .program := by
  cases level <;> nofun

/-- Only a program has an end. -/
theorem Derives.no_eof {category : Category} (derives : Derives dialect category types)
    (inside : category ≠ .program) : .eof ∉ types := by
  have literal : .eof ∉ literals := by decide
  have unary : .eof ∉ unaryOperators := by decide
  have operator (level : Level) : .eof ∉ level.operators := by cases level <;> decide
  have member {type : TokenType} {listed : List TokenType} (member : type ∈ listed)
      (absent : .eof ∉ listed) : .eof ≠ type := fun same => absent (same ▸ member)
  induction derives with
  | program => exact absurd rfl inside
  | literal listed => simpa using member listed literal
  | unary listed _ ih => simp [member listed unary, ih]
  | binary _ _ ih ihRest => simp [ih (Level.operand_ne_program _), ihRest]
  | operator listed _ _ ih ihRest =>
      simp [member listed (operator _), ih (Level.operand_ne_program _), ihRest]
  | _ => simp_all

theorem untilEof_consumes {fuel : Nat} {tokens : List Token}
    (runs : iter.untilEof fuel = .ok (tokens, last)) :
    iter.Consumes (tokens.map (·.type)) last ∧ last.token.type = .eof := by
  induction fuel generalizing iter tokens with
  | zero => cases runs
  | succ fuel ih =>
      rw [untilEof] at runs
      split at runs
      next ends =>
          cases runs
          exact ⟨rfl, ends⟩
      next =>
          obtain ⟨after, advances, runs⟩ := bind_ok.mp runs
          obtain ⟨⟨rest, stop⟩, deeper, runs⟩ := bind_ok.mp runs
          cases runs
          obtain ⟨consumes, ends⟩ := ih deeper
          exact ⟨.cons rfl advances consumes, ends⟩

theorem TokenIterator.Consumes.untilEof {fuel : Nat} (consumes : iter.Consumes types last)
    (ends : last.token.type = .eof) (inside : .eof ∉ types) :
    iter.untilEof fuel = .error .outOfFuel ∨
      ∃ tokens, iter.untilEof fuel = .ok (tokens, last) ∧ tokens.map (·.type) = types := by
  induction fuel generalizing iter types with
  | zero => exact .inl rfl
  | succ fuel ih =>
      rw [TokenIterator.untilEof]
      cases types with
      | nil =>
          have same : last = iter := consumes
          subst same
          rw [if_pos ends]
          exact .inr ⟨[], rfl, rfl⟩
      | cons type types =>
          obtain ⟨notHere, inside⟩ := not_or.mp (List.mem_cons.not.mp inside)
          obtain ⟨same, after, advances, rest⟩ := consumes
          rw [if_neg (by rw [same]; exact Ne.symm notHere), except_bind advances]
          rcases ih rest inside with empty | ⟨tokens, runs, rfl⟩
          · rw [empty]
            exact .inl rfl
          · rw [except_bind runs]
            exact .inr ⟨iter.token :: tokens, rfl, by simp [same]⟩

/-- The program of a source, on its iterator. -/
theorem inLanguage_iff {source : Text} : InLanguage dialect source ↔ ∃ iter types last,
    ofSource source = .ok iter ∧ iter.Consumes types last ∧ last.token.type = .eof ∧
      Derives dialect .declarations types := by
  constructor
  · rintro ⟨tokens, last, runs, derives⟩
    obtain ⟨iter, scans, runs⟩ := bind_ok.mp runs
    obtain ⟨consumes, ends⟩ := untilEof_consumes runs
    refine ⟨iter, _, last, scans, consumes, ends, ?_⟩
    generalize whole : tokens.map (·.type) ++ [.eof] = program at derives
    cases derives with
    | program derives => exact List.append_cancel_right whole ▸ derives
  · rintro ⟨iter, types, last, scans, consumes, ends, derives⟩
    have enough : iter.untilEof (source.length + 1) ≠ .error .outOfFuel := by
      intro empty
      have fails : tokenize source = .error .outOfFuel := by
        rw [tokenize, except_bind scans]
        exact empty
      obtain ⟨what, same⟩ := (tokenize_exact source).2.2.1 _ fails
      cases same
    obtain ⟨tokens, runs, rfl⟩ := (consumes.untilEof ends (derives.no_eof nofun)).resolve_left enough
    refine ⟨tokens, last, ?_, .program derives⟩
    rw [tokenize, except_bind scans]
    exact runs

variable {N : Type} [Number N]

variable (N) in
def Accepts (source : Text) : Prop :=
  ∃ fuel functions, (compile fuel source : Except Error (List (Function (Constant N) Text))) =
    .ok functions

/-- No static check fails, and every operand fits. -/
def LeftAside (N : Type) [Number N] (source : Text) : Prop :=
  ∃ fuel error, (compile fuel source : Except Error (List (Function (Constant N) Text))) =
    .error error ∧ IsStatic error

theorem declarationLoop_ends {fuel : Nat} {isEnd : TokenType → Bool} {before after : Compiler N}
    {done : Unit} (runs : (declarationLoop fuel isEnd).run before = .ok (done, after)) :
    isEnd after.tokenIter.token.type = true := by
  induction fuel generalizing before with
  | zero => cases runs
  | succ fuel ih =>
      rw [declarationLoop, run_current_bind] at runs
      split at runs
      next ends =>
          cases runs
          exact ends
      next =>
          obtain ⟨_, middle, _, runs⟩ := run_bind_ok.mp runs
          exact ih runs

theorem Accepts.inLanguage {source : Text} (accepts : Accepts N source) (covers : dialect.Covers) :
    InLanguage dialect source := by
  obtain ⟨fuel, functions, compiles⟩ := accepts
  obtain ⟨iter, scans, compiles⟩ := bind_ok.mp compiles
  obtain ⟨⟨_, after⟩, runs, -⟩ := bind_ok.mp compiles
  obtain ⟨types, consumes, derives⟩ :=
    (Sound.all covers fuel).declarationLoop _ atEnd _ _ runs (ofSource_faithful scans)
  have ends := declarationLoop_ends runs
  exact inLanguage_iff.mpr ⟨iter, types, _, scans, consumes, of_decide_eq_true ends, derives⟩

theorem accepts_of_inLanguage {source : Text} (inLanguage : InLanguage compiled source)
    (aside : ¬ LeftAside N source) : Accepts N source := by
  obtain ⟨iter, types, last, scans, consumes, ends, derives⟩ := inLanguage_iff.mp inLanguage
  have atEnds : ∀ type, atEnd type → type = .eof ∨ type = .rightBrace := by simp [atEnd]
  have accepted : Accepted N .declarations types := Derives.accepted derives.greedy
  obtain ⟨fuel, passes⟩ := (accepted atEnd atEnds).exists
  have here := passes { tokenIter := iter, back := { chunk := {} } } last
    ⟨ofSource_faithful scans, consumes⟩ (decide_eq_true ends)
  rw [Passes] at here
  cases runs : (declarationLoop fuel atEnd).run
    ({ tokenIter := iter, back := { chunk := {} } } : Compiler N) with
  | ok result =>
      refine ⟨fuel, result.2.gcHeap ++ [⟨[], 0, result.2.back.chunk⟩], ?_⟩
      rw [compile, except_bind scans, except_bind runs]
      rfl
  | error error =>
      rw [runs] at here
      refine absurd ⟨fuel, error, ?_, here⟩ aside
      rw [compile, except_bind scans, runs]
      rfl

/-- Static checks and operand sizes aside, the compiler accepts the language of its own
dialect, and so that of the book exactly when the two agree on the source. -/
theorem compile_language (source : Text) (aside : ¬ LeftAside N source) :
    (Accepts N source ↔ InLanguage compiled source) ∧
    ((Accepts N source ↔ InLanguage lox source) ↔
      (InLanguage lox source → InLanguage compiled source)) := by
  have sound : Accepts N source → InLanguage compiled source := (·.inLanguage covers_compiled)
  have complete (inLanguage : InLanguage compiled source) : Accepts N source :=
    accepts_of_inLanguage inLanguage aside
  refine ⟨⟨sound, complete⟩, fun same inLox => sound (same.mpr inLox), fun agree => ⟨?_, ?_⟩⟩
  · exact (·.inLanguage covers_lox)
  · exact fun inLox => complete (agree inLox)

/-- Enough fuel decides. -/
theorem compile_unique {fuel other : Nat} {source : Text}
    {result : Except Error (List (Function (Constant N) Text))} {error : Error}
    (compiles : compile fuel source = result) (enough : result ≠ .error .outOfFuel)
    (fails : compile other source = (.error error : Except Error (List (Function (Constant N) Text)))) :
    error = .outOfFuel ∨ result = .error error := by
  by_cases empty : error = .outOfFuel
  · exact .inl empty
  · have here := compile_fuel compiles enough (Nat.le_max_left fuel other)
    have there := compile_fuel fails (fun same => empty (Except.error.inj same))
      (Nat.le_max_right fuel other)
    exact .inr (here.symm.trans there)

theorem binary_of_operand {level : Level} (derives : Derives dialect level.operand types) :
    Derives dialect (.binary level) types := by
  simpa using Derives.binary derives .noOperator

theorem expression_of_call (derives : Derives dialect .call types) :
    Derives dialect .expression types :=
  .logicOr (binary_of_operand (binary_of_operand (binary_of_operand (binary_of_operand
    (binary_of_operand (binary_of_operand (.unaryCall derives)))))))

theorem expression_of_primary (derives : Derives dialect .primary types) :
    Derives dialect .expression types := by
  simpa using expression_of_call (.call derives .noSuffix)

/-- How the texts of the static errors end. -/
theorem IsStatic.ends {what : Text} (static : IsStatic (.runtimeError what)) :
    what.reverse.take 2 ∈ [['.', 'e'], ['.', 'r'], ['.', 'f']] := by
  generalize same : Error.runtimeError what = error at static
  cases static with
  | narrowing => cases same
  | redeclared | topLevelReturn =>
      cases same
      rw [List.reverse_append]
      exact .head _
  | ownInitializer | initializerReturn =>
      cases same
      rw [List.reverse_append]
      exact .tail _ (.head _)
  | selfInheritance =>
      cases same
      rw [List.reverse_append]
      exact .tail _ (.tail _ (.head _))

theorem invalidAssignment_not_static (line : UInt32) : ¬ IsStatic (invalidAssignmentError line) := by
  intro static
  have ends := static.ends
  rw [List.reverse_append] at ends
  change ['.', 't'] ∈ _ at ends
  revert ends
  decide

/-- Refused, though derivable and past every check left aside. -/
structure Refused (N : Type) [Number N] (source : Text) : Prop where
  inLanguage : InLanguage lox source
  aside : ¬ LeftAside N source
  refused : ¬ Accepts N source

theorem Refused.of_compile {source : Text} {fuel : Nat} {error : Error}
    (inLanguage : InLanguage lox source)
    (compiles : (compile fuel source : Except Error (List (Function (Constant N) Text))) =
      .error error)
    (other : ¬ IsStatic error) (enough : error ≠ .outOfFuel) : Refused N source := by
  have enough : (.error error : Except Error (List (Function (Constant N) Text))) ≠
      .error .outOfFuel := fun same => enough (Except.error.inj same)
  refine ⟨inLanguage, ?_, ?_⟩
  · rintro ⟨_, _, fails, static⟩
    rcases compile_unique compiles enough fails with rfl | same
    · cases static
    · cases same
      exact other static
  · rintro ⟨more, functions, accepted⟩
    have here := compile_fuel compiles enough (Nat.le_max_left fuel more)
    rw [compile_fuel accepted nofun (Nat.le_max_right fuel more)] at here
    cases here

/-- A call on the left, whose property the grammar allows to assign to. -/
def callTargetSource : Text := "f().x = 1;".toList

theorem inLanguage_callTarget : InLanguage lox callTargetSource := by
  have types : (tokenize callTargetSource).toOption.map (·.1.map (·.type)) = some
      [.identifier, .leftParen, .rightParen, .dot, .identifier, .equal, .number, .semicolon] := by
    decide +kernel
  cases runs : tokenize callTargetSource with
  | error error => rw [runs] at types; cases types
  | ok result =>
  obtain ⟨tokens, last⟩ := result
  rw [runs] at types
  have types : tokens.map (·.type) = _ := Option.some.inj types
  refine ⟨tokens, last, runs, ?_⟩
  rw [types]
  have value : Derives lox .expression [.number] := expression_of_primary (.literal (by decide))
  have object : Derives lox .call [.identifier, .leftParen, .rightParen] :=
    .call (.literal (by decide)) (.callSuffix .noArgument .noSuffix)
  exact .program (.declarations (.statement trivial (.exprStmt
    (.expressionStatement (.propertyAssignment trivial object value)))) .noDeclaration)

theorem callTarget_refused : Refused Int callTargetSource := by
  have fails : (match (compile 40 callTargetSource :
      Except Error (List (Function (Constant Int) Text))) with
    | .error error => decide (error = invalidAssignmentError 1)
    | .ok _ => false) = true := by decide +kernel
  split at fails
  case h_2 => cases fails
  case h_1 error compiles =>
    have same := of_decide_eq_true fails
    subst same
    exact .of_compile inLanguage_callTarget compiles (invalidAssignment_not_static 1) nofun

/-- An anonymous function as a statement. -/
def functionStatementSource : Text := "fun () {};".toList

theorem inLanguage_functionStatement : InLanguage lox functionStatementSource := by
  have types : (tokenize functionStatementSource).toOption.map (·.1.map (·.type)) = some
      [.fun_, .leftParen, .rightParen, .leftBrace, .rightBrace, .semicolon] := by decide +kernel
  cases runs : tokenize functionStatementSource with
  | error error => rw [runs] at types; cases types
  | ok result =>
  obtain ⟨tokens, last⟩ := result
  rw [runs] at types
  have types : tokens.map (·.type) = _ := Option.some.inj types
  refine ⟨tokens, last, runs, ?_⟩
  rw [types]
  have value : Derives lox .expression [.fun_, .leftParen, .rightParen, .leftBrace, .rightBrace] :=
    expression_of_primary (.functionExpression (.function .noParameter .noDeclaration))
  exact .program (.declarations (.statement trivial (.exprStmt (.expressionStatement value)))
    .noDeclaration)

def functionStatementError : Error :=
  .runtimeError "[Line 1] Error at \"(\": Expected IDENTIFIER.".toList

theorem functionStatement_not_static : ¬ IsStatic functionStatementError :=
  fun static => absurd static.ends (by decide +kernel)

theorem functionStatement_refused : Refused Int functionStatementSource := by
  have fails : (match (compile 40 functionStatementSource :
      Except Error (List (Function (Constant Int) Text))) with
    | .error error => decide (error = functionStatementError)
    | .ok _ => false) = true := by decide +kernel
  split at fails
  case h_2 => cases fails
  case h_1 error compiles =>
    have same := of_decide_eq_true fails
    subst same
    exact .of_compile inLanguage_functionStatement compiles functionStatement_not_static nofun

/-- Neither source is accepted, though the grammar has both. -/
theorem compile_not_language :
    (¬ ∀ source, ¬ LeftAside Int source → (Accepts Int source ↔ InLanguage lox source)) ∧
      Refused Int callTargetSource ∧ Refused Int functionStatementSource := by
  refine ⟨fun acceptsAll => ?_, callTarget_refused, functionStatement_refused⟩
  have refused := callTarget_refused
  exact refused.refused ((acceptsAll _ refused.aside).mpr refused.inLanguage)

/-- Properties of a path are assigned to. -/
theorem compile_language_path :
    Accepts Int "a.b = fun () {};".toList ∧
      (Accepts Int "a.b = fun () {};".toList ↔ InLanguage compiled "a.b = fun () {};".toList) := by
  have succeeds : (compile 40 "a.b = fun () {};".toList :
      Except Error (List (Function (Constant Int) Text))).isOk = true := by decide +kernel
  obtain ⟨functions, compiles⟩ := exists_ok succeeds
  refine ⟨⟨40, functions, compiles⟩, (compile_language _ ?_).1⟩
  rintro ⟨fuel, error, fails, static⟩
  rcases compile_unique compiles nofun fails with rfl | same
  · cases static
  · cases same

end Cpplox
