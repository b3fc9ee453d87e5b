import Cpplox.Grammar.Language

namespace Cpplox

open Data TokenIterator

/-! Actions that do not run out of fuel, by what is left to read. -/

/-- The characters behind the current token, and the token itself unless it is the end. -/
def TokenIterator.remaining (iter : TokenIterator) : Nat :=
  if iter.token.type = .eof then 0 else iter.rest.length + 1

theorem scanToken_shorter {text : Text} {line : UInt32} {scanned : Scanned}
    (scans : scanToken text line = .ok scanned) :
    scanned.1.type = .eof ∨ scanned.2.1.length < text.length := by
  have outcome := scanToken_outcome text line
  rw [scans] at outcome
  obtain ⟨after, _, ⟨skipped, -, divides, -⟩, ⟨-, rfl⟩ | ⟨type, lexeme, rest, rfl, munches, rfl⟩⟩ :=
    outcome
  · exact .inl rfl
  · have nonempty := List.length_pos_iff.mpr munches.inGrammar.ne_nil
    have whole := congrArg List.length divides.text_eq
    simp only [List.length_append] at whole
    refine .inr (?_ : rest.length < _)
    omega

namespace TokenIterator

variable {iter after last : TokenIterator} {types : List TokenType}

theorem advance_remaining (advances : iter.advance = .ok after) (inside : iter.token.type ≠ .eof) :
    after.remaining < iter.remaining := by
  unfold advance at advances
  cases scans : scanToken iter.rest iter.line with
  | error error => rw [scans] at advances; cases advances
  | ok scanned =>
      rw [scans] at advances
      cases advances
      rw [remaining, remaining, if_neg inside]
      split
      · exact Nat.succ_pos _
      next notEnd => exact Nat.succ_lt_succ ((scanToken_shorter scans).resolve_left notEnd)

theorem Consumes.remaining (consumes : iter.Consumes types last) (inside : .eof ∉ types) :
    last.remaining + types.length ≤ iter.remaining := by
  induction types generalizing iter with
  | nil => exact Nat.le_of_eq (congrArg TokenIterator.remaining consumes)
  | cons type types ih =>
      obtain ⟨rfl, after, advances, rest⟩ := consumes
      obtain ⟨notHere, inside⟩ := not_or.mp (List.mem_cons.not.mp inside)
      have step := advance_remaining advances (Ne.symm notHere)
      have later := ih rest inside
      rw [List.length_cons]
      omega

theorem advance_error {error : Error} (fails : iter.advance = .error error) :
    error ≠ .outOfFuel := by
  have outcome := scanToken_outcome iter.rest iter.line
  unfold advance at fails
  cases scans : scanToken iter.rest iter.line with
  | ok scanned => rw [scans] at fails; cases fails
  | error other =>
      rw [scans] at fails outcome
      cases fails
      obtain ⟨_, _, what, -, -, rfl⟩ := outcome
      nofun

end TokenIterator

variable {N α β : Type}

def EndsWith (before : Compiler N) : Except Error (α × Compiler N) → Prop
  | .ok (_, after) => after.enclosing.length = before.enclosing.length
  | .error error => error ≠ .outOfFuel

/-- The action comes to an end with the fuel it has, and stays in its function. -/
def Ends (before : Compiler N) (action : CompileM N α) : Prop := EndsWith before (action.run before)

/-- No more than this is left to read. -/
structure Room (compiler : Compiler N) (left : Nat) : Prop where
  faithful : compiler.tokenIter.token.Faithful
  remaining : compiler.tokenIter.remaining ≤ left

variable {before : Compiler N} {first : CompileM N α} {rest : α → CompileM N β} {left : Nat}
  {part : List TokenType → Prop}

theorem EndsWith.of_length {middle : Compiler N} {result : Except Error (α × Compiler N)}
    (length : middle.enclosing.length = before.enclosing.length) (ends : EndsWith middle result) :
    EndsWith before result := by
  cases result with
  | error error => exact ends
  | ok pair => exact ends.trans length

theorem IsStatic.ne_outOfFuel {error : Error} (static : IsStatic error) : error ≠ .outOfFuel := by
  cases static <;> nofun

theorem ensureTokenIs_error {token : Token} {expected : TokenType} {error : Error}
    (fails : ensureTokenIs token expected = .error error) : error ≠ .outOfFuel := by
  unfold ensureTokenIs at fails
  split at fails
  · cases fails
  · cases fails
    nofun

namespace Ends

theorem bind (one : Ends before first) (two : ∀ value middle,
    first.run before = .ok (value, middle) → Ends middle (rest value)) :
    Ends before (first >>= rest) := by
  rw [Ends] at one
  rw [Ends, StateT.run_bind]
  cases runs : first.run before with
  | error error => rwa [runs] at one
  | ok result =>
      obtain ⟨value, middle⟩ := result
      rw [runs] at one
      exact .of_length one (two value middle runs)

theorem of_quiet {action : CompileM N α} (quiet : Quiet action) : Ends before action := by
  have here := quiet before
  rw [Ends]
  cases runs : action.run before with
  | error error =>
      rw [runs] at here
      exact here.ne_outOfFuel
  | ok result =>
      rw [runs] at here
      exact here.2

theorem quiet (one : Quiet first) (room : Room before left)
    (two : ∀ value middle, Room middle left → Ends middle (rest value)) :
    Ends before (first >>= rest) :=
  (of_quiet one).bind fun value middle runs => by
    have same := one.iter runs
    exact two value middle ⟨same ▸ room.faithful, same ▸ room.remaining⟩

theorem pure (value : α) : Ends before (pure value : CompileM N α) := of_quiet (.pure value)

theorem throw {error : Error} (other : error ≠ .outOfFuel) :
    Ends before (MonadExcept.throw error : CompileM N α) := other

theorem current {rest : Token → CompileM N β} (two : Ends before (rest before.tokenIter.token)) :
    Ends before (current >>= rest) := two

theorem get {rest : Compiler N → CompileM N β} (two : Ends before (rest before)) :
    Ends before (MonadState.get >>= rest) := two

/-- A phrase that may be empty. -/
theorem phrase (room : Room before left) (yields : Yields before first part)
    (inside : ∀ types, part types → .eof ∉ types) (one : Ends before first)
    (two : ∀ value middle, Room middle left → Ends middle (rest value)) :
    Ends before (first >>= rest) :=
  one.bind fun value middle runs => by
    obtain ⟨types, consumes, holds⟩ := yields value middle runs room.faithful
    have read := consumes.remaining (inside types holds)
    exact two value middle ⟨consumes.faithful room.faithful,
      Nat.le_trans (Nat.le_trans (Nat.le_add_right _ _) read) room.remaining⟩

/-- A phrase that is not. -/
theorem solid (room : Room before left) (yields : Yields before first part)
    (inside : ∀ types, part types → types ≠ [] ∧ .eof ∉ types) (one : Ends before first)
    (two : ∀ value middle less, less < left → Room middle less → Ends middle (rest value)) :
    Ends before (first >>= rest) :=
  one.bind fun value middle runs => by
    obtain ⟨types, consumes, holds⟩ := yields value middle runs room.faithful
    obtain ⟨nonempty, noEof⟩ := inside types holds
    have read := consumes.remaining noEof
    have length := List.length_pos_iff.mpr nonempty
    have bound := room.remaining
    exact two value middle _ (by omega) ⟨consumes.faithful room.faithful, Nat.le_refl _⟩

theorem next_of {rest : Token → CompileM N β} {type : TokenType} (room : Room before left)
    (same : before.tokenIter.token.type = type) (inside : type ≠ .eof)
    (two : ∀ token middle less, less < left → Room middle less → Ends middle (rest token)) :
    Ends before (next >>= rest) := by
  have notEnd : before.tokenIter.token.type ≠ .eof := same ▸ inside
  have here : Ends before (next : CompileM N Token) := by
    rw [Ends, next, run_get_bind]
    cases advances : before.tokenIter.advance with
    | error error =>
        change error ≠ .outOfFuel
        exact advance_error advances
    | ok iter =>
        rw [run_lift_bind rfl]
        exact rfl
  refine here.bind fun token middle runs => ?_
  obtain ⟨-, advances⟩ := next_run runs
  have step := advance_remaining advances notEnd
  have bound := room.remaining
  exact two token middle _ (by omega) ⟨advance_faithful advances, Nat.le_refl _⟩

/-- The last action that reads. -/
theorem finish (one : Ends before first) (two : ∀ value, Quiet (rest value)) :
    Ends before (first >>= rest) :=
  one.bind fun value _ _ => of_quiet (two value)

theorem ensures {token : Token} {type : TokenType} {rest : Unit → CompileM N β}
    (two : token.type = type → Ends before (rest ())) :
    Ends before (liftM (ensureTokenIs token type) >>= rest) := by
  cases checks : ensureTokenIs token type with
  | error error => exact ensureTokenIs_error checks
  | ok done => exact two (ensureTokenIs_ok checks)

theorem expectCurrent {rest : Token → CompileM N β} {type : TokenType} (room : Room before left)
    (inside : type ≠ .eof)
    (two : ∀ token middle less, less < left → Room middle less → Ends middle (rest token)) :
    Ends before (expectCurrent type >>= rest) := by
  rw [Cpplox.expectCurrent]
  simp only [bind_assoc]
  exact current (ensures fun same => next_of room same inside two)

theorem expectNext {rest : Token → CompileM N β} {type : TokenType} (room : Room before left)
    (inside : type ≠ .eof)
    (two : ∀ token middle less, less < left → Room middle less → Ends middle (rest token)) :
    Ends before (expectNext type >>= rest) := by
  rw [Cpplox.expectNext]
  simp only [bind_assoc]
  cases advances : before.tokenIter.advance with
  | error error =>
      have fails : (Cpplox.next : CompileM N Token).run before = .error error := by
        rw [Cpplox.next, run_get_bind, advances]
        rfl
      rw [Ends, StateT.run_bind, fails]
      exact advance_error advances
  | ok iter =>
      by_cases same : before.tokenIter.token.type = type
      · exact next_of room same inside fun token middle less smaller room =>
          ensures fun _ => two token middle less smaller room
      · have runs : (Cpplox.next : CompileM N Token).run before =
            .ok (before.tokenIter.token, { before with tokenIter := iter }) := by
          rw [Cpplox.next, run_get_bind, run_lift_bind advances]
          rfl
        rw [Ends, run_ok_bind runs]
        exact .of_length rfl (ensures fun other => absurd other same)

theorem advanceIfMatch {rest : Bool → CompileM N β} {type : TokenType} (room : Room before left)
    (inside : type ≠ .eof)
    (found : ∀ middle less, less < left → Room middle less → Ends middle (rest true))
    (missing : before.tokenIter.token.type ≠ type → Ends before (rest false)) :
    Ends before (advanceIfMatch type >>= rest) := by
  rw [Cpplox.advanceIfMatch]
  simp only [bind_assoc]
  refine current ?_
  split
  next same =>
      simp only [bind_assoc]
      exact next_of room same inside fun _ => found
  next different => exact missing different

theorem inFunction {isClassInitMethod : Bool} {body : CompileM N α} (room : Room before left)
    (one : ∀ inner, Room inner left → Ends inner body) :
    Ends before (inFunction isClassInitMethod body) := by
  have inside := one (before.enterFunction isClassInitMethod) ⟨room.faithful, room.remaining⟩
  have enters : StateT.run (modify fun compiler => { compiler with
      scopeDepth := compiler.scopeDepth + 1
      back := { chunk := {}, isClassInitMethod }
      enclosing := compiler.back :: compiler.enclosing } : CompileM N Unit) before =
    .ok ((), before.enterFunction isClassInitMethod) := rfl
  rw [Ends] at inside
  rw [Ends, Cpplox.inFunction, run_ok_bind enters]
  cases runs : body.run (before.enterFunction isClassInitMethod) with
  | error error =>
      rw [StateT.run_bind, runs]
      rwa [runs] at inside
  | ok result =>
      obtain ⟨value, inner⟩ := result
      rw [runs] at inside
      rw [run_ok_bind runs, run_get_bind]
      cases functions : inner.enclosing with
      | nil =>
          rw [EndsWith, functions] at inside
          cases inside
      | cons outer rest =>
          rw [EndsWith, functions] at inside
          exact Nat.succ.inj inside

end Ends

theorem Derives.inside {dialect : Dialect} {category : Category} {types : List TokenType}
    (derives : Derives dialect category types) (solid : category.starts ≠ []) :
    types ≠ [] ∧ .eof ∉ types := by
  obtain ⟨first, rest, rfl, -⟩ := derives.opens solid
  refine ⟨List.cons_ne_nil _ _, derives.no_eof ?_⟩
  rintro rfl
  exact solid rfl

end Cpplox
