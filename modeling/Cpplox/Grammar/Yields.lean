import Cpplox.Grammar.Consumes
import Cpplox.Grammar.Quiet

namespace Cpplox

open TokenIterator

/-! What a successful action has read. -/

variable {N α β : Type}

/-- If the action succeeds here, it has consumed a phrase. -/
def Yields (before : Compiler N) (action : CompileM N α) (phrase : List TokenType → Prop) : Prop :=
  ∀ value after, action.run before = .ok (value, after) → before.tokenIter.token.Faithful →
    ∃ types, before.tokenIter.Consumes types after.tokenIter ∧ phrase types

variable {before : Compiler N} {first : CompileM N α} {rest : α → CompileM N β}
  {phrase : List TokenType → Prop}

theorem Quiet.yields {action : CompileM N α} (quiet : Quiet action) (empty : phrase []) :
    Yields before action phrase :=
  fun _ _ runs _ => ⟨[], quiet.iter runs, empty⟩

theorem next_run {token : Token} {after : Compiler N} (runs : next.run before = .ok (token, after)) :
    token = before.tokenIter.token ∧ before.tokenIter.advance = .ok after.tokenIter := by
  obtain ⟨_, _, gets, runs⟩ := run_bind_ok.mp runs
  cases gets
  obtain ⟨iter, advances, runs⟩ := run_lift_bind_ok.mp runs
  cases runs
  exact ⟨rfl, advances⟩

theorem ensureTokenIs_ok {token : Token} {expected : TokenType} {done : Unit}
    (ensures : ensureTokenIs token expected = .ok done) : token.type = expected := by
  unfold ensureTokenIs at ensures
  split at ensures
  next same => exact same
  next => cases ensures

namespace Yields

theorem mono {action : CompileM N α} {smaller : List TokenType → Prop}
    (yields : Yields before action smaller) (implies : ∀ types, smaller types → phrase types) :
    Yields before action phrase := by
  intro value after runs faithful
  obtain ⟨types, consumes, holds⟩ := yields value after runs faithful
  exact ⟨types, consumes, implies types holds⟩

theorem bind {part : List TokenType → Prop} (one : Yields before first part)
    (two : ∀ value types middle, part types →
      Yields middle (rest value) fun more => phrase (types ++ more)) :
    Yields before (first >>= rest) phrase := by
  intro value after runs faithful
  obtain ⟨made, middle, runsFirst, runsRest⟩ := run_bind_ok.mp runs
  obtain ⟨types, consumes, holds⟩ := one made middle runsFirst faithful
  obtain ⟨more, consumesMore, whole⟩ :=
    two made types middle holds value after runsRest (consumes.faithful faithful)
  exact ⟨types ++ more, consumes.append consumesMore, whole⟩

/-- The last phrase, after which nothing is read. -/
theorem last {part : List TokenType → Prop} (one : Yields before first part)
    (two : ∀ value, Quiet (rest value)) (whole : ∀ types, part types → phrase types) :
    Yields before (first >>= rest) phrase :=
  one.bind fun value types _ holds => (two value).yields (by simpa using whole types holds)

theorem quiet (one : Quiet first) (two : ∀ value middle, Yields middle (rest value) phrase) :
    Yields before (first >>= rest) phrase := by
  intro value after runs faithful
  obtain ⟨made, middle, runsFirst, runsRest⟩ := run_bind_ok.mp runs
  have same := one.iter runsFirst
  obtain ⟨types, consumes, holds⟩ := two made middle value after runsRest (same ▸ faithful)
  exact ⟨types, same ▸ consumes, holds⟩

theorem current {rest : Token → CompileM N β}
    (two : Yields before (rest before.tokenIter.token) phrase) :
    Yields before (current >>= rest) phrase := two

theorem get {rest : Compiler N → CompileM N β} (two : Yields before (rest before) phrase) :
    Yields before (MonadState.get >>= rest) phrase := two

theorem throw {error : Error} : Yields before (MonadExcept.throw error : CompileM N α) phrase := nofun

theorem next {rest : Token → CompileM N β}
    (two : ∀ middle, Yields middle (rest before.tokenIter.token)
      fun more => phrase (before.tokenIter.token.type :: more)) :
    Yields before (next >>= rest) phrase := by
  intro value after runs faithful
  obtain ⟨token, middle, takes, runs⟩ := run_bind_ok.mp runs
  obtain ⟨rfl, advances⟩ := next_run takes
  obtain ⟨more, consumes, whole⟩ := two middle value after runs (advance_faithful advances)
  exact ⟨_, .cons rfl advances consumes, whole⟩

theorem next_of {rest : Token → CompileM N β} {type : TokenType}
    (same : before.tokenIter.token.type = type)
    (two : ∀ token middle, Yields middle (rest token) fun more => phrase (type :: more)) :
    Yields before (Cpplox.next >>= rest) phrase :=
  .next fun middle => same ▸ two _ middle

theorem expectNext {rest : Token → CompileM N β} {expected : TokenType}
    (two : ∀ token middle, Yields middle (rest token) fun more => phrase (expected :: more)) :
    Yields before (expectNext expected >>= rest) phrase := by
  intro value after runs faithful
  obtain ⟨token, middle, expects, runs⟩ := run_bind_ok.mp runs
  obtain ⟨_, _, takes, expects⟩ := run_bind_ok.mp expects
  obtain ⟨_, ensures, expects⟩ := run_lift_bind_ok.mp expects
  cases expects
  obtain ⟨rfl, advances⟩ := next_run takes
  obtain ⟨more, consumes, whole⟩ := two _ middle value after runs (advance_faithful advances)
  exact ⟨_, .cons (ensureTokenIs_ok ensures) advances consumes, whole⟩

theorem expectCurrent {rest : Token → CompileM N β} {expected : TokenType}
    (two : ∀ token middle, Yields middle (rest token) fun more => phrase (expected :: more)) :
    Yields before (expectCurrent expected >>= rest) phrase := by
  intro value after runs faithful
  obtain ⟨token, middle, expects, runs⟩ := run_bind_ok.mp runs
  rw [Cpplox.expectCurrent, run_current_bind] at expects
  obtain ⟨_, ensures, takes⟩ := run_lift_bind_ok.mp expects
  obtain ⟨rfl, advances⟩ := next_run takes
  obtain ⟨more, consumes, whole⟩ := two _ middle value after runs (advance_faithful advances)
  exact ⟨_, .cons (ensureTokenIs_ok ensures) advances consumes, whole⟩

theorem advanceIfMatch {rest : Bool → CompileM N β} {type : TokenType}
    (found : ∀ middle, Yields middle (rest true) fun more => phrase (type :: more))
    (missing : before.tokenIter.token.type ≠ type → Yields before (rest false) phrase) :
    Yields before (advanceIfMatch type >>= rest) phrase := by
  intro value after runs faithful
  obtain ⟨matched, middle, advances, runs⟩ := run_bind_ok.mp runs
  rw [Cpplox.advanceIfMatch, run_current_bind] at advances
  split at advances
  next same =>
      obtain ⟨_, _, takes, advances⟩ := run_bind_ok.mp advances
      cases advances
      obtain ⟨rfl, advances⟩ := next_run takes
      obtain ⟨more, consumes, whole⟩ := found middle value after runs (advance_faithful advances)
      exact ⟨_, .cons same advances consumes, whole⟩
  next different =>
      cases advances
      exact missing different value after runs faithful

theorem inFunction {isClassInitMethod : Bool} {body : CompileM N α}
    (one : ∀ inner : Compiler N, Yields inner body phrase) :
    Yields before (inFunction isClassInitMethod body) phrase := by
  rintro ⟨value, compiled⟩ after runs faithful
  obtain ⟨inner, outer, rest, runsBody, -, rfl, rfl⟩ := inFunction_run runs
  exact one (before.enterFunction isClassInitMethod) value inner runsBody faithful

end Yields

end Cpplox
