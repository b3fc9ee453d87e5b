import Cpplox.Grammar.Yields

namespace Cpplox

open TokenIterator

/-! Actions that read what stands ahead, unless a static check fails. -/

variable {N α β : Type}

def PassesTo (before : Compiler N) (last : TokenIterator) : Except Error (α × Compiler N) → Prop
  | .ok (_, after) => after.tokenIter = last ∧ after.enclosing.length = before.enclosing.length
  | .error error => IsStatic error

/-- The action ends at `last` or fails statically. -/
def Passes (before : Compiler N) (action : CompileM N α) (last : TokenIterator) : Prop :=
  PassesTo before last (action.run before)

/-- These types stand ahead, and then `last`. -/
structure Awaits (compiler : Compiler N) (types : List TokenType) (last : TokenIterator) : Prop where
  faithful : compiler.tokenIter.token.Faithful
  consumes : compiler.tokenIter.Consumes types last

variable {before : Compiler N} {types more : List TokenType} {type : TokenType}
  {last middle : TokenIterator} {first : CompileM N α} {rest : α → CompileM N β}

namespace Awaits

theorem type_eq (awaits : Awaits before (type :: more) last) : before.tokenIter.token.type = type :=
  awaits.consumes.1

theorem of_iter {after : Compiler N} (awaits : Awaits before types last)
    (same : after.tokenIter = before.tokenIter) : Awaits after types last :=
  ⟨same ▸ awaits.faithful, same ▸ awaits.consumes⟩

/-- What follows nothing is the end. -/
theorem last_eq (awaits : Awaits before [] last) : last = before.tokenIter := awaits.consumes

end Awaits

theorem PassesTo.of_length {middle : Compiler N} {result : Except Error (α × Compiler N)}
    (length : middle.enclosing.length = before.enclosing.length)
    (passes : PassesTo middle last result) : PassesTo before last result := by
  cases result with
  | error error => exact passes
  | ok pair => exact ⟨passes.1, passes.2.trans length⟩

namespace Passes

/-- A phrase, and what is done after it. -/
theorem bind (one : Passes before first middle)
    (two : ∀ value after, after.tokenIter = middle → Passes after (rest value) last) :
    Passes before (first >>= rest) last := by
  rw [Passes] at one
  rw [Passes, StateT.run_bind]
  cases runs : first.run before with
  | error error => rwa [runs] at one
  | ok result =>
      obtain ⟨value, after⟩ := result
      rw [runs] at one
      exact PassesTo.of_length one.2 (two value after one.1)

theorem phrase (awaits : Awaits before (types ++ more) last)
    (one : ∀ middle, middle.Consumes more last → Awaits before types middle →
      Passes before first middle)
    (two : ∀ value after, Awaits after more last → Passes after (rest value) last) :
    Passes before (first >>= rest) last := by
  obtain ⟨middle, consumes, consumesMore⟩ := awaits.consumes.split
  refine (one middle consumesMore ⟨awaits.faithful, consumes⟩).bind fun value after same => ?_
  exact two value after ⟨same ▸ consumes.faithful awaits.faithful, same ▸ consumesMore⟩

theorem of_quiet {action : CompileM N α} (quiet : Quiet action) (awaits : Awaits before [] last) :
    Passes before action last := by
  have here := quiet before
  have same : last = before.tokenIter := awaits.consumes
  rw [Passes]
  cases runs : action.run before with
  | error error => rwa [runs] at here
  | ok result =>
      rw [runs] at here
      exact ⟨here.1.trans same.symm, here.2⟩

theorem quiet (one : Quiet first) (awaits : Awaits before types last)
    (two : ∀ value after, Awaits after types last → Passes after (rest value) last) :
    Passes before (first >>= rest) last :=
  (of_quiet one ⟨awaits.faithful, rfl⟩).bind fun value after same =>
    two value after (awaits.of_iter same)

theorem throw {error : Error} (static : IsStatic error) :
    Passes before (MonadExcept.throw error : CompileM N α) last := static

theorem current {rest : Token → CompileM N β}
    (two : Passes before (rest before.tokenIter.token) last) :
    Passes before (current >>= rest) last := two

theorem of_current {rest : Token → CompileM N β}
    (passes : Passes before (Cpplox.current >>= rest) last) :
    Passes before (rest before.tokenIter.token) last := passes

theorem get {rest : Compiler N → CompileM N β} (two : Passes before (rest before) last) :
    Passes before (MonadState.get >>= rest) last := two

theorem next_typed {rest : Token → CompileM N β} (awaits : Awaits before (type :: more) last)
    (two : ∀ token after, token.type = type → Awaits after more last →
      Passes after (rest token) last) : Passes before (next >>= rest) last := by
  obtain ⟨same, iter, advances, consumes⟩ := awaits.consumes
  have runs : Cpplox.next.run before =
      .ok (before.tokenIter.token, { before with tokenIter := iter }) := by
    rw [Cpplox.next, run_get_bind, run_lift_bind advances]
    rfl
  rw [Passes, run_ok_bind runs]
  have later := two before.tokenIter.token { before with tokenIter := iter } same
    ⟨advance_faithful advances, consumes⟩
  exact PassesTo.of_length rfl later

theorem next {rest : Token → CompileM N β} (awaits : Awaits before (type :: more) last)
    (two : ∀ token after, Awaits after more last → Passes after (rest token) last) :
    Passes before (next >>= rest) last :=
  next_typed awaits fun token after _ => two token after

theorem ensures {token : Token} {rest : Unit → CompileM N β} (same : token.type = type)
    (two : Passes before (rest ()) last) :
    Passes before (liftM (ensureTokenIs token type) >>= rest) last := by
  rw [ensureTokenIs, if_pos same]
  exact two

theorem expectCurrent {rest : Token → CompileM N β} (awaits : Awaits before (type :: more) last)
    (two : ∀ token after, Awaits after more last → Passes after (rest token) last) :
    Passes before (expectCurrent type >>= rest) last := by
  rw [Cpplox.expectCurrent]
  simp only [bind_assoc]
  exact current (ensures awaits.type_eq (next awaits two))

theorem expectNext {rest : Token → CompileM N β} (awaits : Awaits before (type :: more) last)
    (two : ∀ token after, Awaits after more last → Passes after (rest token) last) :
    Passes before (expectNext type >>= rest) last := by
  rw [Cpplox.expectNext]
  simp only [bind_assoc]
  exact next_typed awaits fun token after same awaits => ensures same (two token after awaits)

theorem found {rest : Bool → CompileM N β} (awaits : Awaits before (type :: more) last)
    (two : ∀ after, Awaits after more last → Passes after (rest true) last) :
    Passes before (advanceIfMatch type >>= rest) last := by
  rw [advanceIfMatch]
  simp only [bind_assoc]
  refine current ?_
  rw [if_pos awaits.type_eq]
  simp only [bind_assoc]
  exact next awaits fun _ => two

theorem missing {rest : Bool → CompileM N β} (different : before.tokenIter.token.type ≠ type)
    (two : Passes before (rest false) last) :
    Passes before (advanceIfMatch type >>= rest) last := by
  rw [advanceIfMatch]
  simp only [bind_assoc]
  refine current ?_
  rw [if_neg different]
  exact two

/-- The last phrase, after which nothing is read. -/
theorem finish (awaits : Awaits before types last)
    (one : Awaits before types last → Passes before first last) (two : ∀ value, Quiet (rest value)) :
    Passes before (first >>= rest) last :=
  (one awaits).bind fun value _ same =>
    of_quiet (two value) ⟨same ▸ awaits.consumes.faithful awaits.faithful, same.symm⟩

theorem inFunction {isClassInitMethod : Bool} {body : CompileM N α}
    (awaits : Awaits before types last)
    (one : ∀ inner, Awaits inner types last → Passes inner body last) :
    Passes before (inFunction isClassInitMethod body) last := by
  have inside := one (before.enterFunction isClassInitMethod) ⟨awaits.faithful, awaits.consumes⟩
  rw [Passes] at inside
  have enters : StateT.run (modify fun compiler => { compiler with
      scopeDepth := compiler.scopeDepth + 1
      back := { chunk := {}, isClassInitMethod }
      enclosing := compiler.back :: compiler.enclosing } : CompileM N Unit) before =
    .ok ((), before.enterFunction isClassInitMethod) := rfl
  rw [Passes, Cpplox.inFunction, run_ok_bind enters]
  cases runs : body.run (before.enterFunction isClassInitMethod) with
  | error error =>
      rw [StateT.run_bind, runs]
      rwa [runs] at inside
  | ok result =>
      obtain ⟨value, inner⟩ := result
      rw [runs] at inside
      obtain ⟨ends, length⟩ := inside
      rw [run_ok_bind runs, run_get_bind]
      cases functions : inner.enclosing with
      | nil => rw [functions] at length; cases length
      | cons outer rest =>
          rw [functions] at length
          exact ⟨ends, Nat.succ.inj length⟩

end Passes

end Cpplox
