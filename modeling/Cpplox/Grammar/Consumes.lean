import Cpplox.Compiler.Scope
import Cpplox.Grammar.Derives
import Cpplox.Scanner.Tokenize

namespace Cpplox

open Data

/-! Token types read off an iterator. -/

/-- The token is what the lexical grammar says its text is. -/
def Token.Faithful (token : Token) : Prop :=
  Element (some token.type) token.lexeme ∨ token.type = .eof ∧ token.lexeme = "EOF".toList

theorem scanToken_faithful {text : Text} {line : UInt32} {scanned : Scanned}
    (scans : scanToken text line = .ok scanned) : scanned.1.Faithful := by
  have outcome := scanToken_outcome text line
  rw [scans] at outcome
  obtain ⟨_, _, _, ⟨_, rfl⟩ | ⟨_, _, _, _, munches, rfl⟩⟩ := outcome
  · exact .inr ⟨rfl, rfl⟩
  · exact .inl munches.inGrammar

namespace TokenIterator

/-- Advancing from one iterator to the other yields tokens of these types. -/
def Consumes : TokenIterator → List TokenType → TokenIterator → Prop
  | iter, [], last => last = iter
  | iter, type :: rest, last =>
      iter.token.type = type ∧ ∃ after, iter.advance = .ok after ∧ after.Consumes rest last

variable {iter middle last after : TokenIterator} {type : TokenType} {types more : List TokenType}

namespace Consumes

theorem nil : iter.Consumes [] iter := rfl

theorem single (same : iter.token.type = type) (advances : iter.advance = .ok after) :
    iter.Consumes [type] after := ⟨same, after, advances, rfl⟩

theorem append (first : iter.Consumes types middle) (second : middle.Consumes more last) :
    iter.Consumes (types ++ more) last := by
  induction types generalizing iter with
  | nil => exact first ▸ second
  | cons type types ih =>
      obtain ⟨same, after, advances, rest⟩ := first
      exact ⟨same, after, advances, ih rest⟩

theorem cons (same : iter.token.type = type) (advances : iter.advance = .ok after)
    (rest : after.Consumes types last) : iter.Consumes (type :: types) last :=
  ⟨same, after, advances, rest⟩

theorem split (consumes : iter.Consumes (types ++ more) last) :
    ∃ middle, iter.Consumes types middle ∧ middle.Consumes more last := by
  induction types generalizing iter with
  | nil => exact ⟨iter, rfl, consumes⟩
  | cons type types ih =>
      obtain ⟨same, after, advances, rest⟩ := consumes
      obtain ⟨middle, first, second⟩ := ih rest
      exact ⟨middle, ⟨same, after, advances, first⟩, second⟩

theorem unique (consumes : iter.Consumes types last) (other : iter.Consumes types middle) :
    last = middle := by
  induction types generalizing iter with
  | nil => exact consumes.trans other.symm
  | cons type types ih =>
      obtain ⟨_, after, advances, rest⟩ := consumes
      obtain ⟨_, laterAfter, laterAdvances, laterRest⟩ := other
      rw [advances] at laterAdvances
      cases laterAdvances
      exact ih rest laterRest

end Consumes

theorem advance_faithful (advances : iter.advance = .ok after) : after.token.Faithful := by
  unfold advance at advances
  cases scans : scanToken iter.rest iter.line with
  | error error => rw [scans] at advances; cases advances
  | ok scanned => rw [scans] at advances; cases advances; exact scanToken_faithful scans

theorem ofSource_faithful {source : Text} (scans : ofSource source = .ok iter) :
    iter.token.Faithful := by
  unfold ofSource at scans
  cases first : scanToken source 1 with
  | error error => rw [first] at scans; cases scans
  | ok scanned => rw [first] at scans; cases scans; exact scanToken_faithful first

theorem Consumes.faithful (consumes : iter.Consumes types last) (faithful : iter.token.Faithful) :
    last.token.Faithful := by
  induction types generalizing iter with
  | nil => exact consumes ▸ faithful
  | cons type types ih =>
      obtain ⟨_, after, advances, rest⟩ := consumes
      exact ih rest (advance_faithful advances)

end TokenIterator

theorem Token.Faithful.this_iff {token : Token} (faithful : token.Faithful) :
    token.type = .this_ ↔ token.lexeme = thisName := by
  constructor
  · intro same
    rcases faithful with element | ⟨ends, -⟩
    · rw [same] at element
      generalize word : token.lexeme = lexeme at element
      have keyword : ∀ entry ∈ keywords, entry.1 = .this_ → entry.2 = thisName := by decide
      have operator : ∀ entry ∈ operators, entry.1 ≠ .this_ := by decide
      cases element with
      | keyword listed => exact keyword _ listed rfl
      | operator listed => exact absurd rfl (operator _ listed)
    · cases same.symm.trans ends
  · intro same
    rcases faithful with element | ⟨-, ends⟩
    · have kind := element.kind_eq
      rw [same] at kind
      exact Option.some.inj kind
    · cases same.symm.trans ends

end Cpplox
