import Cpplox.Scanner.Tokenize

namespace Cpplox

open Data

/-! On which line a token begins, and which line an error names. -/

def unexpectedCharacterError (line : Nat) (char : Char) : Error :=
  .runtimeError (atLine line ++ ": Unexpected character \"".toList ++ [char] ++ "\".".toList)

def unterminatedStringError (line : Nat) : Error :=
  .runtimeError (atLine line ++ ": Unterminated string.".toList)

/-- The line on which a text goes on. -/
def lineAfter (text : Text) : Nat := 1 + text.count '\n'

/-- Why the scanner gives up, where `counted` is the line it has come to behind some more
of the text. -/
inductive GivesUp (counted : Text → Nat) : Text → Error → Prop where
  | character {char : Char} {rest : Text} : (∀ kind tail, ¬ Element kind (char :: tail)) →
      GivesUp counted (char :: rest) (unexpectedCharacterError (counted []) char)
  | string {body : Text} : '"' ∉ body →
      GivesUp counted ('"' :: body) (unterminatedStringError (counted body))

/-- The line an iterator has come to behind some more of the text. -/
def counted (line : UInt32) (more : Text) : Nat := (line + newlines more).toNat

theorem GivesUp.unexpected {char : Char} (none : ∀ kind tail, ¬ Element kind (char :: tail))
    (line : UInt32) (rest : Text) :
    GivesUp (counted line) (char :: rest) (unexpectedCharacterError line.toNat char) := by
  have here : counted line [] = line.toNat := by rw [counted, newlines_nil, UInt32.add_zero]
  exact here ▸ .character none

/-- Behind blanks and comments. -/
def FailsBehind (text : Text) (line : UInt32) (error : Error) : Prop :=
  ∃ after reached, Skips text line after reached ∧
    GivesUp (counted reached) after error

theorem FailsBehind.skip {text after : Text} {line reached : UInt32} {error : Error}
    (skip : ∀ {rest stop}, Skips after reached rest stop → Skips text line rest stop)
    (fails : FailsBehind after reached error) : FailsBehind text line error := by
  obtain ⟨rest, stop, skips, givesUp⟩ := fails
  exact ⟨rest, stop, skip skips, givesUp⟩

theorem scanStringToken_fails {rest : Text} {line : UInt32} {error : Error}
    (fails : scanStringToken rest line = .error error) : FailsBehind ('"' :: rest) line error := by
  have split := List.takeWhile_append_dropWhile (p := (· != '"')) (l := rest)
  simp only [scanStringToken] at fails
  split at fails
  case h_2 => cases fails
  case h_1 drops =>
    rw [drops, List.append_nil] at split
    rw [split] at fails
    cases fails
    refine ⟨_, _, .refl _ _, .string fun member => ?_⟩
    rw [← split] at member
    simpa using List.mem_takeWhile_imp member

theorem scanLoop_fails {fuel : Nat} {line : UInt32} {text : Text} {error : Error}
    (fails : scanLoop fuel text line = .error error) : FailsBehind text line error := by
  fun_induction scanLoop fuel text line
  case case5 => exact scanStringToken_fails fails
  -- blanks: only the newline moves to another line
  case case6 ih | case7 ih | case8 ih => exact (ih fails).skip (.blank (by decide) (by decide))
  case case9 ih => exact (ih fails).skip .newline
  case case10 ih => exact (ih fails).skip .comment
  case case16 single _ _ _ _ _ _ _ _ _ _ =>
      rw [single] at fails
      cases fails
  case case17 letter digit single quote space cr tab newline slash bang equal greater less =>
      rw [single] at fails
      cases fails
      have begins : Unscannable (_ :: _) := unscannable_of_default letter digit quote
        (by
          simp only [blanks, List.mem_cons, List.not_mem_nil, or_false]
          rintro (same | same | same | same) <;> contradiction)
        single
        (by
          simp only [List.mem_cons, List.not_mem_nil, or_false]
          rintro (same | same | same | same | same) <;> contradiction) []
      rcases begins with none | ⟨same, -⟩
      · exact ⟨_, _, .refl _ _, .unexpected none _ _⟩
      · exact absurd same quote
  all_goals cases fails

namespace TokenIterator

/-- The iterators over a source: the first one, and what `operator++` makes of one.  A copy
is the iterator it was made from, and stays what it is when that one goes on. -/
inductive Over (source : Text) : TokenIterator → Prop where
  | first {iter : TokenIterator} : ofSource source = .ok iter → Over source iter
  | next {iter after : TokenIterator} : Over source iter → iter.advance = .ok after →
      Over source after

/-- Where the current token begins. -/
def position (source : Text) (iter : TokenIterator) : Nat :=
  if iter.token.type = .eof then source.length
  else source.length - iter.rest.length - iter.token.lexeme.length

/-- What is behind an iterator has been divided into elements, and its lines were counted. -/
structure Counted (source : Text) (rest : Text) (line : UInt32) : Prop where
  divided : ∃ elements, Divides Element source elements rest
  counted : ∃ earlier, source = earlier ++ rest ∧ line = 1 + newlines earlier

theorem Counted.start (source : Text) : Counted source source 1 :=
  ⟨⟨[], .done source⟩, [], rfl, by simp⟩

theorem Counted.skips {source text after : Text} {line reached : UInt32}
    (counted : Counted source text line) (skips : Skips text line after reached) :
    Counted source after reached := by
  obtain ⟨⟨elements, divides⟩, earlier, split, rfl⟩ := counted
  obtain ⟨skipped, -, more, rfl⟩ := skips
  refine ⟨⟨_, divides.append more⟩, earlier ++ (skipped.map Prod.snd).flatten, ?_, ?_⟩
  · rw [List.append_assoc, ← more.text_eq, split]
  · rw [newlines_append, UInt32.add_assoc]

/-- A token and the place it was scanned at. -/
structure Placed (source : Text) (iter : TokenIterator) : Prop where
  reached : Counted source iter.rest iter.line
  begins : iter.token.type = .eof ∧ iter.rest = [] ∧ iter.token.line = iter.line ∨
    iter.token.type ≠ .eof ∧ ∃ earlier, source = earlier ++ (iter.token.lexeme ++ iter.rest) ∧
      iter.token.line = 1 + newlines earlier

theorem Counted.scans {source text : Text} {line : UInt32} {scanned : Cpplox.Scanned}
    (counted : Counted source text line) (scans : scanToken text line = .ok scanned) :
    Placed source ⟨scanned.2.1, scanned.2.2, scanned.1⟩ := by
  have outcome := scanToken_outcome text line
  rw [scans] at outcome
  obtain ⟨after, reached, skips, ⟨rfl, rfl⟩ | token⟩ := outcome
  · exact ⟨counted.skips skips, .inl ⟨rfl, rfl, rfl⟩⟩
  · obtain ⟨type, lexeme, rest, rfl, munches, rfl⟩ := token
    obtain ⟨⟨elements, divides⟩, earlier, split, rfl⟩ := counted.skips skips
    refine ⟨⟨⟨_, divides.append munches.single⟩, earlier ++ lexeme, ?_, ?_⟩,
      .inr ⟨munches.inGrammar.type_ne_eof, earlier, split, rfl⟩⟩
    · rw [split, List.append_assoc]
    · rw [newlines_append, UInt32.add_assoc]

theorem Over.placed {source : Text} {iter : TokenIterator} (reached : Over source iter) :
    Placed source iter := by
  induction reached with
  | first scans =>
      unfold ofSource at scans
      cases found : scanToken source 1 with
      | error error => rw [found] at scans; cases scans
      | ok scanned => rw [found] at scans; cases scans; exact (Counted.start source).scans found
  | @next iter after _ advances ih =>
      unfold advance at advances
      cases found : scanToken iter.rest iter.line with
      | error error => rw [found] at advances; cases advances
      | ok scanned => rw [found] at advances; cases advances; exact ih.reached.scans found

/-- The token stands at its position, and its line is counted up to there. -/
theorem Placed.line {source : Text} {iter : TokenIterator} (placed : Placed source iter) :
    iter.token.line = 1 + newlines (source.take (iter.position source)) ∧
      source.drop (iter.position source) =
        if iter.token.type = .eof then [] else iter.token.lexeme ++ iter.rest := by
  obtain ⟨⟨-, earlier, split, counted⟩, ⟨atEnd, nothing, same⟩ | ⟨token, before, text, line⟩⟩ := placed
  · rw [nothing, List.append_nil] at split
    simp [position, atEnd, same, counted, split]
  · have length : iter.position source = before.length := by
      rw [position, if_neg token, text]
      simp only [List.length_append]
      omega
    rw [length, text, if_neg token, List.take_left, List.drop_left]
    exact ⟨line, rfl⟩

end TokenIterator

theorem toNat_counted (text : Text) : (1 + newlines text).toNat = lineAfter text % UInt32.size := by
  rw [newlines, UInt32.toNat_add, UInt32.toNat_ofNat', lineAfter]
  exact Nat.add_mod_mod 1 _ _

/-- The counter has not come round to zero. -/
theorem counted_eq (text : Text) :
    (1 + newlines text).toNat = lineAfter text ↔ text.count '\n' < UInt32.size - 1 := by
  rw [toNat_counted, lineAfter, UInt32.size]
  omega

theorem decimal_injective {value other : Nat} (same : decimal value = decimal other) : value = other := by
  have digits := congrArg (fun text => Nat.ofDigitChars 10 text 0) same
  simpa [decimal, Nat.ofDigitChars_toDigits] using digits

theorem atLine_injective {line other : Nat} {more : Text}
    (same : atLine line ++ more = atLine other ++ more) : line = other := by
  have texts : "[Line ".toList ++ decimal line ++ "] Error".toList =
      "[Line ".toList ++ decimal other ++ "] Error".toList := List.append_cancel_right same
  exact decimal_injective (List.append_cancel_left (List.append_cancel_right texts))

theorem unexpectedCharacterError_injective {line other : Nat} {char : Char}
    (same : unexpectedCharacterError line char = unexpectedCharacterError other char) : line = other := by
  simp only [unexpectedCharacterError, Error.runtimeError.injEq, List.append_assoc] at same
  exact atLine_injective same

theorem unterminatedStringError_injective {line other : Nat}
    (same : unterminatedStringError line = unterminatedStringError other) : line = other := by
  simp only [unterminatedStringError, Error.runtimeError.injEq] at same
  exact atLine_injective same

/-- How an error is related to the place where the scanner gave up, behind `earlier`: it names
the line of the character it is about (of the end of the source, when a string does not end)
exactly when fewer than 2³² - 1 newlines come before. -/
inductive NamesLine (earlier : Text) : Text → Error → Prop where
  | character {char : Char} {rest : Text} {error : Error} : (∀ kind tail, ¬ Element kind (char :: tail)) →
      (error = unexpectedCharacterError (lineAfter earlier) char ↔
        earlier.count '\n' < UInt32.size - 1) → NamesLine earlier (char :: rest) error
  | string {body : Text} {error : Error} : '"' ∉ body →
      (error = unterminatedStringError (lineAfter (earlier ++ '"' :: body)) ↔
        (earlier ++ '"' :: body).count '\n' < UInt32.size - 1) → NamesLine earlier ('"' :: body) error

/-- Where the scanner gives up, behind the elements before it, and what its error says. -/
def FailsOnLine (source : Text) (error : Error) : Prop :=
  ∃ elements earlier rest, Divides Element source elements rest ∧ source = earlier ++ rest ∧
    NamesLine earlier rest error

theorem GivesUp.namesLine {earlier rest : Text} {error : Error}
    (givesUp : GivesUp (counted (1 + newlines earlier)) rest error) : NamesLine earlier rest error := by
  cases givesUp with
  | character none =>
      refine .character none (Iff.trans ?_ (counted_eq earlier))
      rw [counted, newlines_nil, UInt32.add_zero]
      exact ⟨unexpectedCharacterError_injective, congrArg (unexpectedCharacterError · _)⟩
  | @string body inside =>
      have whole : counted (1 + newlines earlier) body = (1 + newlines (earlier ++ '"' :: body)).toNat := by
        have quote : newlines ['"'] = 0 := rfl
        rw [counted, newlines_append, newlines_cons, quote, UInt32.zero_add, UInt32.add_assoc]
      refine .string inside (Iff.trans ?_ (counted_eq _))
      rw [whole]
      exact ⟨unterminatedStringError_injective, congrArg unterminatedStringError⟩

theorem FailsBehind.onLine {source text : Text} {line : UInt32} {error : Error}
    (fails : FailsBehind text line error) (counted : TokenIterator.Counted source text line) :
    FailsOnLine source error := by
  obtain ⟨after, reached, skips, givesUp⟩ := fails
  obtain ⟨⟨elements, divides⟩, earlier, split, rfl⟩ := counted.skips skips
  exact ⟨elements, earlier, after, divides, split, givesUp.namesLine⟩

/-- A token is on the line it begins on, and an error names the line of its character, exactly
when fewer than 2³² - 1 newlines come before. -/
theorem tokens_onLines (source : Text) :
    (∀ iter, TokenIterator.Over source iter →
      source.drop (iter.position source) =
        (if iter.token.type = .eof then [] else iter.token.lexeme ++ iter.rest) ∧
      (iter.token.line.toNat = 1 + (source.take (iter.position source)).count '\n' ↔
        (source.take (iter.position source)).count '\n' < UInt32.size - 1) ∧
      ∀ error, iter.advance = .error error → FailsOnLine source error) ∧
    ∀ error, TokenIterator.ofSource source = .error error → FailsOnLine source error := by
  have throws {text : Text} {line : UInt32} {error : Error} {A : Type} {f : Scanned → A}
      (fails : (scanToken text line).map f = .error error)
      (counted : TokenIterator.Counted source text line) : FailsOnLine source error := by
    cases found : scanToken text line with
    | ok scanned => rw [found] at fails; cases fails
    | error other =>
        rw [found] at fails
        cases fails
        exact (scanLoop_fails found).onLine counted
  refine ⟨fun iter reached => ?_, fun error fails => throws fails (.start source)⟩
  obtain ⟨line, begins⟩ := reached.placed.line
  refine ⟨begins, ?_, fun error fails => throws fails reached.placed.reached⟩
  rw [line]
  exact counted_eq _

/-- The newline inside a string counts for what comes after it. -/
example : (tokenize "\"a\nb\" // c\n;".toList).toOption.map (·.1.map (·.line)) = some [1, 3] := by
  decide +kernel

theorem scanLoop_newlines (count extra : Nat) (line : UInt32) :
    scanLoop (count + (extra + 1)) (List.replicate count '\n') line =
      .ok (⟨.eof, "EOF".toList, line + .ofNat count⟩, [], line + .ofNat count) := by
  induction count generalizing line with
  | zero =>
      rw [show UInt32.ofNat 0 = 0 from rfl, UInt32.add_zero, Nat.zero_add]
      rfl
  | succ count ih =>
      have last : line + .ofNat (count + 1) = line + 1 + .ofNat count := by
        rw [Nat.add_comm count 1, UInt32.ofNat_add, ← UInt32.add_assoc]
        rfl
      rw [last, Nat.add_right_comm]
      exact ih (line + 1)

theorem ofSource_newlines (count : Nat) :
    TokenIterator.ofSource (List.replicate count '\n') = .ok (.atEof (1 + .ofNat count)) := by
  rw [TokenIterator.ofSource, scanToken, List.length_replicate, scanLoop_newlines count 0]
  rfl

/-- Behind 2³² - 1 newlines the end of the source is on line 0. -/
theorem tokens_onLine_zero :
    ∃ iter, TokenIterator.Over (List.replicate (UInt32.size - 1) '\n') iter ∧ iter.token.type = .eof ∧
      iter.token.line.toNat ≠ 1 + (List.replicate (UInt32.size - 1) '\n').count '\n' := by
  have line : (1 + UInt32.ofNat (UInt32.size - 1)).toNat = 0 := rfl
  refine ⟨_, .first (ofSource_newlines _), rfl, fun same => ?_⟩
  exact absurd (line.symm.trans same) (Nat.ne_of_lt (Nat.lt_add_right _ Nat.one_pos))

end Cpplox
