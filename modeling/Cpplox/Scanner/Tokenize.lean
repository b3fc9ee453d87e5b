import Cpplox.Scanner.Exact

namespace Cpplox

open Data

namespace TokenIterator

/-- Increments the iterator until it yields the end of the source. -/
def untilEof : Nat → TokenIterator → Except Error (List Token × TokenIterator)
  | 0, _ => .error .outOfFuel
  | fuel + 1, iter =>
      if iter.token.type = .eof then .ok ([], iter)
      else do
        let after ← iter.advance
        let (tokens, last) ← after.untilEof fuel
        return (iter.token :: tokens, last)

/-- The iterator at the end of the source. -/
def atEof (line : UInt32) : TokenIterator := ⟨[], line, ⟨.eof, "EOF".toList, line⟩⟩

@[simp] theorem advance_atEof (line : UInt32) : (atEof line).advance = .ok (atEof line) := rfl

end TokenIterator

/-- The tokens of a source before its end, and the iterator that stands there. -/
def tokenize (source : Text) : Except Error (List Token × TokenIterator) := do
  let iter ← TokenIterator.ofSource source
  iter.untilEof (source.length + 1)

/-- The tokens among the elements, each on the line it begins on. -/
def tokensOf : UInt32 → List (Option TokenType × Text) → List Token
  | _, [] => []
  | line, (none, skipped) :: rest => tokensOf (line + newlines skipped) rest
  | line, (some type, lexeme) :: rest =>
      ⟨type, lexeme, line⟩ :: tokensOf (line + newlines lexeme) rest

/-- A character that begins no element, or a quote with no closing one. -/
def Unscannable : Text → Prop
  | [] => False
  | first :: rest => (∀ kind tail, ¬ Element kind (first :: tail)) ∨ first = '"' ∧ '"' ∉ rest

theorem Unscannable.stuck {text : Text} (unscannable : Unscannable text) : Stuck Element text := by
  intro kind lexeme begins element
  cases text with
  | nil => exact unscannable
  | cons first rest =>
      obtain ⟨head, tail, rfl⟩ := List.exists_cons_of_ne_nil element.ne_nil
      obtain ⟨same, starts⟩ := List.cons_prefix_cons.mp begins
      subst same
      rcases unscannable with none | ⟨rfl, unclosed⟩
      · exact none kind tail element
      · obtain ⟨body, rfl, -⟩ := element.begins.of_quote
        exact unclosed (starts.subset (by simp))

theorem stuck_nil : Stuck Element [] :=
  fun _ _ begins element => element.ne_nil (List.prefix_nil.mp begins)

/-- Blanks and comments lie between two positions. -/
def Skips (text : Text) (line : UInt32) (after : Text) (reached : UInt32) : Prop :=
  ∃ skipped, (∀ element ∈ skipped, element.1 = none) ∧ Divides Element text skipped after ∧
    reached = line + newlines (skipped.map Prod.snd).flatten

theorem Skips.refl (text : Text) (line : UInt32) : Skips text line text line :=
  ⟨[], by simp, .done text, by simp⟩

theorem Skips.element {skipped after rest : Text} {line reached : UInt32}
    (munches : Munches Element none skipped after)
    (skips : Skips after (line + newlines skipped) rest reached) :
    Skips (skipped ++ after) line rest reached := by
  obtain ⟨elements, none, divides, rfl⟩ := skips
  refine ⟨(.none, skipped) :: elements, by simpa using none, .munch munches divides, ?_⟩
  simp [newlines_append, UInt32.add_assoc]

theorem Skips.newline {after rest : Text} {line reached : UInt32}
    (skips : Skips after (line + 1) rest reached) : Skips ('\n' :: after) line rest reached :=
  .element (munches_blank (by decide) after) skips

theorem Skips.blank {char : Char} {after rest : Text} {line reached : UInt32} (member : char ∈ blanks)
    (different : '\n' ≠ char) (skips : Skips after line rest reached) :
    Skips (char :: after) line rest reached :=
  .element (munches_blank member after)
    (by rwa [newlines_eq_zero (by simpa using different), UInt32.add_zero])

theorem Skips.comment {comment rest : Text} {line reached : UInt32}
    (skips : Skips (comment.dropWhile (· != '\n')) line rest reached) :
    Skips ('/' :: '/' :: comment) line rest reached := by
  have inLine : '\n' ∉ '/' :: '/' :: comment.takeWhile (· != '\n') := by
    simp only [List.mem_cons, not_or]
    refine ⟨by decide, by decide, fun member => ?_⟩
    simpa using List.mem_takeWhile_imp member
  have whole : Skips _ line rest reached :=
    .element (munches_comment comment) (by rwa [newlines_eq_zero inLine, UInt32.add_zero])
  simpa using whole

/-- What one call of `scan_token` does: it skips, then ends, yields a token or throws. -/
def ScanOutcome (text : Text) (line : UInt32) : Except Error Scanned → Prop
  | .ok scanned => ∃ after reached, Skips text line after reached ∧
      (after = [] ∧ scanned = (⟨.eof, "EOF".toList, reached⟩, [], reached) ∨
        Scans after reached scanned)
  | .error error => ∃ after reached what, Skips text line after reached ∧ Unscannable after ∧
      error = .runtimeError what

theorem ScanOutcome.skip {text after : Text} {line reached : UInt32} {outcome : Except Error Scanned}
    (skip : ∀ {rest stop}, Skips after reached rest stop → Skips text line rest stop)
    (scan : ScanOutcome after reached outcome) : ScanOutcome text line outcome := by
  cases outcome with
  | ok scanned =>
      obtain ⟨rest, stop, skips, ends⟩ := scan
      exact ⟨rest, stop, skip skips, ends⟩
  | error error =>
      obtain ⟨rest, stop, what, skips, stuck, same⟩ := scan
      exact ⟨rest, stop, what, skip skips, stuck, same⟩

theorem ScanOutcome.token {text : Text} {line : UInt32} {scanned : Scanned}
    (scans : Scans text line scanned) : ScanOutcome text line (.ok scanned) :=
  ⟨text, line, .refl text line, .inr scans⟩

theorem scanStringToken_outcome (rest : Text) (line : UInt32) :
    ScanOutcome ('"' :: rest) line (scanStringToken rest line) := by
  cases scans : scanStringToken rest line with
  | ok scanned => exact .token (scanStringToken_scans scans)
  | error error =>
      have split := List.takeWhile_append_dropWhile (p := (· != '"')) (l := rest)
      simp only [scanStringToken] at scans
      split at scans
      case h_2 => cases scans
      case h_1 drops =>
        cases scans
        refine ⟨_, _, _, .refl _ _, .inr ⟨rfl, fun member => ?_⟩, rfl⟩
        rw [drops, List.append_nil] at split
        rw [← split] at member
        simpa using List.mem_takeWhile_imp member

theorem operators_scanned : ∀ entry ∈ operators, ∀ char ∈ entry.2.head?,
    (singleCharType char).isSome ∨ char ∈ ['/', '!', '=', '>', '<'] := by
  simp [operators, singleCharType]

/-- The characters of the `default` label begin nothing. -/
theorem unscannable_of_default {first : Char} (letter : ¬ isLetter first) (digit : ¬ first.isDigit)
    (quote : first ≠ '"') (blank : first ∉ blanks) (single : singleCharType first = none)
    (longer : first ∉ ['/', '!', '=', '>', '<']) (rest : Text) : Unscannable (first :: rest) := by
  refine .inl fun kind tail element => ?_
  cases element.begins with
  | blank member => exact blank member
  | comment _ same => exact longer (by rw [same]; decide)
  | word other => exact letter other
  | number other => exact digit other
  | string _ same => exact quote same
  | operator type listed =>
      rcases operators_scanned _ listed first rfl with some | member
      · simp [single] at some
      · exact longer member

theorem scanLoop_outcome {fuel : Nat} {text : Text} (enough : text.length < fuel) (line : UInt32) :
    ScanOutcome text line (scanLoop fuel text line) := by
  fun_induction scanLoop fuel text line
  case case1 => exact absurd enough (Nat.not_lt_zero _)
  case case2 line => exact ⟨[], line, .refl [] line, .inl ⟨rfl, rfl⟩⟩
  case case3 letter => exact .token (scanIdentifierToken_scans letter _ _)
  case case4 digit => exact .token (scanNumberToken_scans digit _ _)
  case case5 => exact scanStringToken_outcome _ _
  -- blanks: only the newline moves to another line
  case case6 ih | case7 ih | case8 ih =>
      exact (ih (Nat.lt_of_succ_lt_succ enough)).skip (.blank (by decide) (by decide))
  case case9 ih => exact (ih (Nat.lt_of_succ_lt_succ enough)).skip .newline
  case case10 comment _ _ ih =>
      have shorter := (List.dropWhile_suffix (l := comment) (· != '\n')).length_le
      simp only [List.length_cons] at enough
      exact (ih (by omega)).skip .comment
  case case11 noComment _ _ => exact .token (slash_scans (fun comment same => noComment comment same) _)
  case case12 | case13 | case14 | case15 =>
      exact .token (scanIfMatch_scans (by decide) (by decide) _ _)
  case case16 type single _ _ _ _ _ _ _ _ _ _ =>
      simp only [single]
      exact .token (single_scans single _ _)
  case case17 letter digit single quote space cr tab newline slash bang equal greater less =>
      simp only [single]
      refine ⟨_, _, _, .refl _ _, unscannable_of_default letter digit quote ?_ single ?_ _, rfl⟩
      · simp only [blanks, List.mem_cons, List.not_mem_nil, or_false]
        rintro (same | same | same | same) <;> contradiction
      · simp only [List.mem_cons, List.not_mem_nil, or_false]
        rintro (same | same | same | same | same) <;> contradiction

theorem scanToken_outcome (text : Text) (line : UInt32) : ScanOutcome text line (scanToken text line) :=
  scanLoop_outcome (Nat.lt_succ_self _) line

/-- What iterating from a position yields. -/
def Tokenizes (text : Text) (line : UInt32) (outcome : Except Error (List Token × TokenIterator)) : Prop :=
  (∃ elements, Divides Element text elements [] ∧
    outcome = .ok (tokensOf line elements, .atEof (line + newlines text))) ∨
  ∃ elements rest what, Divides Element text elements rest ∧ Unscannable rest ∧
    outcome = .error (.runtimeError what)

theorem tokensOf_skipped {skipped : List (Option TokenType × Text)}
    (none : ∀ element ∈ skipped, element.1 = none) (line : UInt32)
    (elements : List (Option TokenType × Text)) :
    tokensOf line (skipped ++ elements) =
      tokensOf (line + newlines (skipped.map Prod.snd).flatten) elements := by
  induction skipped generalizing line with
  | nil => simp
  | cons element rest ih =>
      obtain ⟨kind, text⟩ := element
      obtain ⟨rfl, others⟩ := List.forall_mem_cons.mp none
      rw [List.cons_append, tokensOf, ih others]
      simp [newlines_append, UInt32.add_assoc]

theorem Tokenizes.skip {text after : Text} {line reached : UInt32}
    {outcome : Except Error (List Token × TokenIterator)} (skips : Skips text line after reached)
    (tokenizes : Tokenizes after reached outcome) : Tokenizes text line outcome := by
  obtain ⟨skipped, none, divides, rfl⟩ := skips
  rcases tokenizes with ⟨elements, more, rfl⟩ | ⟨elements, rest, what, more, stuck, rfl⟩
  · refine .inl ⟨skipped ++ elements, divides.append more, ?_⟩
    rw [tokensOf_skipped none, divides.text_eq, newlines_append, UInt32.add_assoc]
  · exact .inr ⟨skipped ++ elements, rest, what, divides.append more, stuck, rfl⟩

theorem Tokenizes.token {type : TokenType} {lexeme rest : Text} {line : UInt32}
    {outcome : Except Error (List Token × TokenIterator)}
    (munches : Munches Element (some type) lexeme rest)
    (tokenizes : Tokenizes rest (line + newlines lexeme) outcome) :
    Tokenizes (lexeme ++ rest) line (do
      let (tokens, last) ← outcome
      return (⟨type, lexeme, line⟩ :: tokens, last)) := by
  rcases tokenizes with ⟨elements, more, rfl⟩ | ⟨elements, rest, what, more, stuck, rfl⟩
  · refine .inl ⟨(some type, lexeme) :: elements, .munch munches more, ?_⟩
    rw [newlines_append, ← UInt32.add_assoc]
    rfl
  · exact .inr ⟨_, rest, what, .munch munches more, stuck, rfl⟩

theorem Element.type_ne_eof {type : TokenType} {lexeme : Text}
    (element : Element (some type) lexeme) : type ≠ .eof := by
  rintro rfl
  have keyword : ∀ entry ∈ keywords, entry.1 ≠ .eof := by decide
  have operator : ∀ entry ∈ operators, entry.1 ≠ .eof := by decide
  cases element with
  | keyword listed => exact keyword _ listed rfl
  | operator listed => exact operator _ listed rfl

/-- Every token takes a character at least, so the fuel lasts. -/
theorem TokenIterator.untilEof_tokenizes {fuel : Nat} {iter : TokenIterator}
    (enough : iter.rest.length < fuel) :
    Tokenizes iter.rest iter.line (do
      let after ← iter.advance
      after.untilEof fuel) := by
  induction fuel generalizing iter with
  | zero => exact absurd enough (Nat.not_lt_zero _)
  | succ fuel ih =>
      have outcome := scanToken_outcome iter.rest iter.line
      cases scans : scanToken iter.rest iter.line with
      | error error =>
          rw [scans] at outcome
          obtain ⟨after, reached, what, skips, stuck, rfl⟩ := outcome
          have fails : iter.advance = .error (.runtimeError what) := by rw [advance, scans]; rfl
          rw [fails]
          exact .skip skips (.inr ⟨[], after, what, .done after, stuck, rfl⟩)
      | ok scanned =>
          rw [scans] at outcome
          obtain ⟨after, reached, skips, ⟨rfl, rfl⟩ | token⟩ := outcome
          · have ends : iter.advance = .ok (atEof reached) := by rw [advance, scans]; rfl
            rw [ends]
            refine .skip skips (.inl ⟨[], .done [], ?_⟩)
            rw [newlines_nil, UInt32.add_zero]
            rfl
          · obtain ⟨type, lexeme, rest, rfl, munches, rfl⟩ := token
            have yields : iter.advance =
                .ok ⟨rest, reached + newlines lexeme, ⟨type, lexeme, reached⟩⟩ := by
              rw [advance, scans]; rfl
            rw [yields]
            have shorter : rest.length < fuel := by
              obtain ⟨skipped, -, divides, -⟩ := skips
              have whole := congrArg List.length divides.text_eq
              have nonempty := List.length_pos_iff.mpr munches.inGrammar.ne_nil
              simp only [List.length_append] at whole
              omega
            refine .skip skips ?_
            have later := @ih ⟨rest, reached + newlines lexeme, ⟨type, lexeme, reached⟩⟩ shorter
            have more := Tokenizes.token munches later
            change Tokenizes _ _ (untilEof (fuel + 1) _)
            rw [bind_assoc] at more
            rwa [untilEof, if_neg munches.inGrammar.type_ne_eof]

theorem tokenize_tokenizes (source : Text) : Tokenizes source 1 (tokenize source) :=
  @TokenIterator.untilEof_tokenizes _ ⟨source, 1, ⟨.eof, "EOF".toList, 1⟩⟩ (Nat.lt_succ_self _)

/-- The scanner divides exactly the sources that consist of longest elements, into those,
and throws on exactly the others. -/
theorem tokenize_exact (source : Text) :
    (∀ tokens last, tokenize source = .ok (tokens, last) ↔
      ∃ elements, Divides Element source elements [] ∧ tokens = tokensOf 1 elements ∧
        last = .atEof (1 + newlines source)) ∧
    ((∃ what, tokenize source = .error (.runtimeError what)) ↔
      ∃ elements rest, Divides Element source elements rest ∧ Unscannable rest) ∧
    (∀ error, tokenize source = .error error → ∃ what, error = .runtimeError what) ∧
    ∀ tokens last, tokenize source = .ok (tokens, last) →
      last.token.type = .eof ∧ last.advance = .ok last := by
  have one : ∀ {elements others rest}, Divides Element source elements [] →
      Divides Element source others rest → Unscannable rest → False := by
    intro elements others rest divides also stuck
    obtain ⟨-, rfl⟩ := divides.unique Element.oneKind also stuck_nil stuck.stuck
    exact stuck
  rcases tokenize_tokenizes source with ⟨elements, divides, same⟩ | ⟨elements, rest, what, divides, stuck, same⟩
  · rw [same]
    refine ⟨fun tokens last => ⟨?_, ?_⟩, ⟨?_, ?_⟩, by simp, ?_⟩
    · rintro ⟨⟩
      exact ⟨elements, divides, rfl, rfl⟩
    · rintro ⟨others, also, rfl, rfl⟩
      obtain ⟨rfl, -⟩ := divides.unique Element.oneKind also stuck_nil stuck_nil
      rfl
    · rintro ⟨what, ⟨⟩⟩
    · rintro ⟨others, rest, also, stuck⟩
      exact (one divides also stuck).elim
    · rintro tokens last ⟨⟩
      exact ⟨rfl, rfl⟩
  · rw [same]
    refine ⟨fun tokens last => ⟨?_, ?_⟩, ⟨?_, ?_⟩, ?_, ?_⟩
    · rintro ⟨⟩
    · rintro ⟨others, also, -⟩
      exact (one also divides stuck).elim
    · exact fun _ => ⟨elements, rest, divides, stuck⟩
    · exact fun _ => ⟨what, rfl⟩
    · rintro error ⟨⟩
      exact ⟨what, rfl⟩
    · rintro tokens last ⟨⟩

/-- A dot that no digit follows is a token of its own. -/
example : (tokenize "1.5 2.".toList).toOption.map (·.1.map (·.type)) =
    some [.number, .number, .dot] := by decide +kernel

end Cpplox
