import Cpplox.Scanner.Lexemes

namespace Cpplox

open Data

/-! Every token the scanner yields is the longest element at its position. -/

theorem Element.munches {kind : Option TokenType} {first : Char} {tail rest : Text}
    (element : Element kind (first :: tail))
    (longest : ∀ {other longer}, Begins first other longer → longer <+: tail ++ rest →
      longer.length ≤ tail.length) : Munches Element kind (first :: tail) rest := by
  refine ⟨element, fun {other longer} also begins => ?_⟩
  cases longer with
  | nil => exact absurd rfl also.ne_nil
  | cons head longer =>
      obtain ⟨same, starts⟩ := List.cons_prefix_cons.mp begins
      subst same
      exact Nat.succ_le_succ (longest also.begins starts)

/-- One token of the scanner: where it ends and the line reached there. -/
def Scans (text : Text) (line : UInt32) (scanned : Scanned) : Prop :=
  ∃ type lexeme rest, text = lexeme ++ rest ∧ Munches Element (some type) lexeme rest ∧
    scanned = (⟨type, lexeme, line⟩, rest, line + newlines lexeme)

theorem scans_of_inLine {text lexeme rest : Text} {line : UInt32} {type : TokenType}
    (same : text = lexeme ++ rest) (munches : Munches Element (some type) lexeme rest)
    (inLine : '\n' ∉ lexeme) : Scans text line (⟨type, lexeme, line⟩, rest, line) := by
  refine ⟨type, lexeme, rest, same, munches, ?_⟩
  rw [newlines_eq_zero inLine, UInt32.add_zero]

theorem munches_blank {char : Char} (member : char ∈ blanks) (rest : Text) :
    Munches Element none [char] rest :=
  (Element.blank member).munches fun begins _ => by simp [begins.of_blank member]

theorem munches_comment (comment : Text) :
    Munches Element none ('/' :: '/' :: comment.takeWhile (· != '\n'))
      (comment.dropWhile (· != '\n')) := by
  have inLine {body : Text} (member : '\n' ∉ body) : ∀ char ∈ body, (char != '\n') = true := by
    intro char inside
    simp only [bne_iff_ne, ne_eq]
    rintro rfl
    exact member inside
  refine (Element.comment fun member => ?_).munches fun begins starts => ?_
  · simpa using List.mem_takeWhile_imp member
  rw [List.cons_append, List.takeWhile_append_dropWhile] at starts
  rcases begins.of_other (by decide) (by decide) (by decide) (by decide) with
    rfl | ⟨-, four⟩ | ⟨-, body, rfl, notThere⟩
  · exact Nat.zero_le _
  · exact absurd four (by decide)
  · have := length_le_takeWhile (List.cons_prefix_cons.mp starts).2 (inLine notThere)
    simpa using this

theorem scanIdentifierToken_scans {first : Char} (letter : isLetter first) (rest : Text) (line : UInt32) :
    Scans (first :: rest) line (scanIdentifierToken first rest line) := by
  have members : ∀ char ∈ rest.takeWhile isIdentifierChar, isIdentifierChar char :=
    fun char member => List.mem_takeWhile_imp member
  refine scans_of_inLine (by simp) ((Element.word letter members).munches fun begins starts => ?_) ?_
  · rw [List.takeWhile_append_dropWhile] at starts
    exact length_le_takeWhile starts (begins.of_letter letter)
  · rintro (_ | ⟨_, member⟩)
    · exact absurd letter (by decide)
    · exact absurd (members _ member) (by decide)

/-- The dot of a fraction stands where the digits end. -/
theorem fraction_starts {digits fraction text : Text} (starts : digits ++ '.' :: fraction <+: text)
    (all : ∀ char ∈ digits, char.isDigit) :
    text.takeWhile Char.isDigit = digits ∧ '.' :: fraction <+: text.dropWhile Char.isDigit := by
  obtain ⟨after, rfl⟩ := starts
  rw [List.append_assoc, List.takeWhile_append_of_pos all, List.dropWhile_append_of_pos all]
  simp [Char.isDigit]

theorem digits_of_takeWhile {first : Char} (digit : first.isDigit) (rest : Text) :
    ∀ char ∈ first :: rest.takeWhile Char.isDigit, char.isDigit := by
  rintro char (_ | ⟨_, member⟩)
  · exact digit
  · exact List.mem_takeWhile_imp member

theorem not_newline_of_digits {digits : Text} (all : ∀ char ∈ digits, char.isDigit) :
    '\n' ∉ digits :=
  fun member => absurd (all _ member) (by decide)

theorem munches_whole {first : Char} (digit : first.isDigit) {rest : Text}
    (noFraction : ∀ {next tail}, rest.dropWhile Char.isDigit = '.' :: next :: tail →
      next.isDigit = false) :
    Munches Element (some .number) (first :: rest.takeWhile Char.isDigit)
      (rest.dropWhile Char.isDigit) := by
  refine (Element.whole (by simp) (digits_of_takeWhile digit rest)).munches fun begins starts => ?_
  rw [List.takeWhile_append_dropWhile] at starts
  rcases begins.of_digit digit with all | ⟨digits, fraction, rfl, nonempty, all, fractional⟩
  · exact length_le_takeWhile starts all
  · obtain ⟨next, fraction, rfl⟩ := List.exists_cons_of_ne_nil nonempty
    obtain ⟨tail, same⟩ := (fraction_starts starts all).2
    have := noFraction same.symm
    simp [fractional next (List.mem_cons_self ..)] at this

theorem munches_fraction {first next : Char} (digit : first.isDigit) (also : next.isDigit)
    {rest tail : Text} (drops : rest.dropWhile Char.isDigit = '.' :: next :: tail) :
    Munches Element (some .number)
      (first :: (rest.takeWhile Char.isDigit ++ '.' :: next :: tail.takeWhile Char.isDigit))
      (tail.dropWhile Char.isDigit) := by
  have element : Element (some .number)
      (first :: (rest.takeWhile Char.isDigit ++ '.' :: next :: tail.takeWhile Char.isDigit)) :=
    .fraction (by simp) (digits_of_takeWhile digit rest) (by simp) (digits_of_takeWhile also tail)
  refine element.munches fun begins starts => ?_
  have whole : rest.takeWhile Char.isDigit ++ '.' :: next :: tail.takeWhile Char.isDigit ++
      tail.dropWhile Char.isDigit = rest := by
    rw [List.append_assoc, List.cons_append, List.cons_append, List.takeWhile_append_dropWhile,
      ← drops, List.takeWhile_append_dropWhile]
  rw [whole] at starts
  rcases begins.of_digit digit with all | ⟨digits, fraction, rfl, nonempty, all, fractional⟩
  · have := length_le_takeWhile starts all
    simp only [List.length_append]
    omega
  · obtain ⟨same, begins⟩ := fraction_starts starts all
    rw [drops] at begins
    have := length_le_takeWhile (List.cons_prefix_cons.mp begins).2 fractional
    rw [List.takeWhile_cons_of_pos also] at this
    simpa [same] using this

theorem scanNumberToken_scans {first : Char} (digit : first.isDigit) (rest : Text) (line : UInt32) :
    Scans (first :: rest) line (scanNumberToken first rest line) := by
  have whole := not_newline_of_digits (digits_of_takeWhile digit rest)
  unfold scanNumberToken
  dsimp only
  split
  case h_1 next tail drops =>
    split
    case isTrue also =>
      refine scans_of_inLine ?_ (munches_fraction digit also drops) ?_
      · simp [← drops]
      · have fraction := not_newline_of_digits (digits_of_takeWhile also tail)
        simp only [List.cons_append, List.mem_cons, List.mem_append, not_or] at whole fraction ⊢
        exact ⟨whole.1, whole.2, by decide, fraction.1, fraction.2⟩
    case isFalse noDigit =>
      have noFraction {next : Char} {tail : Text}
          (same : rest.dropWhile Char.isDigit = '.' :: next :: tail) : next.isDigit = false := by
        rw [drops] at same
        cases same
        simpa using noDigit
      have munches := munches_whole digit noFraction
      rw [drops] at munches
      exact scans_of_inLine (by simp [← drops]) munches whole
  case h_2 noDot =>
    exact scans_of_inLine (by simp)
      (munches_whole digit fun same => absurd same (noDot _ _)) whole

theorem scanStringToken_scans {rest : Text} {line : UInt32} {scanned : Scanned}
    (scans : scanStringToken rest line = .ok scanned) : Scans ('"' :: rest) line scanned := by
  have split := List.takeWhile_append_dropWhile (p := (· != '"')) (l := rest)
  have inside : '"' ∉ rest.takeWhile (· != '"') := fun member => by
    simpa using List.mem_takeWhile_imp member
  simp only [scanStringToken] at scans
  split at scans
  case h_1 => cases scans
  case h_2 quote after drops =>
    obtain rfl : quote = '"' := by simpa using head_dropWhile drops
    cases scans
    have munches : Munches Element (some .string)
        ('"' :: (rest.takeWhile (· != '"') ++ ['"'])) after := by
      refine (Element.string inside).munches fun begins starts => ?_
      obtain ⟨body, rfl, notThere⟩ := begins.of_quote
      obtain ⟨more, same⟩ := starts
      -- both bodies end at the first quote
      have all : ∀ char ∈ body, (char != '"') = true := by
        intro char member
        simp only [bne_iff_ne, ne_eq]
        rintro rfl
        exact notThere member
      have whole : rest = body ++ '"' :: more := by
        rw [← split, drops]
        simpa using same.symm
      have bodies : rest.takeWhile (· != '"') = body := by
        rw [whole, List.takeWhile_append_of_pos all]
        simp
      simp [bodies]
    refine ⟨_, _, _, ?_, munches, ?_⟩
    · rw [drops] at split
      simp [split]
    · have quote : newlines ['"'] = 0 := rfl
      rw [newlines_cons, newlines_append, quote, UInt32.zero_add, UInt32.add_zero]
      rfl

/-- Which characters are operators by themselves, or with an equals sign behind them. -/
theorem scanIfMatch_scans {first : Char} {single matched : TokenType}
    (listed : (single, [first]) ∈ operators) (longer : (matched, [first, '=']) ∈ operators)
    (rest : Text) (line : UInt32) :
    Scans (first :: rest) line (scanIfMatch first '=' matched single rest line) := by
  have apart := operators_apart _ listed first rfl
  have newline : first ≠ '\n' := fun same => apart.2.2.2 (by rw [same]; decide)
  have notSlash : first ≠ '/' := by
    rintro rfl
    revert longer
    cases matched <;> decide
  have begins {other : Option TokenType} {tail : Text} (begins : Begins first other tail) :
      tail = [] ∨ tail = ['='] :=
    (begins.of_other apart.1 apart.2.1 apart.2.2.1 apart.2.2.2).imp_right fun also =>
      also.elim And.left fun comment => absurd comment.1 notSlash
  unfold scanIfMatch
  split
  case h_1 next rest =>
    split
    case isTrue same =>
      subst same
      refine scans_of_inLine (by simp) ((Element.operator longer).munches fun also _ => ?_)
        (by simp [newline.symm])
      rcases begins also with rfl | rfl <;> simp
    case isFalse different =>
      refine scans_of_inLine (by simp) ((Element.operator listed).munches fun also starts => ?_)
        (by simp [newline.symm])
      rcases begins also with rfl | rfl
      · exact Nat.le_refl _
      · exact absurd (List.cons_prefix_cons.mp starts).1.symm different
  case h_2 =>
    refine scans_of_inLine (by simp) ((Element.operator listed).munches fun also starts => ?_)
      (by simp [newline.symm])
    rcases begins also with rfl | rfl
    · exact Nat.le_refl _
    · exact absurd starts (by simp)

theorem single_scans {first : Char} {type : TokenType} (single : singleCharType first = some type)
    (rest : Text) (line : UInt32) : Scans (first :: rest) line (⟨type, [first], line⟩, rest, line) := by
  have listed : (type, [first]) ∈ operators ∧ first ∉ ['!', '=', '>', '<', '/', '\n'] := by
    unfold singleCharType at single
    split at single <;> cases single <;> decide
  have apart := operators_apart _ listed.1 first rfl
  refine scans_of_inLine rfl ((Element.operator listed.1).munches fun also _ => ?_) ?_
  · rcases also.of_other apart.1 apart.2.1 apart.2.2.1 apart.2.2.2 with rfl | ⟨-, four⟩ | ⟨rfl, -⟩
    · exact Nat.le_refl _
    · exact absurd listed.2 (by simp at four ⊢; tauto)
    · exact absurd listed.2 (by decide)
  · rintro (_ | ⟨_, ⟨⟩⟩)
    exact absurd listed.2 (by decide)

/-- A slash that no other slash follows. -/
theorem slash_scans {rest : Text} (noComment : ∀ comment, rest ≠ '/' :: comment) (line : UInt32) :
    Scans ('/' :: rest) line (⟨.slash, ['/'], line⟩, rest, line) := by
  refine scans_of_inLine rfl ((Element.operator (by decide)).munches fun also starts => ?_) (by decide)
  rcases also.of_other (by decide) (by decide) (by decide) (by decide) with
    rfl | ⟨-, four⟩ | ⟨-, body, rfl, -⟩
  · exact Nat.le_refl _
  · exact absurd four (by decide)
  · obtain ⟨comment, same⟩ := starts
    exact absurd same.symm (noComment _)

end Cpplox
