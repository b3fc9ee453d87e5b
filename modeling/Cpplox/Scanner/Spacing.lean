import Cpplox.Data.TwoRuns
import Cpplox.Scanner.Tokenize

namespace Cpplox

open Data

/-! The tokens of a text, without their lines, do not depend on what is written between them. -/

/-- The tokens that a text begins with, and whether they are all there is to it. -/
inductive Spells : Text → List (TokenType × Text) → Bool → Prop where
  | ends : Spells [] [] true
  | stuck {text : Text} : Unscannable text → Spells text [] false
  | skips {skipped text : Text} {tokens : List (TokenType × Text)} {whole : Bool} :
      Munches Element none skipped text → Spells text tokens whole →
      Spells (skipped ++ text) tokens whole
  | token {type : TokenType} {lexeme text : Text} {tokens : List (TokenType × Text)} {whole : Bool} :
      Munches Element (some type) lexeme text → Spells text tokens whole →
      Spells (lexeme ++ text) ((type, lexeme) :: tokens) whole

/-- Blanks, and comments that a newline ends. -/
inductive Filler : Text → Prop where
  | nil : Filler []
  | blank {char : Char} {rest : Text} : char ∈ blanks → Filler rest → Filler (char :: rest)
  | comment {body rest : Text} : '\n' ∉ body → Filler rest →
      Filler ('/' :: '/' :: (body ++ '\n' :: rest))

/-- What may be written at a boundary: it begins with a blank. -/
inductive Blankspace : Text → Prop where
  | blank {char : Char} {rest : Text} : char ∈ blanks → Filler rest → Blankspace (char :: rest)

/-- Blank space is written between the elements of a source. -/
inductive Respaced : Text → Text → Prop where
  | same (text : Text) : Respaced text text
  | insert {layout text otherText : Text} : Blankspace layout → Respaced text otherText →
      Respaced text (layout ++ otherText)
  | element {kind : Option TokenType} {lexeme text otherText : Text} :
      Munches Element kind lexeme text → Respaced text otherText →
      Respaced (lexeme ++ text) (lexeme ++ otherText)

variable {text after : Text} {tokens others : List (TokenType × Text)} {whole other : Bool}

namespace Spells

theorem exists_spells (text : Text) : ∃ tokens whole, Spells text tokens whole := by
  have of_divides {elements : List (Option TokenType × Text)} {rest : Text}
      (divides : Divides Element text elements rest)
      (last : ∃ tokens whole, Spells rest tokens whole) : ∃ tokens whole, Spells text tokens whole := by
    induction divides with
    | done => exact last
    | @munch kind lexeme text elements rest munches _ ih =>
        obtain ⟨tokens, whole, spells⟩ := ih last
        cases kind with
        | none => exact ⟨tokens, whole, .skips munches spells⟩
        | some type => exact ⟨_, whole, .token munches spells⟩
  rcases tokenize_tokenizes text with ⟨_, divides, -⟩ | ⟨_, rest, _, divides, stuck, -⟩
  · exact of_divides divides ⟨[], true, .ends⟩
  · exact of_divides divides ⟨[], false, .stuck stuck⟩

theorem unique (spells : Spells text tokens whole) (also : Spells text others other) :
    tokens = others ∧ whole = other := by
  induction spells generalizing others other with
  | ends =>
      generalize same : ([] : Text) = empty at also
      cases also with
      | ends => exact ⟨rfl, rfl⟩
      | stuck unscannable => subst same; cases unscannable
      | skips munches => exact absurd (List.append_eq_nil_iff.mp same.symm).1 munches.inGrammar.ne_nil
      | token munches => exact absurd (List.append_eq_nil_iff.mp same.symm).1 munches.inGrammar.ne_nil
  | stuck unscannable =>
      cases also with
      | ends => cases unscannable
      | stuck => exact ⟨rfl, rfl⟩
      | skips munches => exact absurd unscannable.stuck munches.not_stuck
      | token munches => exact absurd unscannable.stuck munches.not_stuck
  | @skips skipped text _ _ munches _ ih =>
      generalize same : skipped ++ text = here at also
      cases also with
      | ends => exact absurd (List.append_eq_nil_iff.mp same).1 munches.inGrammar.ne_nil
      | stuck unscannable => exact absurd (same ▸ unscannable.stuck) munches.not_stuck
      | skips again rest =>
          obtain ⟨-, rfl, rfl⟩ := munches.unique Element.oneKind again same
          exact ih rest
      | token again =>
          obtain ⟨kind, -⟩ := munches.unique Element.oneKind again same
          cases kind
  | @token type lexeme text _ _ munches _ ih =>
      generalize same : lexeme ++ text = here at also
      cases also with
      | ends => exact absurd (List.append_eq_nil_iff.mp same).1 munches.inGrammar.ne_nil
      | stuck unscannable => exact absurd (same ▸ unscannable.stuck) munches.not_stuck
      | skips again =>
          obtain ⟨kind, -⟩ := munches.unique Element.oneKind again same
          cases kind
      | token again rest =>
          obtain ⟨kind, rfl, rfl⟩ := munches.unique Element.oneKind again same
          obtain ⟨rfl, rfl⟩ := ih rest
          cases kind
          exact ⟨rfl, rfl⟩

theorem blank {char : Char} (member : char ∈ blanks) (spells : Spells text tokens whole) :
    Spells (char :: text) tokens whole := by
  have both := Spells.skips (munches_blank member text) spells
  exact both

/-- What is left behind a blank or a comment. -/
theorem of_skips {skipped : Text} (munches : Munches Element none skipped text)
    (spells : Spells (skipped ++ text) tokens whole) : Spells text tokens whole := by
  obtain ⟨others, other, rest⟩ := exists_spells text
  obtain ⟨rfl, rfl⟩ := spells.unique (.skips munches rest)
  exact rest

theorem of_token {type : TokenType} {lexeme : Text}
    (munches : Munches Element (some type) lexeme text)
    (spells : Spells (lexeme ++ text) tokens whole) :
    ∃ rest, tokens = (type, lexeme) :: rest ∧ Spells text rest whole := by
  obtain ⟨others, other, rest⟩ := exists_spells text
  obtain ⟨rfl, rfl⟩ := spells.unique (.token munches rest)
  exact ⟨others, rfl, rest⟩

end Spells

theorem Skips.spells {line reached : UInt32} (skips : Skips text line after reached)
    (spells : Spells text tokens whole) : Spells after tokens whole := by
  obtain ⟨skipped, none, divides, -⟩ := skips
  induction divides with
  | done => exact spells
  | @munch kind lexeme text elements rest munches _ ih =>
      obtain ⟨rfl, others⟩ := List.forall_mem_cons.mp none
      exact ih (spells.of_skips munches) others

/-- What one call of the scanner yields of the tokens that are left. -/
inductive ScanYields : List (TokenType × Text) → Bool → Except Error Scanned → Prop where
  | token {type : TokenType} {lexeme after : Text} {tokens : List (TokenType × Text)} {whole : Bool}
      {line reached : UInt32} : Spells after tokens whole →
      ScanYields ((type, lexeme) :: tokens) whole (.ok (⟨type, lexeme, line⟩, after, reached))
  | ends {line reached : UInt32} : ScanYields [] true (.ok (⟨.eof, "EOF".toList, line⟩, [], reached))
  | fails {error : Error} : ScanYields [] false (.error error)

theorem scanToken_scanYields (spells : Spells text tokens whole) (line : UInt32) :
    ScanYields tokens whole (scanToken text line) := by
  have outcome := scanToken_outcome text line
  cases scans : scanToken text line with
  | error error =>
      rw [scans] at outcome
      obtain ⟨after, reached, what, skips, stuck, rfl⟩ := outcome
      obtain ⟨rfl, rfl⟩ := (skips.spells spells).unique (.stuck stuck)
      exact .fails
  | ok scanned =>
      rw [scans] at outcome
      obtain ⟨after, reached, skips, ⟨rfl, rfl⟩ | token⟩ := outcome
      · obtain ⟨rfl, rfl⟩ := (skips.spells spells).unique .ends
        exact .ends
      · obtain ⟨type, lexeme, rest, rfl, munches, rfl⟩ := token
        obtain ⟨others, rfl, more⟩ := (skips.spells spells).of_token munches
        exact .token more

namespace TokenIterator

/-- Two iterators over texts that spell the same tokens, at the same token. -/
structure Alike (one two : TokenIterator) : Prop where
  rest : ∃ tokens whole, Spells one.rest tokens whole ∧ Spells two.rest tokens whole
  type : two.token.type = one.token.type
  lexeme : two.token.lexeme = one.token.lexeme

theorem scan_alike {one two : Text} (first : Spells one tokens whole)
    (second : Spells two tokens whole) (line otherLine : UInt32) :
    Both Alike ((scanToken one line).map fun (token, rest, line) => ⟨rest, line, token⟩)
      ((scanToken two otherLine).map fun (token, rest, line) => ⟨rest, line, token⟩) := by
  have here := scanToken_scanYields first line
  have there := scanToken_scanYields second otherLine
  generalize scanToken one line = scanned at here
  generalize scanToken two otherLine = otherScanned at there
  cases here with
  | token more =>
      cases there with
      | token otherMore => exact .returns ⟨⟨_, _, more, otherMore⟩, rfl, rfl⟩
  | ends =>
      cases there with
      | ends => exact .returns ⟨⟨_, _, .ends, .ends⟩, rfl, rfl⟩
  | fails =>
      cases there with
      | fails => exact .fails

theorem Alike.advance {one two : TokenIterator} (alike : one.Alike two) :
    Both Alike one.advance two.advance := by
  obtain ⟨tokens, whole, first, second⟩ := alike.rest
  exact scan_alike first second _ _

end TokenIterator

inductive Lookahead : Text → Prop where
  | char {char : Char} : char ∉ blanks → Lookahead [char]
  | fraction {digit : Char} : digit.isDigit → Lookahead ['.', digit]

theorem blanks_noWord : ∀ char ∈ blanks, isIdentifierChar char = false := by
  simp only [blanks, List.forall_mem_cons, List.not_mem_nil, false_implies, implies_true, and_true]
  decide

theorem Lookahead.ofWord {char : Char} (member : isIdentifierChar char) : Lookahead [char] :=
  .char fun blank => by simp [blanks_noWord _ blank] at member

theorem isIdentifierChar_of_isDigit {char : Char} (digit : char.isDigit) : isIdentifierChar char := by
  simp only [isIdentifierChar, Char.isAlphanum, Bool.or_eq_true]
  exact .inl (.inr digit)

/-- A number that could be longer. -/
theorem Digits.longer {first char : Char} {tail more : Text} (digit : first.isDigit)
    (digits : Digits tail) (also : Digits (tail ++ char :: more)) :
    ∃ next, next <+: char :: more ∧ Lookahead next ∧
      Element (some .number) (first :: (tail ++ next)) := by
  have bound {members : Text} (all : ∀ char ∈ members, char.isDigit) :
      ∀ char ∈ first :: members, char.isDigit := List.forall_mem_cons.mpr ⟨digit, all⟩
  have one : [char] <+: char :: more := ⟨more, rfl⟩
  rcases digits with all | ⟨digits, fraction, rfl, nonempty, all, fractional⟩
  · by_cases digital : char.isDigit
    · refine ⟨[char], one, .ofWord (isIdentifierChar_of_isDigit digital),
        .whole (List.cons_ne_nil _ _) (bound fun other member => ?_)⟩
      rcases List.mem_append.mp member with old | new
      · exact all other old
      · rwa [List.mem_singleton.mp new]
    · rcases also with every | ⟨digits, fraction, same, nonempty, otherDigital, fractional⟩
      · exact absurd (every char (by simp)) digital
      · have starts : digits ++ '.' :: fraction <+: tail ++ char :: more := same ▸ List.prefix_rfl
        obtain ⟨otherSame, after⟩ := fraction_starts starts otherDigital
        rw [List.takeWhile_append_of_pos all, List.takeWhile_cons_of_neg digital, List.append_nil]
          at otherSame
        rw [List.dropWhile_append_of_pos all, List.dropWhile_cons_of_neg digital] at after
        obtain ⟨next, fraction, rfl⟩ := List.exists_cons_of_ne_nil nonempty
        have otherDigit := fractional next List.mem_cons_self
        refine ⟨['.', next], ?_, .fraction otherDigit, .fraction (List.cons_ne_nil _ _) (bound all)
          (List.cons_ne_nil next []) fun other member => List.mem_singleton.mp member ▸ otherDigit⟩
        exact List.IsPrefix.trans ⟨fraction, rfl⟩ after
  · have starts : digits ++ '.' :: fraction <+: digits ++ '.' :: fraction ++ char :: more :=
      List.prefix_append _ _
    obtain ⟨same, -⟩ := fraction_starts starts all
    rcases also with every | ⟨others, otherFraction, whole, -, otherAll, otherFractional⟩
    · exact absurd (every '.' (by simp)) (by decide)
    · have starts : others ++ '.' :: otherFraction <+: digits ++ '.' :: fraction ++ char :: more :=
        whole ▸ List.prefix_rfl
      obtain ⟨otherSame, -⟩ := fraction_starts starts otherAll
      rw [same] at otherSame
      subst otherSame
      rw [List.append_assoc, List.append_cancel_left_eq, List.cons_append, List.cons_eq_cons] at whole
      obtain ⟨-, rfl⟩ := whole
      have digital := otherFractional char (by simp)
      refine ⟨[char], one, .ofWord (isIdentifierChar_of_isDigit digital), ?_⟩
      rw [List.append_assoc, List.cons_append]
      refine .fraction (List.cons_ne_nil first digits) (bound all) (by simp) fun other member => ?_
      rcases List.mem_append.mp member with old | new
      · exact fractional other old
      · rwa [List.mem_singleton.mp new]

/-- A token that could be longer shows it in what follows. -/
theorem Element.longer {type : TokenType} {kind : Option TokenType} {lexeme more : Text}
    (element : Element (some type) lexeme) (also : Element kind (lexeme ++ more))
    (nonempty : more ≠ []) :
    ∃ next other, next <+: more ∧ Lookahead next ∧ Element other (lexeme ++ next) := by
  obtain ⟨first, tail, rfl⟩ := List.exists_cons_of_ne_nil element.ne_nil
  obtain ⟨char, more, rfl⟩ := List.exists_cons_of_ne_nil nonempty
  have one : [char] <+: char :: more := ⟨more, rfl⟩
  have begins := element.begins
  have longer := Element.begins also
  by_cases letter : isLetter first
  · have word := longer.of_letter letter
    refine ⟨[char], _, one, .ofWord (word char (by simp)), .word letter fun other member => ?_⟩
    exact word other ((List.append_subset.mpr ⟨List.subset_append_left _ _, by simp⟩) member)
  by_cases digit : first.isDigit
  · obtain ⟨next, starts, lookahead, number⟩ := (begins.of_digit digit).longer digit (longer.of_digit digit)
    exact ⟨next, _, starts, lookahead, number⟩
  by_cases quote : first = '"'
  · subst quote
    obtain ⟨body, rfl, -⟩ := begins.of_quote
    obtain ⟨others, same, absent⟩ := longer.of_quote
    have others_eq := congrArg List.dropLast same
    rw [List.dropLast_concat] at others_eq
    refine absurd ?_ absent
    rw [← others_eq]
    simp
  by_cases blank : first ∈ blanks
  · exact absurd (longer.of_blank blank) (by simp)
  have noLetter : isLetter first = false := eq_false_of_ne_true letter
  have noDigit : first.isDigit = false := eq_false_of_ne_true digit
  rcases longer.of_other noLetter noDigit quote blank with nil | ⟨same, four⟩ | ⟨rfl, body, same, -⟩
  · exact absurd nil (by simp)
  · obtain ⟨rfl, rfl, rfl⟩ : tail = [] ∧ char = '=' ∧ more = [] := by
      cases tail with
      | nil => exact ⟨rfl, List.cons_eq_cons.mp same⟩
      | cons => simp at same
    exact ⟨['='], _, one, .char (by decide), also⟩
  · cases tail with
    | nil =>
        obtain ⟨rfl, -⟩ := List.cons_eq_cons.mp same
        exact ⟨['/'], _, one, .char (by decide), @Element.comment [] List.not_mem_nil⟩
    | cons slash rest =>
        obtain ⟨rfl, -⟩ := List.cons_eq_cons.mp same
        cases begins with
        | operator _ listed => exact absurd (operators_tail _ listed) (by simp)
        | comment _ _ kind => cases kind
        | blank member => exact absurd member blank
        | word otherLetter => exact absurd otherLetter letter
        | number otherDigit => exact absurd otherDigit digit
        | string _ same => exact absurd same quote

namespace Respaced

variable {otherText : Text}

/-- Behind a boundary there is what was there, or a blank. -/
theorem starts_char {char : Char} (respaced : Respaced text otherText) (starts : [char] <+: otherText)
    (noBlank : char ∉ blanks) : [char] <+: text := by
  cases respaced with
  | same => exact starts
  | insert layout =>
      cases layout with
      | blank member =>
          rw [List.cons_append] at starts
          exact absurd ((List.cons_prefix_cons.mp starts).1 ▸ member) noBlank
  | element munches =>
      obtain ⟨first, tail, rfl⟩ := List.exists_cons_of_ne_nil munches.inGrammar.ne_nil
      rw [List.cons_append] at starts ⊢
      exact List.cons_prefix_cons.mpr ⟨(List.cons_prefix_cons.mp starts).1, List.nil_prefix⟩

theorem starts {next : Text} (respaced : Respaced text otherText) (lookahead : Lookahead next)
    (starts : next <+: otherText) : next <+: text := by
  cases lookahead with
  | char noBlank => exact respaced.starts_char starts noBlank
  | @fraction digit digital =>
      have noBlank : digit ∉ blanks := fun blank => by
        simp [(blanks_apart _ blank).2.1] at digital
      cases respaced with
      | same => exact starts
      | insert layout =>
          cases layout with
          | blank member =>
              rw [List.cons_append] at starts
              rw [← (List.cons_prefix_cons.mp starts).1] at member
              exact absurd member (by decide)
      | @element kind lexeme text otherText munches rest =>
          obtain ⟨first, tail, rfl⟩ := List.exists_cons_of_ne_nil munches.inGrammar.ne_nil
          rw [List.cons_append] at starts
          obtain ⟨rfl, behind⟩ := List.cons_prefix_cons.mp starts
          have alone : tail = [] := by
            rcases munches.inGrammar.begins.of_other (by decide) (by decide) (by decide) (by decide)
              with nil | ⟨-, four⟩ | ⟨slash, -⟩
            · exact nil
            · exact absurd four (by decide)
            · exact absurd slash (by decide)
          subst alone
          exact List.cons_prefix_cons.mpr ⟨rfl, rest.starts_char behind noBlank⟩

/-- A token ends where it ended. -/
theorem munches {type : TokenType} {lexeme : Text} (respaced : Respaced text otherText)
    (munches : Munches Element (some type) lexeme text) :
    Munches Element (some type) lexeme otherText := by
  refine ⟨munches.inGrammar, fun {other longer} also begins => ?_⟩
  by_contra above
  obtain ⟨more, rfl⟩ := List.prefix_of_prefix_length_le (List.prefix_append lexeme otherText) begins
    (Nat.le_of_not_le above)
  have nonempty : more ≠ [] := by
    rintro rfl
    simp at above
  obtain ⟨next, kind, starts, lookahead, element⟩ := munches.inGrammar.longer also nonempty
  have there := respaced.starts lookahead (starts.trans ((List.prefix_append_right_inj lexeme).mp begins))
  have short := munches.longest element ((List.prefix_append_right_inj lexeme).mpr there)
  have some_ : 0 < next.length := by cases lookahead <;> exact Nat.succ_pos _
  rw [List.length_append] at short
  omega

end Respaced

/-- Where a comment ends. -/
def EndsLine (text : Text) : Prop := text = [] ∨ ∃ rest, text = '\n' :: rest

theorem EndsLine.drop (ends : EndsLine text) : text.dropWhile (· != '\n') = text := by
  rcases ends with rfl | ⟨rest, rfl⟩ <;> rfl

theorem bne_newline {body : Text} (inLine : '\n' ∉ body) : ∀ char ∈ body, (char != '\n') = true := by
  intro char member
  rw [bne_iff_ne]
  rintro rfl
  exact inLine member

theorem comment_spells {body : Text} (inLine : '\n' ∉ body)
    (spells : Spells (text.dropWhile (· != '\n')) tokens whole) :
    Spells ('/' :: '/' :: (body ++ text)) tokens whole := by
  have munches := munches_comment (body ++ text)
  rw [List.dropWhile_append_of_pos (bne_newline inLine)] at munches
  have both := Spells.skips munches spells
  rwa [List.cons_append, List.cons_append, ← List.dropWhile_append_of_pos (bne_newline inLine),
    List.takeWhile_append_dropWhile] at both

/-- The end of a line is behind the rest of it, and that is no token. -/
theorem Filler.spells {filler : Text} (fills : Filler filler) (spells : Spells text tokens whole) :
    Spells (filler ++ text) tokens whole := by
  induction fills with
  | nil => exact spells
  | @blank char rest member _ ih => exact .blank member ih
  | @comment body rest inLine _ ih =>
      rw [List.cons_append, List.cons_append, List.append_assoc]
      exact comment_spells inLine (.blank (by decide) ih)

theorem Filler.spells_drop {filler : Text} (fills : Filler filler) (ends : EndsLine text)
    (spells : Spells text tokens whole) :
    Spells ((filler ++ text).dropWhile (· != '\n')) tokens whole := by
  induction fills with
  | nil => rwa [List.nil_append, ends.drop]
  | @blank char rest member fills ih =>
      by_cases newline : char = '\n'
      · subst newline
        exact .blank member (fills.spells spells)
      · have skips : (char != '\n') = true := bne_iff_ne.mpr newline
        rw [List.cons_append, List.dropWhile_cons, if_pos skips]
        exact ih
  | @comment body rest inLine fills ih =>
      have line : '\n' ∉ '/' :: '/' :: body := by simpa using inLine
      rw [List.cons_append, List.cons_append, List.append_assoc, ← List.cons_append,
        ← List.cons_append, List.dropWhile_append_of_pos (bne_newline line)]
      exact .blank (by decide) (fills.spells spells)

theorem Filler.of_spells {filler : Text} (fills : Filler filler)
    (spells : Spells (filler ++ text) tokens whole) : Spells text tokens whole := by
  obtain ⟨others, other, rest⟩ := Spells.exists_spells text
  obtain ⟨rfl, rfl⟩ := spells.unique (fills.spells rest)
  exact rest

theorem Filler.append {one two : Text} (first : Filler one) (second : Filler two) :
    Filler (one ++ two) := by
  induction first with
  | nil => exact second
  | blank member _ ih => exact .blank member ih
  | comment inLine _ ih =>
      rw [List.cons_append, List.cons_append, List.append_assoc]
      exact .comment inLine ih

theorem Blankspace.filler {layout : Text} (written : Blankspace layout) : Filler layout := by
  cases written with
  | blank member rest => exact .blank member rest

/-- At the end of a line, only layout is written before it. -/
theorem Respaced.endsLine {otherText : Text} (respaced : Respaced text otherText) (ends : EndsLine text) :
    ∃ filler rest, otherText = filler ++ rest ∧ Filler filler ∧ EndsLine rest := by
  induction respaced with
  | same text => exact ⟨[], text, rfl, .nil, ends⟩
  | insert layout _ ih =>
      obtain ⟨filler, rest, rfl, fills, last⟩ := ih ends
      exact ⟨_, rest, (List.append_assoc _ _ _).symm, layout.filler.append fills, last⟩
  | @element kind lexeme text otherText munches _ _ =>
      obtain ⟨first, tail, rfl⟩ := List.exists_cons_of_ne_nil munches.inGrammar.ne_nil
      rcases ends with nil | ⟨rest, same⟩
      · cases nil
      · obtain ⟨rfl, -⟩ := List.cons_eq_cons.mp same
        exact ⟨[], _, rfl, .nil, .inr ⟨_, rfl⟩⟩

/-- A comment that is longest ends its line. -/
theorem endsLine_of_comment {body : Text} (munches : Munches Element none ('/' :: '/' :: body) text)
    (inLine : '\n' ∉ body) : EndsLine text := by
  cases text with
  | nil => exact .inl rfl
  | cons char rest =>
      by_cases newline : char = '\n'
      · exact .inr ⟨rest, by rw [newline]⟩
      · have further : Element none ('/' :: '/' :: (body ++ [char])) :=
          .comment (by simpa using ⟨inLine, Ne.symm newline⟩)
        have short := munches.longest further ⟨rest, by simp⟩
        simp only [List.length_cons, List.length_append, List.length_nil] at short
        omega

/-- What is written at boundaries leaves the tokens as they are. -/
theorem Respaced.spells {otherText : Text} (respaced : Respaced text otherText)
    (spells : Spells text tokens whole) : Spells otherText tokens whole := by
  induction respaced generalizing tokens with
  | same => exact spells
  | insert layout _ ih => exact layout.filler.spells (ih spells)
  | @element kind lexeme text otherText munches respaced ih =>
      cases kind with
      | some type =>
          obtain ⟨rest, rfl, more⟩ := spells.of_token munches
          exact .token (respaced.munches munches) (ih more)
      | none =>
          have later := ih (spells.of_skips munches)
          generalize same : (Option.none : Option TokenType) = kind at munches
          cases munches.inGrammar with
          | blank member => exact .blank member later
          | comment inLine =>
              obtain ⟨filler, rest, rfl, fills, ends⟩ :=
                respaced.endsLine (endsLine_of_comment munches inLine)
              exact comment_spells inLine (fills.spells_drop ends (fills.of_spells later))
          | _ => cases same

end Cpplox
