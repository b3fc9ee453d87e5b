import Cpplox.Data.Munch
import Cpplox.Scanner

namespace Cpplox

open Data

/-! The lexical grammar, written down apart from the scanner, and the longest element
that each first character begins. -/

def keywords : List (TokenType × Text) :=
  [(.and_, "and".toList), (.break_, "break".toList), (.class_, "class".toList),
    (.continue_, "continue".toList), (.else_, "else".toList), (.false_, "false".toList),
    (.for_, "for".toList), (.fun_, "fun".toList), (.if_, "if".toList), (.nil, "nil".toList),
    (.or_, "or".toList), (.print, "print".toList), (.return_, "return".toList),
    (.super, "super".toList), (.this_, "this".toList), (.true_, "true".toList),
    (.var, "var".toList), (.while_, "while".toList)]

def operators : List (TokenType × Text) :=
  [(.leftParen, ['(']), (.rightParen, [')']), (.leftBrace, ['{']), (.rightBrace, ['}']),
    (.comma, [',']), (.dot, ['.']), (.minus, ['-']), (.plus, ['+']), (.semicolon, [';']),
    (.slash, ['/']), (.star, ['*']), (.bang, ['!']), (.bangEqual, ['!', '=']), (.equal, ['=']),
    (.equalEqual, ['=', '=']), (.greater, ['>']), (.greaterEqual, ['>', '=']), (.less, ['<']),
    (.lessEqual, ['<', '='])]

def blanks : Text := [' ', '\t', '\r', '\n']

def isLetter (char : Char) : Bool := char.isAlpha || char == '_'

/-- The elements a source consists of: tokens with their types, and blanks and comments. -/
inductive Element : Option TokenType → Text → Prop where
  | blank {char} : char ∈ blanks → Element none [char]
  | comment {body} : '\n' ∉ body → Element none ('/' :: '/' :: body)
  | keyword {type lexeme} : (type, lexeme) ∈ keywords → Element (some type) lexeme
  | identifier {first rest} : isLetter first → (∀ char ∈ rest, isIdentifierChar char) →
      (∀ type, (type, first :: rest) ∉ keywords) → Element (some .identifier) (first :: rest)
  | whole {digits} : digits ≠ [] → (∀ char ∈ digits, char.isDigit) →
      Element (some .number) digits
  | fraction {digits fraction} : digits ≠ [] → (∀ char ∈ digits, char.isDigit) →
      fraction ≠ [] → (∀ char ∈ fraction, char.isDigit) →
      Element (some .number) (digits ++ '.' :: fraction)
  | string {body} : '"' ∉ body → Element (some .string) ('"' :: (body ++ ['"']))
  | operator {type lexeme} : (type, lexeme) ∈ operators → Element (some type) lexeme

/-- What can follow the first digit of a number. -/
def Digits (tail : Text) : Prop :=
  (∀ char ∈ tail, char.isDigit) ∨
    ∃ digits fraction, tail = digits ++ '.' :: fraction ∧ fraction ≠ [] ∧
      (∀ char ∈ digits, char.isDigit) ∧ ∀ char ∈ fraction, char.isDigit

/-- What an element that begins with `first` can be. -/
inductive Begins (first : Char) (kind : Option TokenType) (tail : Text) : Prop where
  | blank : first ∈ blanks → kind = none → tail = [] → Begins first kind tail
  | comment (body : Text) : first = '/' → kind = none → tail = '/' :: body → '\n' ∉ body →
      Begins first kind tail
  | word : isLetter first → (∀ char ∈ tail, isIdentifierChar char) → Begins first kind tail
  | number : first.isDigit → kind = some .number → Digits tail → Begins first kind tail
  | string (body : Text) : first = '"' → kind = some .string → tail = body ++ ['"'] →
      '"' ∉ body → Begins first kind tail
  | operator (type : TokenType) : (type, first :: tail) ∈ operators → kind = some type →
      Begins first kind tail

theorem keywords_letters : ∀ entry ∈ keywords, entry.2.all isLetter := by decide

theorem operators_nonempty : ∀ entry ∈ operators, entry.2 ≠ [] := by decide

theorem isIdentifierChar_of_isLetter {char : Char} (letter : isLetter char) :
    isIdentifierChar char := by
  simp only [isLetter, isIdentifierChar, Char.isAlphanum, Bool.or_eq_true] at *
  tauto

theorem Element.ne_nil {kind : Option TokenType} {lexeme : Text} (element : Element kind lexeme) :
    lexeme ≠ [] := by
  cases element with
  | keyword listed => rintro rfl; revert listed; simp [keywords]
  | whole nonempty => exact nonempty
  | operator listed => exact operators_nonempty _ listed
  | _ => simp

theorem Element.begins {kind : Option TokenType} {first : Char} {tail : Text}
    (element : Element kind (first :: tail)) : Begins first kind tail := by
  generalize same : first :: tail = lexeme at element
  cases element with
  | blank member => cases same; exact .blank member rfl rfl
  | comment inLine => cases same; exact .comment _ rfl rfl rfl inLine
  | keyword listed =>
      subst same
      have letters := List.all_eq_true.mp (keywords_letters _ listed)
      exact .word (letters _ (List.mem_cons_self ..)) fun char member =>
        isIdentifierChar_of_isLetter (letters _ (List.mem_cons_of_mem _ member))
  | identifier letter members _ => cases same; exact .word letter members
  | whole _ members =>
      subst same
      exact .number (members _ (List.mem_cons_self ..)) rfl
        (.inl fun char member => members char (List.mem_cons_of_mem _ member))
  | @fraction digits fraction nonempty members more fractional =>
      cases digits with
      | nil => exact absurd rfl nonempty
      | cons digit digits =>
          cases same
          exact .number (members _ (List.mem_cons_self ..)) rfl
            (.inr ⟨digits, fraction, rfl, more,
              fun char member => members char (List.mem_cons_of_mem _ member), fractional⟩)
  | string inside => cases same; exact .string _ rfl rfl rfl inside
  | operator listed => subst same; exact .operator _ listed rfl

theorem keywordType_listed : ∀ entry ∈ keywords, keywordType entry.2 = entry.1 := by decide

theorem keywordType_absent {lexeme : Text} (absent : ∀ type, (type, lexeme) ∉ keywords) :
    keywordType lexeme = .identifier := by
  have different : ∀ entry ∈ keywords, lexeme ≠ entry.2 := by
    rintro ⟨type, word⟩ member rfl
    exact absent type member
  simp only [keywords, List.forall_mem_cons] at different
  simp only [keywordType, different, if_false]

/-- A word is an element of the type the scanner gives it. -/
theorem Element.word {first : Char} {rest : Text} (letter : isLetter first)
    (members : ∀ char ∈ rest, isIdentifierChar char) :
    Element (some (keywordType (first :: rest))) (first :: rest) := by
  by_cases listed : ∃ type, (type, first :: rest) ∈ keywords
  case pos =>
    obtain ⟨type, member⟩ := listed
    rw [keywordType_listed _ member]
    exact .keyword member
  case neg =>
    have absent : ∀ type, (type, first :: rest) ∉ keywords := fun type member => listed ⟨type, member⟩
    rw [keywordType_absent absent]
    exact .identifier letter members absent

def kindOf : Text → Option TokenType
  | [] => none
  | first :: tail =>
      if isLetter first then some (keywordType (first :: tail))
      else if first.isDigit then some .number
      else if first = '"' then some .string
      else (operators.find? (·.2 = first :: tail)).map Prod.fst

theorem kindOf_keywords : ∀ entry ∈ keywords, kindOf entry.2 = some entry.1 := by decide

theorem kindOf_operators : ∀ entry ∈ operators, kindOf entry.2 = some entry.1 := by decide

theorem kindOf_blanks : ∀ char ∈ blanks, kindOf [char] = none := by
  simp only [blanks, List.forall_mem_cons, List.not_mem_nil, false_implies, implies_true, and_true]
  decide

theorem isLetter_cases {char : Char} (letter : isLetter char) :
    'A'.val ≤ char.val ∧ char.val ≤ 'Z'.val ∨ 'a'.val ≤ char.val ∧ char.val ≤ 'z'.val ∨
      char = '_' := by
  have bits : ((decide ('A'.val ≤ char.val ∧ char.val ≤ 'Z'.val) ||
      (decide ('a'.val ≤ char.val) && decide (char.val ≤ 'z'.val))) || char == '_') = true := letter
  simpa [or_assoc] using bits

theorem not_isLetter_of_isDigit {char : Char} (digit : char.isDigit) : isLetter char = false := by
  rw [Bool.eq_false_iff]
  intro letter
  simp only [Char.isDigit, Bool.and_eq_true, decide_eq_true_eq] at digit
  rcases isLetter_cases letter with upper | lower | rfl
  · exact absurd (UInt32.le_trans upper.1 digit.2) (by decide)
  · exact absurd (UInt32.le_trans lower.1 digit.2) (by decide)
  · exact absurd digit.2 (by decide)

theorem not_isLetter_slash : isLetter '/' = false := rfl

theorem not_isLetter_quote : isLetter '"' = false := rfl

theorem Element.kind_eq {kind : Option TokenType} {lexeme : Text} (element : Element kind lexeme) :
    kind = kindOf lexeme := by
  cases element with
  | blank member => exact (kindOf_blanks _ member).symm
  | comment _ => simp [kindOf, operators, not_isLetter_slash]
  | keyword listed => exact (kindOf_keywords _ listed).symm
  | identifier letter _ absent => simp [kindOf, letter, keywordType_absent absent]
  | @whole digits nonempty members =>
      obtain ⟨digit, digits, rfl⟩ := List.exists_cons_of_ne_nil nonempty
      have first := members _ (List.mem_cons_self ..)
      simp [kindOf, first, not_isLetter_of_isDigit first]
  | @fraction digits fraction nonempty members _ _ =>
      obtain ⟨digit, digits, rfl⟩ := List.exists_cons_of_ne_nil nonempty
      have first := members _ (List.mem_cons_self ..)
      simp [kindOf, first, not_isLetter_of_isDigit first]
  | string _ => simp [kindOf, not_isLetter_quote]
  | operator listed => exact (kindOf_operators _ listed).symm

theorem Element.oneKind : OneKind Element :=
  fun _ _ _ element other => element.kind_eq.trans other.kind_eq.symm

theorem blanks_apart : ∀ char ∈ blanks,
    isLetter char = false ∧ char.isDigit = false ∧ char ≠ '/' ∧ char ≠ '"' := by
  simp only [blanks, List.forall_mem_cons, List.not_mem_nil, false_implies, implies_true, and_true]
  decide

theorem operators_apart : ∀ entry ∈ operators, ∀ char ∈ entry.2.head?,
    isLetter char = false ∧ char.isDigit = false ∧ char ≠ '"' ∧ char ∉ blanks := by
  simp [operators, isLetter, blanks]

/-- Only four operators go on, and only with an equals sign. -/
theorem operators_tail : ∀ entry ∈ operators, entry.2.tail = [] ∨
    entry.2.tail = ['='] ∧ ∀ char ∈ entry.2.head?, char ∈ ['!', '=', '>', '<'] := by
  simp [operators]

variable {first : Char} {kind : Option TokenType} {tail : Text}

theorem Begins.of_letter (letter : isLetter first) (begins : Begins first kind tail) :
    ∀ char ∈ tail, isIdentifierChar char := by
  cases begins with
  | word _ members => exact members
  | blank member => simp [(blanks_apart _ member).1] at letter
  | comment _ same => subst same; exact absurd letter (by decide)
  | number digit => simp [not_isLetter_of_isDigit digit] at letter
  | string _ same => subst same; exact absurd letter (by decide)
  | operator type listed => simp [(operators_apart _ listed first rfl).1] at letter

theorem Begins.of_digit (digit : first.isDigit) (begins : Begins first kind tail) : Digits tail := by
  cases begins with
  | number _ _ digits => exact digits
  | word letter => simp [not_isLetter_of_isDigit digit] at letter
  | blank member => simp [(blanks_apart _ member).2.1] at digit
  | comment _ same => subst same; exact absurd digit (by decide)
  | string _ same => subst same; exact absurd digit (by decide)
  | operator type listed => simp [(operators_apart _ listed first rfl).2.1] at digit

theorem Begins.of_quote (begins : Begins '"' kind tail) : ∃ body, tail = body ++ ['"'] ∧ '"' ∉ body := by
  cases begins with
  | string body _ _ same inside => exact ⟨body, same, inside⟩
  | word letter => exact absurd letter (by decide)
  | number digit => exact absurd digit (by decide)
  | blank member => exact absurd rfl (blanks_apart _ member).2.2.2
  | comment _ same => exact absurd same (by decide)
  | operator type listed => exact absurd rfl (operators_apart _ listed _ rfl).2.2.1

theorem Begins.of_blank (member : first ∈ blanks) (begins : Begins first kind tail) : tail = [] := by
  have apart := blanks_apart _ member
  cases begins with
  | blank _ _ same => exact same
  | word letter => simp [apart.1] at letter
  | number digit => simp [apart.2.1] at digit
  | comment _ same => exact absurd same apart.2.2.1
  | string _ same => exact absurd same apart.2.2.2
  | operator type listed => exact absurd member (operators_apart _ listed first rfl).2.2.2

theorem Begins.of_other (letter : isLetter first = false) (digit : first.isDigit = false)
    (quote : first ≠ '"') (blank : first ∉ blanks) (begins : Begins first kind tail) :
    tail = [] ∨ (tail = ['='] ∧ first ∈ ['!', '=', '>', '<']) ∨
      first = '/' ∧ ∃ body, tail = '/' :: body ∧ '\n' ∉ body := by
  cases begins with
  | operator type listed =>
      exact (operators_tail _ listed).imp_right fun ⟨same, four⟩ => .inl ⟨same, four _ rfl⟩
  | comment body same _ rest inLine => exact .inr (.inr ⟨same, body, rest, inLine⟩)
  | word other => simp [letter] at other
  | number other => simp [digit] at other
  | string _ same => exact absurd same quote
  | blank member => exact absurd member blank

end Cpplox
