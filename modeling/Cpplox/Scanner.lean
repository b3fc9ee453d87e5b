import Mathlib.Tactic.Common

namespace Cpplox

/-! Tokens and the lazily scanning token iterator.

Characters are classified as in the C locale.  An iterator keeps the part of the
source that has not been scanned yet, the line counter and the current token;
`token_begin_` and `token_end_` only delimit the lexeme being built. -/

abbrev Text := List Char

/-- The newlines of a text, counted in an `unsigned int`. -/
def newlines (text : Text) : UInt32 := .ofNat (text.count '\n')

@[simp] theorem newlines_nil : newlines [] = 0 := rfl

@[simp] theorem newlines_append (text more : Text) :
    newlines (text ++ more) = newlines text + newlines more := by
  rw [newlines, List.count_append, UInt32.ofNat_add]
  rfl

theorem newlines_cons (char : Char) (text : Text) :
    newlines (char :: text) = newlines [char] + newlines text := newlines_append [char] text

theorem newlines_eq_zero {text : Text} (inLine : '\n' ∉ text) : newlines text = 0 := by
  rw [newlines, List.count_eq_zero.mpr inLine]
  rfl

/-- What leaves the scanner or the compiler as a C++ exception.  `outOfFuel` is
the model's own, and does not occur where there is enough fuel. -/
inductive Error where
  | runtimeError (what : Text)
  | narrowingError
  | outOfFuel
deriving DecidableEq, Repr

inductive TokenType where
  | eof
  | leftParen | rightParen | leftBrace | rightBrace | comma | dot | minus | plus
  | semicolon | slash | star
  | bang | bangEqual | equal | equalEqual | greater | greaterEqual | less | lessEqual
  | identifier | number | string
  | and_ | break_ | class_ | continue_ | else_ | false_ | for_ | fun_ | if_ | nil | or_
  | print | return_ | super | this_ | true_ | var | while_
deriving DecidableEq, Repr

/-- The text `operator<<` prints: the name in upper case without the trailing underscore. -/
def TokenType.text : TokenType → Text
  | .eof => "EOF".toList
  | .leftParen => "LEFT_PAREN".toList
  | .rightParen => "RIGHT_PAREN".toList
  | .leftBrace => "LEFT_BRACE".toList
  | .rightBrace => "RIGHT_BRACE".toList
  | .comma => "COMMA".toList
  | .dot => "DOT".toList
  | .minus => "MINUS".toList
  | .plus => "PLUS".toList
  | .semicolon => "SEMICOLON".toList
  | .slash => "SLASH".toList
  | .star => "STAR".toList
  | .bang => "BANG".toList
  | .bangEqual => "BANG_EQUAL".toList
  | .equal => "EQUAL".toList
  | .equalEqual => "EQUAL_EQUAL".toList
  | .greater => "GREATER".toList
  | .greaterEqual => "GREATER_EQUAL".toList
  | .less => "LESS".toList
  | .lessEqual => "LESS_EQUAL".toList
  | .identifier => "IDENTIFIER".toList
  | .number => "NUMBER".toList
  | .string => "STRING".toList
  | .and_ => "AND".toList
  | .break_ => "BREAK".toList
  | .class_ => "CLASS".toList
  | .continue_ => "CONTINUE".toList
  | .else_ => "ELSE".toList
  | .false_ => "FALSE".toList
  | .for_ => "FOR".toList
  | .fun_ => "FUN".toList
  | .if_ => "IF".toList
  | .nil => "NIL".toList
  | .or_ => "OR".toList
  | .print => "PRINT".toList
  | .return_ => "RETURN".toList
  | .super => "SUPER".toList
  | .this_ => "THIS".toList
  | .true_ => "TRUE".toList
  | .var => "VAR".toList
  | .while_ => "WHILE".toList

structure Token where
  type : TokenType
  lexeme : Text
  line : UInt32
deriving DecidableEq, Repr

structure TokenIterator where
  rest : Text
  line : UInt32
  token : Token
deriving DecidableEq, Repr

/-- `std::to_string` of an unsigned number. -/
def decimal (value : Nat) : Text := Nat.toDigits 10 value

/-- The common beginning of every error text. -/
def atLine (line : Nat) : Text := "[Line ".toList ++ decimal line ++ "] Error".toList

/-- One scanning step yields the token, what is left of the source and the line
reached. -/
abbrev Scanned := Token × Text × UInt32

def keywordType (lexeme : Text) : TokenType :=
  if lexeme = "and".toList then .and_
  else if lexeme = "break".toList then .break_
  else if lexeme = "class".toList then .class_
  else if lexeme = "continue".toList then .continue_
  else if lexeme = "else".toList then .else_
  else if lexeme = "false".toList then .false_
  else if lexeme = "for".toList then .for_
  else if lexeme = "fun".toList then .fun_
  else if lexeme = "if".toList then .if_
  else if lexeme = "nil".toList then .nil
  else if lexeme = "or".toList then .or_
  else if lexeme = "print".toList then .print
  else if lexeme = "return".toList then .return_
  else if lexeme = "super".toList then .super
  else if lexeme = "this".toList then .this_
  else if lexeme = "true".toList then .true_
  else if lexeme = "var".toList then .var
  else if lexeme = "while".toList then .while_
  else .identifier

def isIdentifierChar (char : Char) : Bool := char.isAlphanum || char == '_'

def scanIdentifierToken (first : Char) (rest : Text) (line : UInt32) : Scanned :=
  let lexeme := first :: rest.takeWhile isIdentifierChar
  (⟨keywordType lexeme, lexeme, line⟩, rest.dropWhile isIdentifierChar, line)

def scanNumberToken (first : Char) (rest : Text) (line : UInt32) : Scanned :=
  let whole := first :: rest.takeWhile Char.isDigit
  match rest.dropWhile Char.isDigit with
  | '.' :: digit :: rest =>
      if digit.isDigit then
        (⟨.number, whole ++ '.' :: digit :: rest.takeWhile Char.isDigit, line⟩,
          rest.dropWhile Char.isDigit, line)
      else (⟨.number, whole, line⟩, '.' :: digit :: rest, line)
  | rest => (⟨.number, whole, line⟩, rest, line)

/-- Strings span lines; the token carries the line it began on. -/
def scanStringToken (rest : Text) (line : UInt32) : Except Error Scanned :=
  let body := rest.takeWhile (· != '"')
  let endLine := line + newlines body
  match rest.dropWhile (· != '"') with
  | [] => .error (.runtimeError (atLine endLine.toNat ++ ": Unterminated string.".toList))
  | quote :: rest => .ok (⟨.string, '"' :: body ++ [quote], line⟩, rest, endLine)

/-- An operator that is longer by one character when `expected` follows. -/
def scanIfMatch (first expected : Char) (matched single : TokenType) (rest : Text)
    (line : UInt32) : Scanned :=
  match rest with
  | next :: rest =>
      if next = expected then (⟨matched, [first, next], line⟩, rest, line)
      else (⟨single, [first], line⟩, next :: rest, line)
  | [] => (⟨single, [first], line⟩, [], line)

/-- The token type of a character that is a token by itself. -/
def singleCharType : Char → Option TokenType
  | '(' => some .leftParen
  | ')' => some .rightParen
  | '{' => some .leftBrace
  | '}' => some .rightBrace
  | ',' => some .comma
  | '.' => some .dot
  | '-' => some .minus
  | '+' => some .plus
  | ';' => some .semicolon
  | '*' => some .star
  | _ => none

/-- The loop of `scan_token`.  The fuel bounds the number of skipped characters
and comments; the source's length is enough. -/
def scanLoop : Nat → Text → UInt32 → Except Error Scanned
  | 0, _, line => .ok (⟨.eof, "EOF".toList, line⟩, [], line)
  | _ + 1, [], line => .ok (⟨.eof, "EOF".toList, line⟩, [], line)
  | fuel + 1, next :: rest, line =>
      if next.isAlpha || next == '_' then .ok (scanIdentifierToken next rest line)
      else if next.isDigit then .ok (scanNumberToken next rest line)
      else match next with
        | '"' => scanStringToken rest line
        | ' ' => scanLoop fuel rest line
        | '\r' => scanLoop fuel rest line
        | '\t' => scanLoop fuel rest line
        | '\n' => scanLoop fuel rest (line + 1)
        | '/' =>
            match rest with
            | '/' :: comment => scanLoop fuel (comment.dropWhile (· != '\n')) line
            | _ => .ok (⟨.slash, ['/'], line⟩, rest, line)
        | '!' => .ok (scanIfMatch '!' '=' .bangEqual .bang rest line)
        | '=' => .ok (scanIfMatch '=' '=' .equalEqual .equal rest line)
        | '>' => .ok (scanIfMatch '>' '=' .greaterEqual .greater rest line)
        | '<' => .ok (scanIfMatch '<' '=' .lessEqual .less rest line)
        | _ =>
            match singleCharType next with
            | some type => .ok (⟨type, [next], line⟩, rest, line)
            | none => .error (.runtimeError
                (atLine line.toNat ++ ": Unexpected character \"".toList ++ [next] ++ "\".".toList))

def scanToken (rest : Text) (line : UInt32) : Except Error Scanned :=
  scanLoop (rest.length + 1) rest line

namespace TokenIterator

/-- The iterator that `operator++` leaves behind. -/
def advance (iter : TokenIterator) : Except Error TokenIterator :=
  (scanToken iter.rest iter.line).map fun (token, rest, line) => ⟨rest, line, token⟩

/-- The constructor scans the first token. -/
def ofSource (source : Text) : Except Error TokenIterator :=
  (scanToken source 1).map fun (token, rest, line) => ⟨rest, line, token⟩

end TokenIterator

theorem scanStringToken_lexeme {rest : Text} {line : UInt32} {scanned : Scanned}
    (scans : scanStringToken rest line = .ok scanned) : scanned.1.lexeme ≠ [] := by
  simp only [scanStringToken] at scans
  split at scans
  · cases scans
  · cases scans
    simp

theorem scanIfMatch_lexeme (first expected : Char) (matched single : TokenType) (rest : Text)
    (line : UInt32) : (scanIfMatch first expected matched single rest line).1.lexeme ≠ [] := by
  unfold scanIfMatch
  split
  · split <;> simp
  · simp

theorem scanNumberToken_lexeme (first : Char) (rest : Text) (line : UInt32) :
    (scanNumberToken first rest line).1.lexeme ≠ [] := by
  unfold scanNumberToken
  dsimp only
  split
  · split <;> simp
  · simp

theorem scanLoop_lexeme {fuel : Nat} {line : UInt32} {rest : Text} {scanned : Scanned}
    (scans : scanLoop fuel rest line = .ok scanned) : scanned.1.lexeme ≠ [] := by
  fun_induction scanLoop fuel rest line
  -- the end of the text, with and without fuel
  case case1 | case2 => cases scans; simp
  case case3 => cases scans; simp [scanIdentifierToken]
  case case4 => cases scans; exact scanNumberToken_lexeme _ _ _
  case case5 => exact scanStringToken_lexeme scans
  -- blanks and comments are skipped
  case case6 ih | case7 ih | case8 ih | case9 ih | case10 ih => exact ih scans
  case case11 => cases scans; simp
  case case12 | case13 | case14 | case15 => cases scans; exact scanIfMatch_lexeme _ _ _ _ _ _
  case case16 | case17 =>
      split at scans
      · cases scans
        simp
      · cases scans

theorem scanToken_lexeme {line : UInt32} {rest : Text} {scanned : Scanned}
    (scans : scanToken rest line = .ok scanned) : scanned.1.lexeme ≠ [] :=
  scanLoop_lexeme scans

namespace TokenIterator

def Scanned (iter : TokenIterator) : Prop := iter.token.lexeme ≠ []

theorem advance_scanned {iter after : TokenIterator} (advances : iter.advance = .ok after) :
    after.Scanned := by
  unfold advance at advances
  cases scans : scanToken iter.rest iter.line with
  | error error => rw [scans] at advances; cases advances
  | ok scanned => rw [scans] at advances; cases advances; exact scanToken_lexeme scans

theorem ofSource_scanned {source : Text} {iter : TokenIterator}
    (scans : ofSource source = .ok iter) : iter.Scanned := by
  unfold ofSource at scans
  cases first : scanToken source 1 with
  | error error => rw [first] at scans; cases scans
  | ok scanned => rw [first] at scans; cases scans; exact scanToken_lexeme first

end TokenIterator

end Cpplox
