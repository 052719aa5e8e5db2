import JackCompiler.Diagnostic
/-!
# Reading tokens

A lexer is a place in a source: the byte offset reached, and the text still unread. `Lexer.next`
skips blanks and comments and reads the longest token that begins there. On an error it still has a
place to go on from: before an unknown character, on the last digit of a constant that is too
large, on the last character of a string that is not closed, and at the end after a comment that is
not closed. `Lexer.scan` reads up to the end of the file or the first error.
-/

namespace JackCompiler

/-- The characters that separate tokens. -/
def isBlank (c : Char) : Bool :=
  c = ' ' || c = '\t' || c = '\n' || c = '\r' || c = '\x0c' || c = '\u00a0' || c = '\ufeff'

/-- The characters that end a line comment and that no string constant holds. -/
def isLineEnd (c : Char) : Bool := c = '\n' || c = '\r'

def isDigit (c : Char) : Bool := '0' ≤ c && c ≤ '9'

/-- The characters a word begins with. -/
def isLetter (c : Char) : Bool := 'a' ≤ c && c ≤ 'z' || 'A' ≤ c && c ≤ 'Z' || c = '_'

/-- The characters a word goes on with. -/
def isWordCharacter (c : Char) : Bool := isLetter c || isDigit c

/-- A place in a source. -/
structure Lexer where
  offset : Nat
  rest : List Char
  deriving DecidableEq, Repr

namespace Lexer

/-- The start of a source. -/
def ofSource (source : String) : Lexer := ⟨0, source.toList⟩

def atEnd (lexer : Lexer) : Bool := lexer.rest.isEmpty

/-- What is being skipped: text between tokens, a comment up to the end of the line, or a comment
up to its closing mark, opened at an offset. -/
inductive Trivia
  | blanks
  | lineComment
  | blockComment (opened : Nat)

/-- Skips blanks and comments. Fails at a comment that is not closed, with the offset it was opened
at and the offset of the end. -/
def skipTrivia (trivia : Trivia) (offset : Nat) : List Char → Except (Nat × Nat) Lexer
  | [] =>
    match trivia with
    | .blockComment opened => .error (opened, offset)
    | _ => .ok ⟨offset, []⟩
  | c :: rest =>
    match trivia with
    | .blanks =>
      if isBlank c then skipTrivia .blanks (offset + c.utf8Size) rest
      else
        match c, rest with
        | '/', '/' :: rest => skipTrivia .lineComment (offset + 2) rest
        | '/', '*' :: rest => skipTrivia (.blockComment offset) (offset + 2) rest
        | c, rest => .ok ⟨offset, c :: rest⟩
    | .lineComment =>
      if isLineEnd c then skipTrivia .blanks (offset + 1) rest
      else skipTrivia .lineComment (offset + c.utf8Size) rest
    | .blockComment opened =>
      match c, rest with
      | '*', '/' :: rest => skipTrivia .blanks (offset + 2) rest
      | c, rest => skipTrivia (.blockComment opened) (offset + c.utf8Size) rest

/-- The token with this text, and the place after it. -/
def accept (offset : Nat) (lexeme : Lexeme) (text rest : List Char) :
    Except Diagnostic Token × Lexer :=
  let size := Text.byteLength text
  (.ok ⟨lexeme, offset, size⟩, ⟨offset + size, rest⟩)

/-- The refusal of this text. Reading goes on from its last character. -/
def refuse (offset : Nat) (fault : LexicalFault) (text rest : List Char) :
    Except Diagnostic Token × Lexer :=
  let resume := text.drop (text.length - 1)
  (.error ⟨.lexical fault, offset, Text.byteLength text⟩,
    ⟨offset + Text.byteLength text.dropLast, resume ++ rest⟩)

/-- The token that begins right at a place. -/
def readToken (offset : Nat) : List Char → Except Diagnostic Token × Lexer
  | [] => (.ok ⟨.endOfFile, offset, 0⟩, ⟨offset, []⟩)
  | c :: rest =>
    match Symbol.ofChar? c with
    | some symbol => accept offset (.symbol symbol) [c] rest
    | none =>
      if isDigit c then
        let digits := c :: rest.takeWhile isDigit
        let rest := rest.dropWhile isDigit
        if decimalValue digits ≤ maxInt then
          accept offset (.integer (String.ofList digits)) digits rest
        else refuse offset (.integerOverflow (String.ofList digits)) digits rest
      else if isLetter c then
        let word := c :: rest.takeWhile isWordCharacter
        let lexeme :=
          match Keyword.ofSpelling? (String.ofList word) with
          | some keyword => .keyword keyword
          | none => .identifier (String.ofList word)
        accept offset lexeme word (rest.dropWhile isWordCharacter)
      else if c = '"' then
        let contents := rest.takeWhile fun c => c ≠ '"' && !isLineEnd c
        match rest.dropWhile fun c => c ≠ '"' && !isLineEnd c with
        | '"' :: rest =>
          accept offset (.string (String.ofList contents)) ('"' :: contents ++ ['"']) rest
        | rest => refuse offset .unterminatedString ('"' :: contents) rest
      else refuse offset (.unknownCharacter c) [c] rest

/-- The next token, or why there is none, and the place to go on from. At the end of the source the
token is the end of the file. -/
def next (lexer : Lexer) : Except Diagnostic Token × Lexer :=
  match skipTrivia .blanks lexer.offset lexer.rest with
  | .ok lexer => readToken lexer.offset lexer.rest
  | .error (opened, stop) =>
    (.error ⟨.lexical .unterminatedComment, opened, stop - opened⟩, ⟨stop, []⟩)

/-! ## Every token makes progress -/

theorem skipTrivia_length_le {trivia : Trivia} {offset : Nat} {text : List Char} {lexer : Lexer}
    (h : skipTrivia trivia offset text = .ok lexer) : lexer.rest.length ≤ text.length := by
  fun_induction skipTrivia trivia offset text <;> grind

theorem readToken_length_lt {offset : Nat} {text : List Char} {token : Token} {lexer : Lexer}
    (h : readToken offset text = (.ok token, lexer)) (ht : token.lexeme ≠ .endOfFile) :
    lexer.rest.length < text.length := by
  have drop (p : Char → Bool) (l : List Char) : (l.dropWhile p).length ≤ l.length :=
    (List.dropWhile_suffix p).length_le
  unfold readToken accept refuse at h
  grind

theorem next_length_lt {lexer after : Lexer} {token : Token} (h : lexer.next = (.ok token, after))
    (ht : token.lexeme ≠ .endOfFile) : after.rest.length < lexer.rest.length := by
  unfold next at h
  split at h
  · exact Nat.lt_of_lt_of_le (readToken_length_lt h ht) (skipTrivia_length_le (by assumption))
  · simp at h

/-- The tokens up to the first thing that is not one: the end of the file, or an error. -/
structure Scan where
  tokens : List Token
  stop : Except Diagnostic Token

/-- Reads on to the end of the file or the first error. `done` holds the tokens so far, the last
one first. -/
def scanFrom (done : List Token) (lexer : Lexer) : Scan :=
  match _h : lexer.next with
  | (.ok token, after) =>
    if _ht : token.lexeme = .endOfFile then ⟨done.reverse, .ok token⟩
    else scanFrom (token :: done) after
  | (.error diagnostic, _) => ⟨done.reverse, .error diagnostic⟩
termination_by lexer.rest.length
decreasing_by exact next_length_lt (by assumption) (by assumption)

/-- The tokens from a place to the end of the file or the first error. -/
def scan (lexer : Lexer) : Scan := lexer.scanFrom []

theorem scanFrom_append (done more : List Token) (lexer : Lexer) :
    lexer.scanFrom (done ++ more) =
      ⟨more.reverse ++ (lexer.scanFrom done).tokens, (lexer.scanFrom done).stop⟩ := by
  fun_induction scanFrom done lexer <;> rw [scanFrom] <;> grind

/-- A token that can be read comes first, and the scan goes on after it. -/
theorem scan_of_next_ok {lexer after : Lexer} {token : Token} (h : lexer.next = (.ok token, after))
    (ht : token.lexeme ≠ .endOfFile) :
    lexer.scan = ⟨token :: after.scan.tokens, after.scan.stop⟩ := by
  have := scanFrom_append [] [token] after
  rw [scan, scanFrom]
  split <;> simp_all [scan]

theorem scan_of_next_endOfFile {lexer after : Lexer} {token : Token}
    (h : lexer.next = (.ok token, after)) (ht : token.lexeme = .endOfFile) :
    lexer.scan = ⟨[], .ok token⟩ := by
  rw [scan, scanFrom]
  split <;> simp_all

theorem scan_of_next_error {lexer after : Lexer} {diagnostic : Diagnostic}
    (h : lexer.next = (.error diagnostic, after)) : lexer.scan = ⟨[], .error diagnostic⟩ := by
  rw [scan, scanFrom]
  split <;> simp_all

end Lexer

end JackCompiler
