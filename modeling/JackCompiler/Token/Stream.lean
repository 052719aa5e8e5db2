import JackCompiler.Token.Lexer
/-!
# A stream of tokens with one token of lookahead

The stream knows the token it gave last and, once it has been peeked at, the one to come. Every
operation answers with a result and the stream to go on with, also where it fails. An operation that
fails or does not match takes no token. Errors are not kept: after one, the next operation reads on
from where the lexer stopped.
-/

namespace JackCompiler

/-- A typed reading of the current token that its category does not allow. With no current token
the category met is the end of the file. -/
structure InvalidAccess where
  expected : Category
  encountered : Category
  deriving DecidableEq, Repr

structure TokenStream where
  lexer : Lexer
  /-- The token given last. -/
  current : Option Token := none
  /-- The token to come, once it has been read. -/
  peeked : Option Token := none
  deriving DecidableEq, Repr

namespace TokenStream

/-- The stream of a source, before its first token. -/
def ofSource (source : String) : TokenStream := { lexer := .ofSource source }

/-- The token to come, which stays to come. -/
def peek (stream : TokenStream) : Except Diagnostic Token × TokenStream :=
  match stream.peeked with
  | some token => (.ok token, stream)
  | none =>
    match stream.lexer.next with
    | (.ok token, lexer) => (.ok token, { stream with lexer, peeked := some token })
    | (.error diagnostic, lexer) => (.error diagnostic, { stream with lexer })

/-- Goes on with the token to come, if it can be read. -/
def withPeek {α : Type} (stream : TokenStream)
    (next : Token → TokenStream → Except Diagnostic α × TokenStream) :
    Except Diagnostic α × TokenStream :=
  match stream.peek with
  | (.ok token, stream) => next token stream
  | (.error diagnostic, stream) => (.error diagnostic, stream)

/-- Whether a token comes before the end of the file. -/
def hasNext (stream : TokenStream) : Except Diagnostic Bool × TokenStream :=
  stream.withPeek fun token stream => (.ok (token.lexeme ≠ .endOfFile), stream)

def peekKind (stream : TokenStream) : Except Diagnostic TokenKind × TokenStream :=
  stream.withPeek fun token stream => (.ok token.kind, stream)

/-- Takes the token to come. There is none to take at the end of the file. -/
def advance (stream : TokenStream) : Except Diagnostic Token × TokenStream :=
  stream.withPeek fun token stream =>
    if token.lexeme = .endOfFile then (.error ⟨.lexical .noMoreTokens, token.span⟩, stream)
    else (.ok token, { stream with current := some token, peeked := none })

/-- Takes the token to come if it is of a kind, and tells whether it was. -/
def matchKind (kind : TokenKind) (stream : TokenStream) : Except Diagnostic Bool × TokenStream :=
  stream.withPeek fun token stream =>
    if token.kind = kind then
      match stream.advance with
      | (.ok _, stream) => (.ok true, stream)
      | (.error diagnostic, stream) => (.error diagnostic, stream)
    else (.ok false, stream)

/-- Takes the token to come, which has to be of a kind. -/
def consume (kind : TokenKind) (stream : TokenStream) : Except Diagnostic Token × TokenStream :=
  stream.withPeek fun token stream =>
    if token.kind = kind then stream.advance
    else (.error (token.unexpected kind.description), stream)

/-- Takes the token to come, which has to be an identifier; `what` describes it in the error. -/
def consumeIdentifier (what : String) (stream : TokenStream) :
    Except Diagnostic (String × Span) × TokenStream :=
  stream.withPeek fun token stream =>
    match token.lexeme with
    | .identifier name => (.ok (name, token.span), stream.advance.2)
    | _ => (.error (token.unexpected what), stream)

/-- Takes `count` tokens. -/
def skip : (count : Nat) → TokenStream → Except Diagnostic TokenStream
  | 0, stream => .ok stream
  | count + 1, stream =>
    match stream.advance with
    | (.ok _, stream) => stream.skip count
    | (.error diagnostic, _) => .error diagnostic

/-- The tokens to come, up to the end of the file or the first error. -/
def remaining (stream : TokenStream) : Lexer.Scan :=
  match stream.peeked with
  | none => stream.lexer.scan
  | some token =>
    if token.lexeme = .endOfFile then ⟨[], .ok token⟩
    else ⟨token :: stream.lexer.scan.tokens, stream.lexer.scan.stop⟩

/-! ## The current token, read by category -/

def currentLexeme (stream : TokenStream) : Option Lexeme := stream.current.map Token.lexeme

/-- The refusal to read the current token as one of a category. -/
def invalidAccess (stream : TokenStream) (expected : Category) : InvalidAccess :=
  ⟨expected, (stream.current.map (·.kind.category)).getD .endOfFile⟩

def keyword (stream : TokenStream) : Except InvalidAccess Keyword :=
  match stream.currentLexeme with
  | some (.keyword word) => .ok word
  | _ => .error (stream.invalidAccess .keyword)

def symbol (stream : TokenStream) : Except InvalidAccess Symbol :=
  match stream.currentLexeme with
  | some (.symbol symbol) => .ok symbol
  | _ => .error (stream.invalidAccess .symbol)

def identifier (stream : TokenStream) : Except InvalidAccess String :=
  match stream.currentLexeme with
  | some (.identifier name) => .ok name
  | _ => .error (stream.invalidAccess .identifier)

/-- The number the current integer constant writes. -/
def integerValue (stream : TokenStream) : Except InvalidAccess Nat :=
  match stream.currentLexeme with
  | some (.integer digits) => .ok (decimalValue digits.toList)
  | _ => .error (stream.invalidAccess .integerConstant)

/-- The text of the current string constant, without its quotes. -/
def stringValue (stream : TokenStream) : Except InvalidAccess String :=
  match stream.currentLexeme with
  | some (.string contents) => .ok contents
  | _ => .error (stream.invalidAccess .stringConstant)

end TokenStream

end JackCompiler
