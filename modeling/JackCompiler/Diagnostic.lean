import JackCompiler.Text.Quoted
import JackCompiler.Token.Basic
/-!
# What can be wrong in a source

A fault is a cause, with its wording in `Fault.message`; a diagnostic is a fault and the span it
lies at. Line and column are a matter of showing it (`JackCompiler.Error`).
-/

namespace JackCompiler

/-- Why no token can be read. -/
inductive LexicalFault
  | unknownCharacter (c : Char)
  | unterminatedString
  | unterminatedComment
  /-- An integer constant above `maxInt`. -/
  | integerOverflow (digits : String)
  /-- A token was asked for at the end of the source. -/
  | noMoreTokens
  deriving DecidableEq, Repr

def LexicalFault.message : LexicalFault → String
  | unknownCharacter c => "unknown character " ++ Text.quoted c
  | unterminatedString => "unterminated string constant"
  | unterminatedComment => "unterminated block comment"
  | integerOverflow digits =>
    "integer constant " ++ digits ++ " exceeds maximum " ++ toString maxInt
  | noMoreTokens => "no tokens remaining"

/-- What is wrong at a place of a source. -/
inductive Fault
  | lexical (fault : LexicalFault)
  /-- A token that does not fit the grammar. -/
  | unexpected (expected found : String)
  /-- A name used as a variable that neither scope declares. -/
  | undefinedSymbol (name : String)
  /-- A name declared twice in one scope. -/
  | duplicateDefinition (name : String)
  deriving DecidableEq, Repr

def Fault.message : Fault → String
  | lexical fault => "lexical error: " ++ fault.message
  | unexpected expected found => "syntax error: expected " ++ expected ++ ", found " ++ found
  | undefinedSymbol name => "undefined symbol '" ++ name ++ "'"
  | duplicateDefinition name => "symbol '" ++ name ++ "' is already defined in this scope"

/-- A fault and where it lies. -/
structure Diagnostic where
  fault : Fault
  span : Span
  deriving DecidableEq, Repr

/-- The diagnostic of a token that stands where the grammar wants something else. -/
def Token.unexpected (token : Token) (expected : String) : Diagnostic :=
  ⟨.unexpected expected (token.kind.found token.text), token.span⟩

end JackCompiler
