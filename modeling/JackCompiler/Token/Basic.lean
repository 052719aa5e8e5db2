import JackCompiler.Text.Span
import JackCompiler.Token.Word
/-!
# Tokens

A token is a lexeme with the span it was read from. A lexeme carries its text, so what a program
means depends on its lexemes alone; spans only say where to point.
-/

namespace JackCompiler

/-- The lexical categories, and the end of the file. -/
inductive Category
  | keyword | symbol | integerConstant | stringConstant | identifier | endOfFile
  deriving DecidableEq, Repr

/-- The element name of the category. -/
def Category.name : Category → String
  | keyword => "keyword"
  | symbol => "symbol"
  | integerConstant => "integerConstant"
  | stringConstant => "stringConstant"
  | identifier => "identifier"
  | endOfFile => "eof"

/-- What a grammar asks of a token: its category, and which word or symbol it is. -/
inductive TokenKind
  | keyword (word : Keyword)
  | symbol (symbol : Symbol)
  | integer
  | string
  | identifier
  | endOfFile
  deriving DecidableEq, Repr

namespace TokenKind

def category : TokenKind → Category
  | keyword _ => .keyword
  | symbol _ => .symbol
  | integer => .integerConstant
  | string => .stringConstant
  | identifier => .identifier
  | endOfFile => .endOfFile

/-- The kind as error messages name it. -/
def description : TokenKind → String
  | keyword word => "'" ++ word.spelling ++ "'"
  | symbol s => "'" ++ String.singleton s.char ++ "'"
  | integer => "integer constant"
  | string => "string constant"
  | identifier => "identifier"
  | endOfFile => "end-of-file"

/-- How an error message names a token of this kind with this source text. -/
def found (kind : TokenKind) (fragment : String) : String :=
  match kind with
  | endOfFile => "end-of-file"
  | string => "string constant " ++ fragment
  | _ => "'" ++ fragment ++ "'"

/-- The text that counts of a token of this kind: that of a string constant leaves out its quotes,
if it has both. -/
def contents (kind : TokenKind) (fragment : String) : String :=
  match kind, fragment.toList with
  | string, '"' :: rest =>
    if rest.getLast? = some '"' then String.ofList rest.dropLast else fragment
  | _, _ => fragment

end TokenKind

/-- A token without its place. -/
inductive Lexeme
  | keyword (word : Keyword)
  | symbol (symbol : Symbol)
  /-- A decimal constant, with its digits as they are written. -/
  | integer (digits : String)
  /-- A string constant, without its quotes. -/
  | string (contents : String)
  | identifier (name : String)
  | endOfFile
  deriving DecidableEq, Repr

namespace Lexeme

def kind : Lexeme → TokenKind
  | keyword word => .keyword word
  | symbol s => .symbol s
  | integer _ => .integer
  | string _ => .string
  | identifier _ => .identifier
  | endOfFile => .endOfFile

/-- The source text of the lexeme. -/
def text : Lexeme → String
  | keyword word => word.spelling
  | symbol s => String.singleton s.char
  | integer digits => digits
  | string contents => "\"" ++ contents ++ "\""
  | identifier name => name
  | endOfFile => ""

end Lexeme

/-- The number a run of decimal digits writes. -/
def decimalValue (digits : List Char) : Nat :=
  digits.foldl (fun value digit => 10 * value + (digit.toNat - '0'.toNat)) 0

/-- The greatest integer constant, the greatest positive word of the machine. -/
def maxInt : Nat := 32767

/-- A lexeme and where it stands. -/
structure Token where
  lexeme : Lexeme
  span : Span
  deriving DecidableEq, Repr

namespace Token

def kind (token : Token) : TokenKind := token.lexeme.kind

def text (token : Token) : String := token.lexeme.text

end Token

end JackCompiler
