/-!
# Reserved words and symbols

The closed classes of tokens: the twenty-one reserved words and the nineteen symbol characters,
each with its one spelling. `ofSpelling?` and `ofChar?` read back exactly what `spelling` and
`char` write.
-/

namespace JackCompiler

/-- The reserved words. -/
inductive Keyword
  | «class» | constructor | function | method | field | static | var
  | int | char | boolean | void
  | true | false | null | this
  | «let» | «do» | «if» | «else» | «while» | «return»
  deriving DecidableEq, Repr

namespace Keyword

/-- The word as it is written. -/
def spelling : Keyword → String
  | «class» => "class"
  | constructor => "constructor"
  | function => "function"
  | method => "method"
  | field => "field"
  | static => "static"
  | var => "var"
  | int => "int"
  | char => "char"
  | boolean => "boolean"
  | void => "void"
  | true => "true"
  | false => "false"
  | null => "null"
  | this => "this"
  | «let» => "let"
  | «do» => "do"
  | «if» => "if"
  | «else» => "else"
  | «while» => "while"
  | «return» => "return"

/-- Every reserved word. -/
def all : List Keyword :=
  [«class», constructor, function, method, field, static, var, int, char, boolean, void,
    true, false, null, this, «let», «do», «if», «else», «while», «return»]

/-- The reserved word with a spelling. -/
def ofSpelling? (word : String) : Option Keyword := all.find? (·.spelling = word)

theorem ofSpelling?_eq_some {word : String} {keyword : Keyword} :
    ofSpelling? word = some keyword ↔ keyword.spelling = word := by
  constructor
  · intro h
    simpa using List.find?_some h
  · rintro rfl
    cases keyword <;> decide

end Keyword

/-- The symbol characters. -/
inductive Symbol
  | leftBrace | rightBrace | leftParen | rightParen | leftBracket | rightBracket
  | dot | comma | semicolon
  | plus | minus | star | slash | amp | pipe | less | greater | equal | tilde
  deriving DecidableEq, Repr

namespace Symbol

/-- The character that writes the symbol. -/
def char : Symbol → Char
  | leftBrace => '{'
  | rightBrace => '}'
  | leftParen => '('
  | rightParen => ')'
  | leftBracket => '['
  | rightBracket => ']'
  | dot => '.'
  | comma => ','
  | semicolon => ';'
  | plus => '+'
  | minus => '-'
  | star => '*'
  | slash => '/'
  | amp => '&'
  | pipe => '|'
  | less => '<'
  | greater => '>'
  | equal => '='
  | tilde => '~'

/-- Every symbol. -/
def all : List Symbol :=
  [leftBrace, rightBrace, leftParen, rightParen, leftBracket, rightBracket, dot, comma, semicolon,
    plus, minus, star, slash, amp, pipe, less, greater, equal, tilde]

/-- The symbol a character writes. -/
def ofChar? (c : Char) : Option Symbol := all.find? (·.char = c)

theorem ofChar?_eq_some {c : Char} {symbol : Symbol} :
    ofChar? c = some symbol ↔ symbol.char = c := by
  constructor
  · intro h
    simpa using List.find?_some h
  · rintro rfl
    cases symbol <;> decide

end Symbol

end JackCompiler
