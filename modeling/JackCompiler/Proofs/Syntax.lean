import Mathlib
import JackCompiler.Compile
/-!
# The grammar of a class

Syntax trees, one constructor for each alternative of a production, and the lexemes each of them
stands for. A list of lexemes derives from a nonterminal if it is what some tree of it prints.
-/

namespace JackCompiler.Syntax

/-! ## Words with a place in the grammar -/

/-- What may stand between two terms. -/
inductive BinaryOperator
  | add | subtract | multiply | divide | and | or | less | greater | equal
  deriving DecidableEq, Repr

def BinaryOperator.symbol : BinaryOperator → Symbol
  | add => .plus
  | subtract => .minus
  | multiply => .star
  | divide => .slash
  | and => .amp
  | or => .pipe
  | less => .less
  | greater => .greater
  | equal => .equal

/-- What may stand before a term. -/
inductive UnaryOperator
  | negate | complement
  deriving DecidableEq, Repr

def UnaryOperator.symbol : UnaryOperator → Symbol
  | negate => .minus
  | complement => .tilde

/-- The keywords that are values. -/
inductive Constant
  | true | false | null | this
  deriving DecidableEq, Repr

def Constant.keyword : Constant → Keyword
  | true => .true
  | false => .false
  | null => .null
  | this => .this

/-- `'int' | 'char' | 'boolean' | className` -/
inductive TypeName
  | int | char | boolean
  | ofClass (name : String)
  deriving DecidableEq, Repr

def TypeName.lexeme : TypeName → Lexeme
  | int => .keyword .int
  | char => .keyword .char
  | boolean => .keyword .boolean
  | ofClass name => .identifier name

def TypeName.name : TypeName → String
  | int => "int"
  | char => "char"
  | boolean => "boolean"
  | ofClass name => name

def subroutineKeyword : Compile.SubroutineKind → Keyword
  | .constructor => .constructor
  | .function => .function
  | .method => .method

/-! ## Expressions -/

mutual

/-- `term (op term)*` -/
inductive Expression
  | mk (first : Term) (rest : Operations)

/-- `(op term)*` -/
inductive Operations
  | nil
  | cons (op : BinaryOperator) (operand : Term) (rest : Operations)

/-- `integerConstant | stringConstant | keywordConstant | varName | varName '[' expression ']'
| subroutineCall | '(' expression ')' | unaryOp term` -/
inductive Term
  | integer (digits : String)
  | string (contents : String)
  | constant (value : Constant)
  | var (name : String)
  | element (array : String) (index : Expression)
  | call (call : Call)
  | group (inner : Expression)
  | unary (op : UnaryOperator) (operand : Term)

/-- `subroutineName '(' expressionList ')'
| (className | varName) '.' subroutineName '(' expressionList ')'` -/
inductive Call
  | own (name : String) (arguments : Arguments)
  | dotted (receiver name : String) (arguments : Arguments)

/-- `(expression (',' expression)*)?` -/
inductive Arguments
  | nil
  | cons (first : Expression) (rest : Arguments)

end

mutual

def Expression.lexemes : Expression → List Lexeme
  | .mk first rest => first.lexemes ++ rest.lexemes

def Operations.lexemes : Operations → List Lexeme
  | .nil => []
  | .cons op operand rest => .symbol op.symbol :: operand.lexemes ++ rest.lexemes

def Term.lexemes : Term → List Lexeme
  | .integer digits => [.integer digits]
  | .string contents => [.string contents]
  | .constant value => [.keyword value.keyword]
  | .var name => [.identifier name]
  | .element array index =>
    .identifier array :: .symbol .leftBracket :: index.lexemes ++ [Lexeme.symbol .rightBracket]
  | .call call => call.lexemes
  | .group inner => .symbol .leftParen :: inner.lexemes ++ [Lexeme.symbol .rightParen]
  | .unary op operand => .symbol op.symbol :: operand.lexemes

def Call.lexemes : Call → List Lexeme
  | .own name arguments =>
    .identifier name :: .symbol .leftParen :: arguments.lexemes ++ [Lexeme.symbol .rightParen]
  | .dotted receiver name arguments =>
    .identifier receiver :: .symbol .dot :: .identifier name :: .symbol .leftParen ::
      arguments.lexemes ++ [Lexeme.symbol .rightParen]

def Arguments.lexemes : Arguments → List Lexeme
  | .nil => []
  | .cons first rest => first.lexemes ++ rest.moreLexemes

/-- The arguments after the first, each behind its comma. -/
def Arguments.moreLexemes : Arguments → List Lexeme
  | .nil => []
  | .cons first rest => .symbol .comma :: first.lexemes ++ rest.moreLexemes

end

/-- The name a call begins with. -/
def Call.firstName : Call → String
  | own name _ => name
  | dotted receiver _ _ => receiver

/-- What follows the first name of a call. -/
def Call.afterName : Call → List Lexeme
  | own _ arguments => .symbol .leftParen :: arguments.lexemes ++ [Lexeme.symbol .rightParen]
  | dotted _ name arguments =>
    .symbol .dot :: .identifier name :: .symbol .leftParen ::
      arguments.lexemes ++ [Lexeme.symbol .rightParen]

theorem Call.lexemes_eq (call : Call) :
    call.lexemes = .identifier call.firstName :: call.afterName := by
  cases call <;> rfl

def Arguments.length : Arguments → Nat
  | nil => 0
  | cons _ rest => rest.length + 1

/-! ## Statements -/

mutual

/-- `letStatement | ifStatement | whileStatement | doStatement | returnStatement` -/
inductive Statement
  | letVar (name : String) (value : Expression)
  | letElement (array : String) (index value : Expression)
  | ifThen (condition : Expression) (body : Statements)
  | ifElse (condition : Expression) (body alternative : Statements)
  | whileLoop (condition : Expression) (body : Statements)
  | doCall (call : Call)
  | returnNothing
  | returnValue (value : Expression)

/-- `statement*` -/
inductive Statements
  | nil
  | cons (first : Statement) (rest : Statements)

end

mutual

def Statement.lexemes : Statement → List Lexeme
  | .letVar name value =>
    .keyword .let :: .identifier name :: .symbol .equal :: value.lexemes ++
      [Lexeme.symbol .semicolon]
  | .letElement array index value =>
    .keyword .let :: .identifier array :: .symbol .leftBracket :: index.lexemes ++
      .symbol .rightBracket :: .symbol .equal :: value.lexemes ++ [Lexeme.symbol .semicolon]
  | .ifThen condition body =>
    .keyword .if :: .symbol .leftParen :: condition.lexemes ++
      .symbol .rightParen :: .symbol .leftBrace :: body.lexemes ++ [Lexeme.symbol .rightBrace]
  | .ifElse condition body alternative =>
    .keyword .if :: .symbol .leftParen :: condition.lexemes ++
      .symbol .rightParen :: .symbol .leftBrace :: body.lexemes ++
      .symbol .rightBrace :: .keyword .else :: .symbol .leftBrace :: alternative.lexemes ++
      [Lexeme.symbol .rightBrace]
  | .whileLoop condition body =>
    .keyword .while :: .symbol .leftParen :: condition.lexemes ++
      .symbol .rightParen :: .symbol .leftBrace :: body.lexemes ++ [Lexeme.symbol .rightBrace]
  | .doCall call => .keyword .do :: call.lexemes ++ [Lexeme.symbol .semicolon]
  | .returnNothing => [.keyword .return, .symbol .semicolon]
  | .returnValue value => .keyword .return :: value.lexemes ++ [Lexeme.symbol .semicolon]

def Statements.lexemes : Statements → List Lexeme
  | .nil => []
  | .cons first rest => first.lexemes ++ rest.lexemes

end

/-! ## Declarations -/

/-- Names after the first, each behind its comma. -/
def nameTail (names : List String) : List Lexeme :=
  names.flatMap fun name => [.symbol .comma, .identifier name]

/-- `type varName (',' varName)*` -/
structure VariableGroup where
  type : TypeName
  first : String
  more : List String
  deriving DecidableEq, Repr

def VariableGroup.lexemes (group : VariableGroup) : List Lexeme :=
  group.type.lexeme :: .identifier group.first :: nameTail group.more

inductive ClassStorage
  | static | field
  deriving DecidableEq, Repr

def ClassStorage.keyword : ClassStorage → Keyword
  | static => .static
  | field => .field

/-- `('static' | 'field') type varName (',' varName)* ';'` -/
structure ClassVariables where
  storage : ClassStorage
  group : VariableGroup
  deriving DecidableEq, Repr

def ClassVariables.lexemes (declared : ClassVariables) : List Lexeme :=
  .keyword declared.storage.keyword :: declared.group.lexemes ++ [Lexeme.symbol .semicolon]

/-- `'var' type varName (',' varName)* ';'` -/
def localLexemes (group : VariableGroup) : List Lexeme :=
  .keyword .var :: group.lexemes ++ [Lexeme.symbol .semicolon]

/-- `type varName` -/
structure Parameter where
  type : TypeName
  name : String
  deriving DecidableEq, Repr

def Parameter.lexemes (parameter : Parameter) : List Lexeme :=
  [parameter.type.lexeme, .identifier parameter.name]

/-- Parameters after the first, each behind its comma. -/
def parameterTail (parameters : List Parameter) : List Lexeme :=
  parameters.flatMap fun parameter => .symbol .comma :: parameter.lexemes

/-- `(type varName (',' type varName)*)?` -/
def parameterList : List Parameter → List Lexeme
  | [] => []
  | first :: rest => first.lexemes ++ parameterTail rest

/-- `'void' | type` -/
def returnLexeme : Option TypeName → Lexeme
  | none => .keyword .void
  | some type => type.lexeme

/-- `('constructor' | 'function' | 'method') ('void' | type) subroutineName
'(' parameterList ')' '{' varDec* statements '}'` -/
structure Subroutine where
  kind : Compile.SubroutineKind
  returnType : Option TypeName
  name : String
  parameters : List Parameter
  locals : List VariableGroup
  body : Statements

namespace Subroutine

/-- The part of a subroutine after its name. -/
def signatureAndBody (subroutine : Subroutine) : List Lexeme :=
  .symbol .leftParen :: parameterList subroutine.parameters ++
    .symbol .rightParen :: .symbol .leftBrace :: subroutine.locals.flatMap localLexemes ++
    subroutine.body.lexemes ++ [Lexeme.symbol .rightBrace]

def lexemes (subroutine : Subroutine) : List Lexeme :=
  .keyword (subroutineKeyword subroutine.kind) :: returnLexeme subroutine.returnType ::
    .identifier subroutine.name :: subroutine.signatureAndBody

end Subroutine

/-- `'class' className '{' classVarDec* subroutineDec* '}'` -/
structure Class where
  name : String
  groups : List ClassVariables
  subroutines : List Subroutine

def Class.lexemes (c : Class) : List Lexeme :=
  .keyword .class :: .identifier c.name :: .symbol .leftBrace ::
    c.groups.flatMap (·.lexemes) ++ c.subroutines.flatMap (·.lexemes) ++ [Lexeme.symbol .rightBrace]

end JackCompiler.Syntax
