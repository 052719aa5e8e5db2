import JackCompiler.SymbolTable
import JackCompiler.Token.Stream
/-!
# What is still to be read, and what is known so far

A class is compiled while it is read, one token at a time. What the rest of the source still has
to be is a list of goals, the next one first: tokens and constructs to be met in turn, and commands
to be written once everything before them has been. What has been read is kept only as far as later
commands depend on it: the class name, the declared variables, and how many `if` and `while`
statements the subroutine has had.

The counters have 16 bits and start again at 0 when they overflow: the fields of the class, the `if`
and `while` statements of a subroutine, and the arguments of a call, which are what a call tells the
machine to take from the stack. So two labels can have one number, and a call can leave arguments
behind. A source without overflow is one whose subroutines are `Class.Narrow`; `written_eq` needs
that, and so do the results about what running code computes, leaves on the stack and reaches. Which
sources are accepted, where they fail and which commands are written does not depend on it.
-/

namespace JackCompiler.Compile

inductive SubroutineKind
  | constructor | function | method
  deriving DecidableEq, Repr

def SubroutineKind.name : SubroutineKind → String
  | constructor => "constructor"
  | function => "function"
  | method => "method"

/-- The head of a subroutine declaration. -/
structure Header where
  kind : SubroutineKind
  returnType : String
  name : String
  deriving DecidableEq, Repr

/-- What compiling produces, in order: commands, and notices of what is complete. -/
inductive Event
  | write (command : Vm.Command)
  | subroutineDone (header : Header) (className : String) (arguments locals : UInt16)
  | classDone (name : String) (fields : UInt16)
  deriving DecidableEq, Repr

namespace Event

def record : Event → Log.Record
  | write command => command.record
  | subroutineDone header className arguments locals =>
    ⟨.debug, "compiled " ++ header.kind.name ++ " " ++ header.returnType ++ " " ++ className ++ "."
      ++ header.name ++ " (" ++ toString arguments ++ " arguments, " ++ toString locals
      ++ " locals)"⟩
  | classDone name fields =>
    ⟨.debug, "compiled class " ++ name ++ " (" ++ toString fields ++ " fields)"⟩

def command? : Event → Option Vm.Command
  | write command => some command
  | _ => none

end Event

/-- The events of writing commands. -/
def write (commands : List Vm.Command) : List Event := commands.map .write

/-- What the rest of the source still has to be. -/
inductive Goal
  /-- A token of a kind. -/
  | expect (kind : TokenKind)
  /-- No token: commands to be written here. -/
  | emit (commands : List Vm.Command)
  /-- No token: the notice that a subroutine is complete. -/
  | subroutineDone (header : Header)
  | className
  /-- Declarations of statics and fields. -/
  | classVariables
  /-- The type of variables to be declared, and then their names. -/
  | variableType (storage : Storage)
  /-- The name of a variable to be declared. -/
  | variableName (storage : Storage) (type : String)
  /-- More names of variables of a type. -/
  | moreNames (storage : Storage) (type : String)
  /-- Subroutine declarations, and the brace that closes the class. -/
  | subroutines
  | resultType (kind : SubroutineKind)
  | subroutineName (kind : SubroutineKind) (returnType : String)
  | parameters
  | moreParameters
  /-- Declarations of locals, after which the subroutine's first commands are written. -/
  | localVariables (header : Header)
  | statements
  /-- The brace that closes a block of statements. -/
  | closeBlock
  /-- The variable of a `let`. -/
  | target
  /-- The rest of a `let` after its variable. -/
  | assignment (target : Declaration)
  /-- What may follow the first block of the `if` with a number. -/
  | elseBranch (number : UInt16)
  /-- The call of a `do`. -/
  | doCall
  /-- The rest of a `return`. -/
  | returnValue
  | term
  /-- More operators and terms. The commands of the operators so far are pending, the last one
  first. -/
  | operators (pending : List Vm.Command)
  /-- What may follow a name in a term. -/
  | afterName (name : String) (span : Span)
  /-- The rest of a call after its first name. -/
  | callRest (name : String)
  /-- The name after the dot of a call. -/
  | methodName (receiver : String)
  /-- The arguments of a call and its closing parenthesis, with `count` arguments already
  pushed. -/
  | callArguments (callee : String) (count : UInt16)
  /-- The same after an argument. -/
  | moreArguments (callee : String) (count : UInt16)
  | endOfFile
  deriving DecidableEq, Repr

/-- An expression: a term, and any number of operators and terms. -/
def expression : List Goal := [.term, .operators []]

/-- The goals of a source: one class, and nothing after it. -/
def program : List Goal :=
  [.expect (.keyword .class), .className, .expect (.symbol .leftBrace), .classVariables,
    .subroutines, .endOfFile]

/-- What is known of the class and of the subroutine being read. -/
structure State where
  className : String := ""
  symbols : SymbolTable := {}
  /-- How many fields the class has declared, which is the size of its instances. -/
  fieldCount : UInt16 := 0
  /-- How many `if` statements the subroutine has had. -/
  ifCount : UInt16 := 0
  /-- How many `while` statements the subroutine has had. -/
  whileCount : UInt16 := 0
  deriving DecidableEq, Repr

/-- Counts a variable that has been declared, if it is a field. -/
def State.countField (state : State) (storage : Storage) : State :=
  if storage = .field then { state with fieldCount := state.fieldCount + 1 } else state

/-- The full name of a subroutine of the class. -/
def State.qualify (state : State) (name : String) : String := state.className ++ "." ++ name

/-- The notice that the subroutine with a head is complete. -/
def State.notice (state : State) (header : Header) : Event :=
  .subroutineDone header state.className (state.symbols.count .argument)
    (state.symbols.count .local)

end JackCompiler.Compile
