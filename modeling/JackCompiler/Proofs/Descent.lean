import JackCompiler.Compile
/-!
# The compiler as a recursive descent

What a run of goals does, done by procedures that call each other and take their tokens from a
stream with one token of lookahead. Each construct of the grammar has its procedure. A loop is a
procedure for one round of it, which calls itself for the next round, so a round and a call are
counted alike. Every call is entered in a log with the calls that are open then, each with the
number of tokens that were left when it was made. `depth` bounds how deep calls may be nested.

A procedure decides by the kind of the token ahead, takes it, and then asks the stream what it has
taken. What a token says is cut out of the source at its span. So a descent can also end in ways
that no source should bring about: the current token is asked for as what it is not, the source is
cut where it cannot be, a name is looked up that is not there, or a case is reached that was ruled
out before. All these are ends of a descent of their own (`Halt`).
-/

namespace JackCompiler.Descent

open Compile (Event Header State SubroutineKind)
open Vm (Segment)

/-! ## Calls -/

/-- A procedure with what it is called with. `α` is what it gives back. -/
inductive Procedure : Type → Type
  /-- Declarations of statics and fields. -/
  | classVariables : Procedure Unit
  /-- Names of variables of a type. -/
  | names (storage : Storage) (type : String) : Procedure Unit
  | subroutines : Procedure Unit
  | parameterList : Procedure Unit
  /-- A parameter, and those behind it. -/
  | parameter : Procedure Unit
  | localVariables : Procedure Unit
  | statements : Procedure Unit
  | block : Procedure Unit
  | expression : Procedure Unit
  /-- Operators, each with the term behind it. Those so far are pending, the last one first. -/
  | operators (pending : List Symbol) : Procedure Unit
  | term : Procedure Unit
  /-- The rest of a call behind its first name, which stands at `span`. -/
  | subroutineCall (name : String) (span : Span) : Procedure Unit
  /-- Arguments up to their closing parenthesis. It gives back how many there are. -/
  | expressionList : Procedure UInt16
  /-- An argument with `count` of them before it, and those behind it. -/
  | argument (count : UInt16) : Procedure UInt16

/-- The name of a procedure. -/
inductive Routine
  | classVariables | names | subroutines | parameterList | parameter | localVariables | statements
  | block | expression | operators | term | subroutineCall | expressionList | argument
  deriving DecidableEq, Repr

def Procedure.routine {α : Type} : Procedure α → Routine
  | classVariables => .classVariables
  | names _ _ => .names
  | subroutines => .subroutines
  | parameterList => .parameterList
  | parameter => .parameter
  | localVariables => .localVariables
  | statements => .statements
  | block => .block
  | expression => .expression
  | operators _ => .operators
  | term => .term
  | subroutineCall _ _ => .subroutineCall
  | expressionList => .expressionList
  | argument _ => .argument

/-- An open call. -/
structure Frame where
  routine : Routine
  /-- How many tokens were left when it was made. -/
  left : Nat
  deriving DecidableEq, Repr

structure Reader where
  source : String
  stream : TokenStream
  /-- The events so far, the last one first. -/
  done : List Event := []
  state : State := {}
  /-- The open calls at each call, the last call first. In each the innermost call is the first. -/
  entered : List (List Frame) := []

/-- How many tokens are left. -/
def Reader.left (reader : Reader) : Nat := reader.stream.remaining.tokens.length

/-- Why a descent ends before its end. -/
inductive Halt
  | refused (diagnostic : Diagnostic)
  /-- A fault that has no place. -/
  | unlocated (fault : Fault)
  | invalidAccess (access : InvalidAccess)
  /-- A cut that is not possible, a case that was ruled out, or an assertion that does not hold. -/
  | panic
  /-- Calls would be nested too deep. -/
  | tooDeep
  deriving DecidableEq, Repr

abbrev Action := ExceptT Halt (StateM Reader)

/-! ## The source and its tokens -/

/-- The text at a span. -/
def fragment (span : Span) : Action String := do
  match span.slice? (← get).source with
  | some text => return text
  | none => throw .panic

/-- Ends with a diagnostic, whose place is located: the source is cut where the span begins, and
around its line. -/
def refuse {α : Type} (diagnostic : Diagnostic) : Action α := do
  let reader ← get
  match Location.ofSpan? reader.source diagnostic.span,
    (diagnostic.span.surroundingLine reader.source).2.slice? reader.source with
  | some _, some _ => throw (.refused diagnostic)
  | _, _ => throw .panic

/-- Refuses a token, which the message shows as it stands in the source. -/
def unexpected {α : Type} (token : Token) (expected : String) : Action α := do
  let text ← (if token.kind = .endOfFile then pure "" else fragment token.span)
  refuse ⟨.unexpected expected (token.kind.found text), token.span⟩

/-- Does an operation of the stream. -/
def onStream {α : Type} (operation : TokenStream → Except Diagnostic α × TokenStream) :
    Action α := do
  let reader ← get
  set { reader with stream := (operation reader.stream).2 }
  match (operation reader.stream).1 with
  | .ok a => return a
  | .error diagnostic => do
    let _ ← fragment diagnostic.span
    refuse diagnostic

/-- The token ahead, whose text is cut out when it is read. -/
def peek : Action Token := do
  let token ← onStream TokenStream.peek
  let _ ← fragment token.span
  return token

def advance : Action Unit := do
  let _ ← peek
  let _ ← onStream TokenStream.advance
  return ()

def consume (kind : TokenKind) : Action Unit := do
  let token ← peek
  if token.kind = kind then advance else unexpected token kind.description

def matchKind (kind : TokenKind) : Action Bool := do
  if (← peek).kind = kind then do
    advance
    return true
  else return false

/-! ## What the current token says -/

/-- The current token, which has to be of a category. -/
def currentAs (category : Category) : Action Token := do
  let reader ← get
  match reader.stream.current with
  | some token =>
    if token.kind.category = category then return token
    else throw (.invalidAccess (reader.stream.invalidAccess category))
  | none => throw (.invalidAccess (reader.stream.invalidAccess category))

/-- The text of a token, a string constant without its quotes. -/
def contents (token : Token) : Action String := return token.kind.contents (← fragment token.span)

def keyword : Action Keyword := do
  match (← currentAs .keyword).kind with
  | .keyword word => return word
  | _ => throw .panic

def symbol : Action Symbol := do
  match (← currentAs .symbol).kind with
  | .symbol s => return s
  | _ => throw .panic

def identifier : Action String := do contents (← currentAs .identifier)

def stringValue : Action String := do contents (← currentAs .stringConstant)

/-- A text without the plus sign it may begin with. -/
def unsigned : List Char → List Char
  | '+' :: text => text
  | text => text

/-- The number that a text writes in decimal, if it fits in 16 bits. -/
def parseNumber? (text : String) : Option UInt16 :=
  let digits := unsigned text.toList
  if digits ≠ [] ∧ digits.all isDigit ∧ decimalValue digits < 65536 then
    some (.ofNat (decimalValue digits))
  else none

def integerValue : Action UInt16 := do
  let token ← currentAs .integerConstant
  let digits ← contents token
  match parseNumber? digits with
  | some value => return value
  | none => refuse ⟨.lexical (.integerOverflow digits), token.span⟩

/-- Takes an identifier; `what` describes it where it is missing. -/
def consumeIdentifier (what : String) : Action (String × Span) := do
  let token ← peek
  if token.kind = .identifier then do
    advance
    return (← identifier, token.span)
  else unexpected token what

/-! ## What is written -/

def tell (events : List Event) : Action Unit :=
  modify fun reader => { reader with done := events.reverse ++ reader.done }

/-- Whether a command pops into the constant segment, which is read-only. -/
def popsConstant : Vm.Command → Bool
  | .pop .constant _ => true
  | _ => false

def emit (commands : List Vm.Command) : Action Unit := do
  if commands.any popsConstant then throw .panic else tell (Compile.write commands)

/-! ## Variables and types -/

def getState : Action State := return (← get).state

def setState (state : State) : Action Unit := modify fun reader => { reader with state }

/-- The value of a lookup of a name that stands at a span. -/
def locatedAt {α : Type} (span : Span) : Except Fault α → Action α
  | .ok a => return a
  | .error fault => refuse ⟨fault, span⟩

/-- The value of a lookup of a name that has no place. -/
def unlocated {α : Type} : Except Fault α → Action α
  | .ok a => return a
  | .error fault => throw (.unlocated fault)

/-- The segment and the index of the variable a name means; `span` is where the name stands. -/
def place (name : String) (span : Span) : Action (Segment × UInt16) := do
  let state ← getState
  match state.symbols.storageOf? name with
  | some storage => return (storage.segment, ← unlocated (state.symbols.indexOf name))
  | none => refuse ⟨.undefinedSymbol name, span⟩

/-- Takes the name of a variable and declares it. -/
def defineVariable (type : String) (storage : Storage) (what : String) : Action Unit := do
  let (name, span) ← consumeIdentifier what
  let state ← getState
  let (_, symbols) ← locatedAt span (state.symbols.define name type storage)
  setState { state with symbols }

/-- A type. That of a subroutine may be `void`. -/
def typeName (allowVoid : Bool) : Action String := do
  let token ← peek
  match token.kind, allowVoid with
  | .keyword .int, _ | .keyword .char, _ | .keyword .boolean, _ => do
    advance
    return (← keyword).spelling
  | .keyword .void, true => do
    advance
    return Keyword.void.spelling
  | .identifier, _ => return (← consumeIdentifier "type").1
  | _, _ => unexpected token (if allowVoid then "'void' or a type" else "a type")

/-- What the keyword of a class variable makes of it. -/
def classStorage : Keyword → Storage
  | .static => .static
  | _ => .field

/-- What the keyword of a subroutine makes of it. -/
def subroutineKind : Keyword → SubroutineKind
  | .constructor => .constructor
  | .method => .method
  | _ => .function

/-- The size of an instance is the number of the fields. -/
def assertFields : Action Unit := do
  let state ← getState
  if state.fieldCount = state.symbols.count .field then return () else throw .panic

/-- Counts an `if`, and gives its number. -/
def nextIf : Action UInt16 := do
  let state ← getState
  setState { state with ifCount := state.ifCount + 1 }
  return state.ifCount

/-- Counts a `while`, and gives its number. -/
def nextWhile : Action UInt16 := do
  let state ← getState
  setState { state with whileCount := state.whileCount + 1 }
  return state.whileCount

/-- Forgets what was known of another subroutine. A method has its receiver as an argument, whose
name stands nowhere. -/
def startSubroutine (kind : SubroutineKind) : Action Unit := do
  let state ← getState
  setState { state with symbols := state.symbols.startSubroutine, ifCount := 0, whileCount := 0 }
  match kind with
  | .method => do
    let state ← getState
    let (_, symbols) ← unlocated (state.symbols.define "this" state.className .argument)
    setState { state with symbols }
  | _ => return ()

section

variable (call : {α : Type} → Procedure α → Action α)

/-! ## Declarations -/

def names (storage : Storage) (type : String) : Action Unit := do
  defineVariable type storage "variable name"
  setState ((← getState).countField storage)
  if ← matchKind (.symbol .comma) then call (.names storage type)

/-- Variables of one type, behind the keyword before them. -/
def variableGroup (storage : Storage) : Action Unit := do
  let type ← typeName false
  call (.names storage type)
  consume (.symbol .semicolon)

def classVariable : Action Unit := do
  advance
  variableGroup call (classStorage (← keyword))

def classVariables : Action Unit := do
  match (← peek).kind with
  | .keyword .static | .keyword .field => do
    classVariable call
    call .classVariables
  | _ => return ()

def localVariables : Action Unit := do
  match (← peek).kind with
  | .keyword .var => do
    consume (.keyword .var)
    variableGroup call .local
    call .localVariables
  | _ => return ()

def parameter : Action Unit := do
  let type ← typeName false
  defineVariable type .argument "parameter name"
  if ← matchKind (.symbol .comma) then call .parameter

def parameterList : Action Unit := do
  match (← peek).kind with
  | .symbol .rightParen => return ()
  | _ => call .parameter

def closeBlock : Action Unit := do
  let token ← peek
  match token.kind with
  | .symbol .rightBrace => advance
  | _ => unexpected token "a statement or '\x7d'"

def subroutineBody (header : Header) : Action Unit := do
  consume (.symbol .leftBrace)
  call .localVariables
  let state ← getState
  emit (.function (state.qualify header.name) (state.symbols.count .local) ::
    Compile.prologue header.kind state.fieldCount)
  call .statements
  closeBlock
  tell [(← getState).notice header]

def subroutine : Action Unit := do
  advance
  let word ← keyword
  let returnType ← typeName true
  let (name, _) ← consumeIdentifier "subroutine name"
  startSubroutine (subroutineKind word)
  consume (.symbol .leftParen)
  call .parameterList
  consume (.symbol .rightParen)
  subroutineBody call ⟨subroutineKind word, returnType, name⟩

def subroutines : Action Unit := do
  let token ← peek
  match token.kind with
  | .keyword .constructor | .keyword .function | .keyword .method => do
    subroutine call
    call .subroutines
  | .symbol .rightBrace => do
    advance
    let state ← getState
    tell [.classDone state.className state.fieldCount]
  | _ => unexpected token "'constructor', 'function', 'method' or '\x7d'"

/-! ## Statements -/

def block : Action Unit := do
  consume (.symbol .leftBrace)
  call .statements
  closeBlock

def condition : Action Unit := do
  consume (.symbol .leftParen)
  call .expression
  consume (.symbol .rightParen)

/-- The rest of a `let` behind its variable, up to its semicolon. -/
def assignment (segment : Segment) (index : UInt16) : Action Unit := do
  if ← matchKind (.symbol .leftBracket) then do
    emit [.push segment index]
    call .expression
    consume (.symbol .rightBracket)
    emit [.operation .add]
    consume (.symbol .equal)
    call .expression
    emit Compile.storeElement
  else do
    consume (.symbol .equal)
    call .expression
    emit [.pop segment index]

def letStatement : Action Unit := do
  consume (.keyword .let)
  let (name, span) ← consumeIdentifier "variable name"
  let (segment, index) ← place name span
  assignment call segment index
  consume (.symbol .semicolon)

/-- What may follow the first block of an `if`. -/
def elseBranch (number : UInt16) : Action Unit := do
  if ← matchKind (.keyword .else) then do
    emit (Compile.alternative number)
    call .block
    emit [.label (Compile.ifEnd number)]
  else emit [.label (Compile.ifFalse number)]

def ifStatement : Action Unit := do
  consume (.keyword .if)
  let number ← nextIf
  condition call
  emit (Compile.branch number)
  call .block
  elseBranch call number

def whileStatement : Action Unit := do
  consume (.keyword .while)
  let number ← nextWhile
  emit [.label (Compile.whileStart number)]
  condition call
  emit (Compile.leaveLoop number)
  call .block
  emit (Compile.repeatLoop number)

def doStatement : Action Unit := do
  consume (.keyword .do)
  let (name, span) ← consumeIdentifier "subroutine call"
  call (.subroutineCall name span)
  consume (.symbol .semicolon)
  emit [.pop .temp 0]

/-- The value of a `return`. -/
def returnValue : Action Unit := do
  match (← peek).kind with
  | .symbol .semicolon => emit [.push .constant 0]
  | _ => call .expression

def returnStatement : Action Unit := do
  consume (.keyword .return)
  returnValue call
  consume (.symbol .semicolon)
  emit [.return]

def statements : Action Unit := do
  match (← peek).kind with
  | .keyword .let => do
    letStatement call
    call .statements
  | .keyword .do => do
    doStatement call
    call .statements
  | .keyword .if => do
    ifStatement call
    call .statements
  | .keyword .while => do
    whileStatement call
    call .statements
  | .keyword .return => do
    returnStatement call
    call .statements
  | _ => return ()

/-! ## Expressions -/

def expression : Action Unit := do
  call .term
  call (.operators [])

/-- Writes the command of a symbol, which has to be a binary operator. -/
def emitBinary (s : Symbol) : Action Unit :=
  match Compile.binaryCommand? s with
  | some command => emit [command]
  | none => throw .panic

/-- Writes the commands of the operators that are pending, from the last one on. -/
def drain : List Symbol → Action Unit
  | [] => return ()
  | s :: pending => do
    emitBinary s
    drain pending

def operators (pending : List Symbol) : Action Unit := do
  match (← peek).kind with
  | .symbol s =>
    if Compile.isBinary s then do
      advance
      let s ← symbol
      call .term
      call (.operators (s :: pending))
    else drain pending
  | _ => drain pending

/-- The rest of a term behind a name. -/
def afterName (name : String) (span : Span) : Action Unit := do
  match (← peek).kind with
  | .symbol .leftBracket => do
    let (segment, index) ← place name span
    emit [.push segment index]
    advance
    call .expression
    consume (.symbol .rightBracket)
    emit Compile.readElement
  | .symbol .dot | .symbol .leftParen => call (.subroutineCall name span)
  | _ => do
    let (segment, index) ← place name span
    emit [.push segment index]

/-- Writes what builds a string constant. -/
def emitString (text : String) (token : Token) : Action Unit :=
  match Compile.stringCommands? text with
  | some commands => emit commands
  | none => unexpected token "a string of at most 32767 characters below U+8000"

def term : Action Unit := do
  let token ← peek
  match token.kind with
  | .integer => do
    advance
    emit [.push .constant (← integerValue)]
  | .string => do
    advance
    emitString (← stringValue) token
  | .keyword word =>
    match Compile.constantCommands? word with
    | some commands => do
      advance
      emit commands
    | none => unexpected token "an expression"
  | .symbol .leftParen => do
    advance
    call .expression
    consume (.symbol .rightParen)
  | .symbol s =>
    match Compile.unaryCommand? s with
    | some command => do
      advance
      call .term
      emit [command]
    | none => unexpected token "an expression"
  | .identifier => do
    let (name, span) ← consumeIdentifier "variable name"
    afterName call name span
  | .endOfFile => unexpected token "an expression"

/-- The arguments of a call in their parentheses, with `receivers` pushed before them. -/
def arguments (callee : String) (receivers : UInt16) : Action Unit := do
  consume (.symbol .leftParen)
  let count ← call .expressionList
  consume (.symbol .rightParen)
  emit [.call callee (count + receivers : UInt16)]

def subroutineCall (name : String) (span : Span) : Action Unit := do
  let token ← peek
  match token.kind with
  | .symbol .dot => do
    advance
    let (method, _) ← consumeIdentifier "subroutine name"
    let state ← getState
    match state.symbols.storageOf? name with
    | some storage => do
      let index ← locatedAt span (state.symbols.indexOf name)
      let type ← locatedAt span (state.symbols.typeOf name)
      emit [.push storage.segment index]
      arguments call (type ++ "." ++ method) 1
    | none => arguments call (name ++ "." ++ method) 0
  | .symbol .leftParen => do
    emit [.push .pointer 0]
    arguments call ((← getState).qualify name) 1
  | _ => unexpected token "'.' or '('"

def expressionList : Action UInt16 := do
  match (← peek).kind with
  | .symbol .rightParen => return 0
  | _ => call (.argument 0)

def argument (count : UInt16) : Action UInt16 := do
  call .expression
  if ← matchKind (.symbol .comma) then call (.argument (count + 1)) else return count + 1

/-- What a procedure does, with what it calls. -/
def body {α : Type} : Procedure α → Action α
  | .classVariables => classVariables call
  | .names storage type => names call storage type
  | .subroutines => subroutines call
  | .parameterList => parameterList call
  | .parameter => parameter call
  | .localVariables => localVariables call
  | .statements => statements call
  | .block => block call
  | .expression => expression call
  | .operators pending => operators call pending
  | .term => term call
  | .subroutineCall name span => subroutineCall call name span
  | .expressionList => expressionList call
  | .argument count => argument call count

end

/-! ## The descent -/

/-- Calls a procedure inside of open calls, if it is not nested too deep. -/
def descend : (depth : Nat) → (opened : List Frame) → {α : Type} → Procedure α → Action α
  | 0, _, _, _ => throw .tooDeep
  | depth + 1, opened, _, procedure => do
    let reader ← get
    let opened := ⟨procedure.routine, reader.left⟩ :: opened
    set { reader with entered := opened :: reader.entered }
    body (descend depth opened) procedure

/-- A source: one class, and nothing behind it. The size of its objects is settled when its
variables are declared. -/
def source (depth : Nat) : Action Unit := do
  consume (.keyword .class)
  let (name, _) ← consumeIdentifier "class name"
  setState { ← getState with className := name }
  consume (.symbol .leftBrace)
  descend depth [] .classVariables
  assertFields
  descend depth [] .subroutines
  let token ← peek
  match token.kind with
  | .endOfFile => return ()
  | _ => unexpected token "end-of-file after class"

/-- Compiles a source with calls nested no deeper than `depth`. -/
def run (depth : Nat) (text : String) : Except Halt Unit × Reader :=
  (source depth).run.run { source := text, stream := .ofSource text }

/-- What comes of a descent that ends as a run of goals can. -/
def compilation : Except Halt Unit × Reader → Option Compilation
  | (.ok (), reader) =>
    let events := reader.done.reverse
    some { events, result := .ok ⟨reader.state.className, events.filterMap (·.command?)⟩ }
  | (.error (.refused diagnostic), reader) =>
    some { events := reader.done.reverse, result := .error diagnostic }
  | (.error _, _) => none

/-- What a descent reports: the class, or the error that it ends with. A panic reports nothing. -/
def report : Except Halt Unit × Reader → Option (Except Error CompiledClass)
  | (.ok (), reader) =>
    some (.ok ⟨reader.state.className, reader.done.reverse.filterMap (·.command?)⟩)
  | (.error (.refused diagnostic), reader) => some (.error (diagnostic.toError reader.source))
  | (.error (.unlocated fault), _) => some (.error (.inSource fault none))
  | (.error (.invalidAccess access), _) => some (.error (.invalidAccess access))
  | (.error .panic, _) | (.error .tooDeep, _) => none

end JackCompiler.Descent
