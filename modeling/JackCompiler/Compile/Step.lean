import JackCompiler.Compile.Code
/-!
# Meeting one goal

`Goal.step` decides from the token ahead what becomes of the next goal. It is met without taking
the token; or the token is taken, and new goals stand in its place; or the token does not fit. A
goal that only writes does not look at the token, so it is met even where none can be read.
-/

namespace JackCompiler.Compile

/-- What becomes of a goal. -/
inductive Move
  /-- It is met, and the token ahead stays. -/
  | meet (events : List Event) (state : State)
  /-- The token ahead is taken, and `goals` are what is left of the goal. -/
  | take (events : List Event) (goals : List Goal) (state : State)
  /-- The token ahead does not fit. -/
  | refuse (diagnostic : Diagnostic)

/-- Takes an identifier; `what` describes it where it is missing. -/
def takeName (token : Token) (what : String) (next : String → Move) : Move :=
  match token.lexeme with
  | .identifier name => next name
  | _ => .refuse (token.unexpected what)

/-- Goes on with the variable a name means; `span` is where the name stands. -/
def withVariable (state : State) (name : String) (span : Span) (next : Declaration → Move) :
    Move :=
  match state.symbols.resolve name with
  | .ok declared => next declared
  | .error fault => .refuse ⟨fault, span⟩

/-- Declares a variable whose name stands at `span`, and goes on. -/
def declare (state : State) (name type : String) (storage : Storage) (span : Span)
    (next : State → Move) : Move :=
  match state.symbols.define name type storage with
  | .ok (_, symbols) => next { state with symbols }
  | .error fault => .refuse ⟨fault, span⟩

/-- The type a lexeme names. -/
def typeName? : Lexeme → Option String
  | .keyword .int => some "int"
  | .keyword .char => some "char"
  | .keyword .boolean => some "boolean"
  | .identifier name => some name
  | _ => none

/-- Takes the type of variables to be declared. -/
def takeType (token : Token) (storage : Storage) (state : State) : Move :=
  match typeName? token.lexeme with
  | some type => .take [] [.variableName storage type] state
  | none => .refuse (token.unexpected "a type")

/-- Takes the first token of a term that `after` follows. An integer of the source is at most
`maxInt`, so 16 bits hold its value. -/
def takeTerm (token : Token) (state : State) (after : List Goal) : Move :=
  match token.lexeme with
  | .integer digits =>
    .take (write [.push .constant (UInt16.ofNat (decimalValue digits.toList))]) after state
  | .string contents =>
    match stringCommands? contents with
    | some commands => .take (write commands) after state
    | none =>
      .refuse (token.unexpected "a string of at most 32767 characters below U+8000")
  | .keyword word =>
    match constantCommands? word with
    | some commands => .take (write commands) after state
    | none => .refuse (token.unexpected "an expression")
  | .symbol .leftParen =>
    .take [] (expression ++ .expect (.symbol .rightParen) :: after) state
  | .symbol s =>
    match unaryCommand? s with
    | some command => .take [] (.term :: .emit [command] :: after) state
    | none => .refuse (token.unexpected "an expression")
  | .identifier name => .take [] (.afterName name token.span :: after) state
  | .endOfFile => .refuse (token.unexpected "an expression")

/-- Takes the first token of a call after its first name. A call without a receiver is one of a
method of the current object. -/
def takeCall (token : Token) (name : String) (state : State) : Move :=
  match token.lexeme with
  | .symbol .dot => .take [] [.methodName name] state
  | .symbol .leftParen =>
    .take (write [.push .pointer 0]) [.callArguments (state.qualify name) 1] state
  | _ => .refuse (token.unexpected "'.' or '('")

namespace Goal

/-- What becomes of a goal with a token ahead. -/
def read (goal : Goal) (token : Token) (state : State) : Move :=
  match goal with
  | expect kind =>
    if token.kind = kind then .take [] [] state
    else .refuse (token.unexpected kind.description)
  | emit commands => .meet (write commands) state
  | subroutineDone header => .meet [state.notice header] state
  | className =>
    takeName token "class name" fun name => .take [] [] { state with className := name }
  | classVariables =>
    match token.lexeme with
    | .keyword .static =>
      .take [] [variableType .static, expect (.symbol .semicolon), classVariables] state
    | .keyword .field =>
      .take [] [variableType .field, expect (.symbol .semicolon), classVariables] state
    | _ => .meet [] state
  | variableType storage => takeType token storage state
  | variableName storage type =>
    let what := if storage = .argument then "parameter name" else "variable name"
    takeName token what fun name =>
      declare state name type storage token.span fun state =>
        .take [] [if storage = .argument then moreParameters else moreNames storage type]
          (state.countField storage)
  | moreNames storage type =>
    match token.lexeme with
    | .symbol .comma => .take [] [variableName storage type] state
    | _ => .meet [] state
  | subroutines =>
    match token.lexeme with
    | .keyword .constructor => .take [] [resultType .constructor, subroutines] state
    | .keyword .function => .take [] [resultType .function, subroutines] state
    | .keyword .method => .take [] [resultType .method, subroutines] state
    | .symbol .rightBrace =>
      .take [.classDone state.className state.fieldCount] [] state
    | _ => .refuse (token.unexpected "'constructor', 'function', 'method' or '\x7d'")
  | resultType kind =>
    match token.lexeme, typeName? token.lexeme with
    | .keyword .void, _ => .take [] [subroutineName kind "void"] state
    | _, some type => .take [] [subroutineName kind type] state
    | _, none => .refuse (token.unexpected "'void' or a type")
  | subroutineName kind returnType =>
    takeName token "subroutine name" fun name =>
      let header : Header := ⟨kind, returnType, name⟩
      let fresh : State :=
        { state with symbols := state.symbols.startSubroutine, ifCount := 0, whileCount := 0 }
      let body := [expect (.symbol .leftParen), parameters, expect (.symbol .rightParen),
        expect (.symbol .leftBrace), localVariables header, statements, closeBlock,
        subroutineDone header]
      match kind with
      | .method =>
        declare fresh "this" state.className .argument token.span fun state => .take [] body state
      | _ => .take [] body fresh
  | parameters =>
    match token.lexeme with
    | .symbol .rightParen => .meet [] state
    | _ => takeType token .argument state
  | moreParameters =>
    match token.lexeme with
    | .symbol .comma => .take [] [variableType .argument] state
    | _ => .meet [] state
  | localVariables header =>
    match token.lexeme with
    | .keyword .var =>
      .take [] [variableType .local, expect (.symbol .semicolon), localVariables header] state
    | _ =>
      .meet (write (.function (state.qualify header.name) (state.symbols.count .local) ::
        prologue header.kind state.fieldCount)) state
  | statements =>
    match token.lexeme with
    | .keyword .let => .take [] [target, statements] state
    | .keyword .do => .take [] [doCall, statements] state
    | .keyword .if =>
      let number := state.ifCount
      .take [] (expect (.symbol .leftParen) :: expression ++
        [expect (.symbol .rightParen), emit (branch number), expect (.symbol .leftBrace),
          statements, closeBlock, elseBranch number, statements])
        { state with ifCount := number + 1 }
    | .keyword .while =>
      let number := state.whileCount
      .take (write [.label (whileStart number)]) (expect (.symbol .leftParen) :: expression ++
        [expect (.symbol .rightParen), emit (leaveLoop number), expect (.symbol .leftBrace),
          statements, closeBlock, emit (repeatLoop number), statements])
        { state with whileCount := number + 1 }
    | .keyword .return => .take [] [returnValue, statements] state
    | _ => .meet [] state
  | closeBlock =>
    match token.lexeme with
    | .symbol .rightBrace => .take [] [] state
    | _ => .refuse (token.unexpected "a statement or '\x7d'")
  | target =>
    takeName token "variable name" fun name =>
      withVariable state name token.span fun declared => .take [] [assignment declared] state
  | assignment declared =>
    match token.lexeme with
    | .symbol .leftBracket =>
      .take (write [declared.push]) (expression ++
        [expect (.symbol .rightBracket), emit [.operation .add], expect (.symbol .equal)] ++
        expression ++ [emit storeElement, expect (.symbol .semicolon)]) state
    | .symbol .equal =>
      .take [] (expression ++ [emit [declared.pop], expect (.symbol .semicolon)]) state
    | _ => .refuse (token.unexpected (TokenKind.symbol .equal).description)
  | elseBranch number =>
    match token.lexeme with
    | .keyword .else =>
      .take (write (alternative number))
        [expect (.symbol .leftBrace), statements, closeBlock, emit [.label (ifEnd number)]] state
    | _ => .meet (write [.label (ifFalse number)]) state
  | doCall =>
    takeName token "subroutine call" fun name =>
      .take [] [callRest name, expect (.symbol .semicolon), emit [.pop .temp 0]] state
  | returnValue =>
    match token.lexeme with
    | .symbol .semicolon => .take (write [.push .constant 0, .return]) [] state
    | _ => takeTerm token state [operators [], expect (.symbol .semicolon), emit [.return]]
  | term => takeTerm token state []
  | operators pending =>
    match token.lexeme with
    | .symbol s =>
      match binaryCommand? s with
      | some command => .take [] [term, operators (command :: pending)] state
      | none => .meet (write pending) state
    | _ => .meet (write pending) state
  | afterName name span =>
    match token.lexeme with
    | .symbol .leftBracket =>
      withVariable state name span fun declared =>
        .take (write [declared.push])
          (expression ++ [expect (.symbol .rightBracket), emit readElement]) state
    | .symbol .dot | .symbol .leftParen => takeCall token name state
    | _ => withVariable state name span fun declared => .meet (write [declared.push]) state
  | callRest name => takeCall token name state
  | methodName receiver =>
    takeName token "subroutine name" fun name =>
      match state.symbols.lookup? receiver with
      | some declared =>
        .take (write [declared.push])
          [expect (.symbol .leftParen), callArguments (declared.type ++ "." ++ name) 1] state
      | none =>
        .take [] [expect (.symbol .leftParen), callArguments (receiver ++ "." ++ name) 0] state
  | callArguments callee count =>
    match token.lexeme with
    | .symbol .rightParen => .take (write [.call callee count]) [] state
    | _ => takeTerm token state [operators [], moreArguments callee (count + 1)]
  | moreArguments callee count =>
    match token.lexeme with
    | .symbol .comma => .take [] (expression ++ [moreArguments callee (count + 1)]) state
    | .symbol .rightParen => .take (write [.call callee count]) [] state
    | _ => .refuse (token.unexpected (TokenKind.symbol .rightParen).description)
  | endOfFile =>
    match token.lexeme with
    | .endOfFile => .meet [] state
    | _ => .refuse (token.unexpected "end-of-file after class")

/-- What becomes of a goal, with a token ahead or the reason there is none. -/
def step (goal : Goal) (ahead : Except Diagnostic Token) (state : State) : Move :=
  match ahead, goal with
  | .ok token, goal => goal.read token state
  | .error _, emit commands => .meet (write commands) state
  | .error _, subroutineDone header => .meet [state.notice header] state
  | .error diagnostic, _ => .refuse diagnostic

end Goal

end JackCompiler.Compile
