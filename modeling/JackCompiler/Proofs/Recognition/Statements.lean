import JackCompiler.Proofs.Recognition.Expressions
/-!
# Statements are read as their trees

The goals of a statement list read its lexemes up to the brace that closes the block, write its
commands, and count its `if` and `while` statements.
-/

namespace JackCompiler.Compile

open Syntax

variable {state : State} {scope : Scope} {i w : Nat}

/-! ## What may follow -/

/-- What is left of the source closes the block. -/
def Closes (rest : List Lexeme) : Prop := rest.head? = some (.symbol .rightBrace)

/-- What is left of the source does not go on an `if` that ends before it. -/
def NoElse (rest : List Lexeme) : Prop := rest.head?.any (· != .keyword .else)

/-- What a statement list and the brace behind it begin with. -/
theorem statements_head {allowed : Lexeme → Bool} (hbrace : allowed (.symbol .rightBrace) = true)
    (hwords : ∀ word ∈ [Keyword.let, .if, .while, .do, .return], allowed (.keyword word) = true)
    (body : Statements) {rest : List Lexeme} (hrest : Closes rest) :
    (body.lexemes ++ rest).head?.any allowed := by
  cases body with
  | nil =>
    simp only [Closes] at hrest
    simp [Statements.lexemes, hrest, hbrace]
  | cons first body => cases first <;> exact hwords _ (by simp)

theorem noElse_statements (body : Statements) {rest : List Lexeme} (hrest : Closes rest) :
    NoElse (body.lexemes ++ rest) := statements_head rfl (by decide) body hrest

/-- A state in which more `if` and `while` statements have begun. -/
def State.past (state : State) (ifs whiles : Nat) : State :=
  { state with
    ifCount := state.ifCount + .ofNat ifs
    whileCount := state.whileCount + .ofNat whiles }

@[simp]
theorem past_zero (state : State) : state.past 0 0 = state := by
  simp [State.past]

@[simp]
theorem past_past (state : State) (a b a' b' : Nat) :
    (state.past a b).past a' b' = state.past (a + a') (b + b') := by
  simp [State.past, UInt16.ofNat_add, UInt16.add_assoc]

theorem past_if (state : State) : state.past 1 0 = { state with ifCount := state.ifCount + 1 } := by
  simp [State.past]

theorem past_while (state : State) :
    state.past 0 1 = { state with whileCount := state.whileCount + 1 } := by
  simp [State.past]

@[simp]
theorem past_symbols (state : State) (a b : Nat) : (state.past a b).symbols = state.symbols := rfl

/-- A state where names mean what they do in a scope, and `i` `if` and `w` `while` statements of
the subroutine have begun. -/
structure State.At (state : State) (scope : Scope) (i w : Nat) : Prop extends state.In scope where
  ifCount : state.ifCount = .ofNat i
  whileCount : state.whileCount = .ofNat w

theorem State.At.past (h : state.At scope i w) (ifs whiles : Nat) :
    (state.past ifs whiles).At scope (i + ifs) (w + whiles) where
  className := h.className
  symbols := h.symbols
  ifCount := by rw [State.past, h.ifCount, UInt16.ofNat_add]
  whileCount := by rw [State.past, h.whileCount, UInt16.ofNat_add]

/-! ## Parts of statements -/

section

variable {named fit : Prop} {s s' : State} {text : List Lexeme} {events : List Event}

theorem reads_noElse (number : UInt16) :
    Reads True True s [.elseBranch number] [] (write [.label (ifFalse number)]) s NoElse := by
  refine .meet_next fun lexeme hlexeme => ?_
  simp only [bne_iff_ne, ne_eq] at hlexeme
  simp only [Goal.read]

theorem reads_block (h : Reads named fit s [.statements] text events s' Closes) :
    Reads named fit s [.expect (.symbol .leftBrace), .statements, .closeBlock]
      (.symbol .leftBrace :: text ++ [Lexeme.symbol .rightBrace]) events s' anything := by
  have h := (Reads.symbol .leftBrace).seq (h.append .closeBlock fun _ _ => rfl)
  simpa using h

theorem reads_condition (hin : s.In scope) (e : Expression) (commands : List Vm.Command) :
    Reads (Resolved s.symbols (usedNames e.terms)) (AllFit (stringConstants e.terms)) s
      [.expect (.symbol .leftParen), .term, .operators [], .expect (.symbol .rightParen),
        .emit commands]
      (.symbol .leftParen :: e.lexemes ++ [Lexeme.symbol .rightParen])
      (emitted (e.code scope) ++ write commands) s anything := by
  have h := (Reads.symbol .leftParen).seq
    ((Expression.reads hin e).append
      ((Reads.symbol .rightParen).seq (.emit commands)) fun _ _ => rfl)
  simpa [expression] using h

end

/-- A `let` reads its variable if that is declared, and then what it is assigned. -/
theorem reads_target {named fit : Prop} (name : String) {text : List Lexeme} {events : List Event}
    (h : ∀ declared, state.symbols.lookup? name = some declared →
      Reads named fit state [.assignment declared] text events state anything) :
    Reads ((state.symbols.lookup? name).isSome ∧ named) fit state [.target]
      (.identifier name :: text) events state anything :=
  Reads.lookup rfl fun declared hd => by
    have hread : Goal.target.read ⟨.identifier name, default⟩ state =
        .take [] [.assignment declared] state := withVariable_some hd
    simpa using Reads.take hread (h declared hd)

theorem write_pop (hin : state.In scope) {name : String} {declared : Declaration}
    (h : state.symbols.lookup? name = some declared) :
    write [declared.pop] = emitted (scope.assign name) := by
  rw [hin.lookup?] at h
  obtain ⟨slot, hslot, rfl⟩ := Option.map_eq_some_iff.mp h
  simp [Scope.assign, hslot, Slot.declaration_pop]

/-- The value of a `let` or `return`, and the commands after it. -/
theorem reads_value (hin : state.In scope) (e : Expression) (commands : List Vm.Command) :
    Reads (Resolved state.symbols (usedNames e.terms)) (AllFit (stringConstants e.terms)) state
      [.term, .operators [], .emit commands, .expect (.symbol .semicolon)]
      (e.lexemes ++ [Lexeme.symbol .semicolon]) (emitted (e.code scope) ++ write commands) state
      anything := by
  have h := (Expression.reads hin e).append
    ((Reads.emit commands).seq (.symbol .semicolon)) fun _ _ => rfl
  simpa [expression] using h

theorem reads_letVar (hin : state.In scope) (name : String) (value : Expression) :
    Reads ((state.symbols.lookup? name).isSome ∧ Resolved state.symbols (usedNames value.terms))
      (AllFit (stringConstants value.terms)) state [.target]
      (.identifier name :: .symbol .equal :: (value.lexemes ++ [Lexeme.symbol .semicolon]))
      (emitted (value.code scope ++ scope.assign name)) state anything := by
  refine reads_target name fun declared hd => ?_
  have hread : (Goal.assignment declared).read ⟨.symbol .equal, default⟩ state =
      .take [] [.term, .operators [], .emit [declared.pop], .expect (.symbol .semicolon)]
        state := rfl
  have h := Reads.take hread (reads_value hin value [declared.pop])
  rwa [write_pop hin hd, ← emitted_append] at h

theorem reads_letElement (hin : state.In scope) (array : String) (index value : Expression) :
    Reads ((state.symbols.lookup? array).isSome ∧ Resolved state.symbols (usedNames index.terms) ∧
        Resolved state.symbols (usedNames value.terms))
      (AllFit (stringConstants index.terms) ∧ AllFit (stringConstants value.terms)) state [.target]
      (.identifier array :: .symbol .leftBracket :: (index.lexemes ++
        .symbol .rightBracket :: .symbol .equal :: (value.lexemes ++ [Lexeme.symbol .semicolon])))
      (emitted (scope.read array ++ index.code scope ++ [.operation .add] ++
        value.code scope ++ storeElement)) state anything := by
  have htarget : Reads _ _ state [.target] _ _ state anything :=
    reads_target array fun declared hd => by
      have hread : (Goal.assignment declared).read ⟨.symbol .leftBracket, default⟩ state =
          .take (write [declared.push]) [.term, .operators [], .expect (.symbol .rightBracket),
            .emit [.operation .add], .expect (.symbol .equal), .term, .operators [],
            .emit storeElement, .expect (.symbol .semicolon)] state := rfl
      rw [write_push hin hd] at hread
      exact Reads.take hread <|
        (Expression.reads hin index).append ((Reads.symbol .rightBracket).seq
          ((Reads.emit [.operation .add]).seq ((Reads.symbol .equal).seq
            (reads_value hin value storeElement)))) fun _ _ => rfl
  simpa [storeElement] using htarget

theorem reads_return (hin : state.In scope) (value : Expression) :
    Reads (Resolved state.symbols (usedNames value.terms)) (AllFit (stringConstants value.terms))
      state [.returnValue] (value.lexemes ++ [Lexeme.symbol .semicolon])
      (emitted (value.code scope ++ [.return])) state anything := by
  have hread (lexeme : Lexeme) (hlexeme : isNoTerm lexeme = false) :
      Goal.returnValue.read ⟨lexeme, default⟩ state = takeTerm ⟨lexeme, default⟩ state
        [.operators [], .expect (.symbol .semicolon), .emit [.return]] := by
    simp only [Goal.read]
    split
    · simp_all [isNoTerm]
    · rfl
  have h := (Expression.reads hin value).append
    ((Reads.symbol .semicolon).seq (.emit [.return])) fun _ _ => rfl
  simpa using reads_takeTerm hread h

theorem reads_doCall (hin : state.In scope) (call : Call) :
    Reads (Resolved state.symbols (usedNames call.terms)) (AllFit (stringConstants call.terms))
      state [.doCall] (call.lexemes ++ [Lexeme.symbol .semicolon])
      (emitted (call.code scope ++ [.pop .temp 0])) state anything := by
  have hread : Goal.doCall.read ⟨.identifier call.firstName, default⟩ state = .take []
      [.callRest call.firstName, .expect (.symbol .semicolon), .emit [.pop .temp 0]] state := rfl
  have h := Reads.take hread <| (Call.reads hin call).seq
    ((Reads.symbol .semicolon).seq (.emit [.pop .temp 0]))
  rw [call.lexemes_eq]
  simpa using h

/-! ## Statements -/

section

variable {named fit : Prop} {state state' : State} {text : List Lexeme} {events : List Event}
  {body alternative : Statements}
  (hbody : ∀ {state : State} {i w : Nat}, state.At scope i w →
    Reads (Resolved state.symbols (body.targets ++ usedNames body.terms))
      (AllFit (stringConstants body.terms)) state [.statements] body.lexemes
      (emitted (body.code scope i w)) (state.past body.ifs body.whiles) Closes)
  (hat : state.At scope i w)

include hbody hat

theorem reads_ifThen (condition : Expression)
    (helse : ∀ rest, Closes rest → NoElse (text ++ rest))
    (h : Reads named fit (state.past (Statement.ifThen condition body).ifs
      (Statement.ifThen condition body).whiles) [.statements] text events state' Closes) :
    Reads (Resolved state.symbols ((Statement.ifThen condition body).targets ++
        usedNames (Statement.ifThen condition body).terms) ∧ named)
      (AllFit (stringConstants (Statement.ifThen condition body).terms) ∧ fit) state [.statements]
      ((Statement.ifThen condition body).lexemes ++ text)
      (emitted ((Statement.ifThen condition body).code scope i w) ++ events) state' Closes := by
  have hread : Goal.statements.read ⟨.keyword .if, default⟩ state =
      .take [] [.expect (.symbol .leftParen), .term, .operators [],
        .expect (.symbol .rightParen), .emit (branch (.ofNat i)),
        .expect (.symbol .leftBrace), .statements, .closeBlock, .elseBranch (.ofNat i),
        .statements] (state.past 1 0) := by
    rw [past_if, ← hat.ifCount]
    rfl
  have hafter : state.past (Statement.ifThen condition body).ifs
      (Statement.ifThen condition body).whiles = (state.past 1 0).past body.ifs body.whiles := by
    simp [Statement.ifs, Statement.whiles, Nat.add_comm]
  rw [hafter] at h
  have h := Reads.take hread <|
    (reads_condition (hat.past 1 0).toIn condition (branch (.ofNat i))).seq
      ((reads_block (hbody (hat.past 1 0))).seq ((reads_noElse (.ofNat i)).append h helse))
  refine h.of_eq ?named ?fit ?text ?events
  case named => simp [Statement.targets, Statement.terms, and_assoc, and_left_comm]
  case fit => simp [Statement.terms, and_assoc]
  case text => simp [Statement.lexemes]
  case events => simp [Statement.code, branch]

theorem reads_ifElse (condition : Expression)
    (halternative : ∀ {state : State} {i w : Nat}, state.At scope i w →
      Reads (Resolved state.symbols (alternative.targets ++ usedNames alternative.terms))
        (AllFit (stringConstants alternative.terms)) state [.statements] alternative.lexemes
        (emitted (alternative.code scope i w)) (state.past alternative.ifs alternative.whiles)
        Closes)
    (h : Reads named fit (state.past (Statement.ifElse condition body alternative).ifs
      (Statement.ifElse condition body alternative).whiles) [.statements] text events state'
      Closes) :
    Reads (Resolved state.symbols ((Statement.ifElse condition body alternative).targets ++
        usedNames (Statement.ifElse condition body alternative).terms) ∧ named)
      (AllFit (stringConstants (Statement.ifElse condition body alternative).terms) ∧ fit) state
      [.statements] ((Statement.ifElse condition body alternative).lexemes ++ text)
      (emitted ((Statement.ifElse condition body alternative).code scope i w) ++ events) state'
      Closes := by
  have hread : Goal.statements.read ⟨.keyword .if, default⟩ state =
      .take [] [.expect (.symbol .leftParen), .term, .operators [],
        .expect (.symbol .rightParen), .emit (branch (.ofNat i)),
        .expect (.symbol .leftBrace), .statements, .closeBlock, .elseBranch (.ofNat i),
        .statements] (state.past 1 0) := by
    rw [past_if, ← hat.ifCount]
    rfl
  let inside := (state.past 1 0).past body.ifs body.whiles
  have hinside : inside.At scope (i + 1 + body.ifs) (w + body.whiles) :=
    (hat.past 1 0).past body.ifs body.whiles
  have hkeyword : (Goal.elseBranch (.ofNat i)).read ⟨.keyword .else, default⟩ inside =
      .take (write (Compile.alternative (.ofNat i)))
        [.expect (.symbol .leftBrace), .statements, .closeBlock,
          .emit [.label (ifEnd (.ofNat i))]] inside := rfl
  have hafter : state.past (Statement.ifElse condition body alternative).ifs
      (Statement.ifElse condition body alternative).whiles =
        inside.past alternative.ifs alternative.whiles := by
    rw [past_past, past_past, Statement.ifs, Statement.whiles]
    congr 1 <;> omega
  rw [hafter] at h
  have helse := Reads.take hkeyword <|
    (reads_block (halternative hinside)).seq (.emit [.label (ifEnd (.ofNat i))])
  have h := Reads.take hread <|
    (reads_condition (hat.past 1 0).toIn condition (branch (.ofNat i))).seq
      ((reads_block (hbody (hat.past 1 0))).seq (helse.seq h))
  refine h.of_eq ?named ?fit ?text ?events
  case named => simp [inside, Statement.targets, Statement.terms, and_assoc, and_left_comm]
  case fit => simp [Statement.terms, and_assoc]
  case text => simp [Statement.lexemes]
  case events => simp [Statement.code, branch, Compile.alternative, Nat.add_assoc]

theorem reads_whileLoop (condition : Expression)
    (h : Reads named fit (state.past (Statement.whileLoop condition body).ifs
      (Statement.whileLoop condition body).whiles) [.statements] text events state' Closes) :
    Reads (Resolved state.symbols ((Statement.whileLoop condition body).targets ++
        usedNames (Statement.whileLoop condition body).terms) ∧ named)
      (AllFit (stringConstants (Statement.whileLoop condition body).terms) ∧ fit) state
      [.statements] ((Statement.whileLoop condition body).lexemes ++ text)
      (emitted ((Statement.whileLoop condition body).code scope i w) ++ events) state' Closes := by
  have hread : Goal.statements.read ⟨.keyword .while, default⟩ state =
      .take (write [.label (whileStart (.ofNat w))])
        [.expect (.symbol .leftParen), .term, .operators [], .expect (.symbol .rightParen),
          .emit (leaveLoop (.ofNat w)), .expect (.symbol .leftBrace), .statements,
          .closeBlock, .emit (repeatLoop (.ofNat w)), .statements] (state.past 0 1) := by
    rw [past_while, ← hat.whileCount]
    rfl
  have hafter : state.past (Statement.whileLoop condition body).ifs
      (Statement.whileLoop condition body).whiles =
        (state.past 0 1).past body.ifs body.whiles := by
    simp [Statement.ifs, Statement.whiles, Nat.add_comm]
  rw [hafter] at h
  have h := Reads.take hread <|
    (reads_condition (hat.past 0 1).toIn condition (leaveLoop (.ofNat w))).seq
      ((reads_block (hbody (hat.past 0 1))).seq ((Reads.emit (repeatLoop (.ofNat w))).seq h))
  refine h.of_eq ?named ?fit ?text ?events
  case named => simp [Statement.targets, Statement.terms, and_assoc, and_left_comm]
  case fit => simp [Statement.terms, and_assoc]
  case text => simp [Statement.lexemes]
  case events => simp [Statement.code, leaveLoop, repeatLoop]

end

mutual

theorem Statement.reads (first : Statement) {named fit : Prop} {state state' : State}
    {i w : Nat} (hat : state.At scope i w) {text : List Lexeme} {events : List Event}
    (helse : ∀ rest, Closes rest → NoElse (text ++ rest))
    (h : Reads named fit (state.past first.ifs first.whiles) [.statements] text events state'
      Closes) :
    Reads (Resolved state.symbols (first.targets ++ usedNames first.terms) ∧ named)
      (AllFit (stringConstants first.terms) ∧ fit) state [.statements] (first.lexemes ++ text)
      (emitted (first.code scope i w) ++ events) state' Closes := by
  cases first with
  | letVar name value =>
    have hread : Goal.statements.read ⟨.keyword .let, default⟩ state =
        .take [] [.target, .statements] state := rfl
    rw [Statement.ifs, Statement.whiles, past_zero] at h
    have h := Reads.take hread ((reads_letVar hat.toIn name value).seq h)
    simpa [Statement.targets, Statement.terms, Statement.lexemes, Statement.code, and_assoc] using h
  | letElement array index value =>
    have hread : Goal.statements.read ⟨.keyword .let, default⟩ state =
        .take [] [.target, .statements] state := rfl
    rw [Statement.ifs, Statement.whiles, past_zero] at h
    have h := Reads.take hread ((reads_letElement hat.toIn array index value).seq h)
    simpa [Statement.targets, Statement.terms, Statement.lexemes, Statement.code, storeElement,
      and_assoc] using h
  | ifThen condition body => exact reads_ifThen (Statements.reads body) hat condition helse h
  | ifElse condition body alternative =>
    exact reads_ifElse (Statements.reads body) hat condition (Statements.reads alternative) h
  | whileLoop condition body => exact reads_whileLoop (Statements.reads body) hat condition h
  | doCall call =>
    have hread : Goal.statements.read ⟨.keyword .do, default⟩ state =
        .take [] [.doCall, .statements] state := rfl
    rw [Statement.ifs, Statement.whiles, past_zero] at h
    have h := Reads.take hread ((reads_doCall hat.toIn call).seq h)
    simpa [Statement.targets, Statement.terms, Statement.lexemes, Statement.code] using h
  | returnNothing =>
    have hread : Goal.statements.read ⟨.keyword .return, default⟩ state =
        .take [] [.returnValue, .statements] state := rfl
    have hreturn : Goal.returnValue.read ⟨.symbol .semicolon, default⟩ state =
        .take (write [.push .constant 0, .return]) [] state := rfl
    rw [Statement.ifs, Statement.whiles, past_zero] at h
    have h := Reads.take hread ((Reads.take hreturn .nil).seq h)
    simpa [Statement.targets, Statement.terms, Statement.lexemes, Statement.code] using h
  | returnValue value =>
    have hread : Goal.statements.read ⟨.keyword .return, default⟩ state =
        .take [] [.returnValue, .statements] state := rfl
    rw [Statement.ifs, Statement.whiles, past_zero] at h
    have h := Reads.take hread ((reads_return hat.toIn value).seq h)
    simpa [Statement.targets, Statement.terms, Statement.lexemes, Statement.code] using h

theorem Statements.reads (body : Statements) {state : State} {i w : Nat}
    (hat : state.At scope i w) :
    Reads (Resolved state.symbols (body.targets ++ usedNames body.terms))
      (AllFit (stringConstants body.terms)) state [.statements] body.lexemes
      (emitted (body.code scope i w)) (state.past body.ifs body.whiles) Closes := by
  cases body with
  | nil =>
    have h : Reads True True state [.statements] [] [] state Closes :=
      .meet fun stop rest hrest => by
        cases rest with
        | nil => cases hrest
        | cons next rest => cases hrest; rfl
    simpa [Statements.targets, Statements.terms, Statements.lexemes, Statements.code,
      Statements.ifs, Statements.whiles] using h
  | cons first rest =>
    have h := Statement.reads first hat (fun _ => noElse_statements rest)
      (Statements.reads rest (hat.past first.ifs first.whiles))
    rw [past_past] at h
    refine h.of_eq ?named ?fit ?text ?events
    case named => simp [Statements.targets, Statements.terms, and_assoc, and_left_comm]
    case fit => simp [Statements.terms]
    case text => rfl
    case events => simp [Statements.code]

end

end JackCompiler.Compile
