import JackCompiler.Proofs.Recognition.Reads
/-!
# Expressions are read as their trees

The goals of an expression read its lexemes and write its commands, if the lexeme after it is not
one the expression could have gone on with. The operators of an expression are pending while its
terms are read, which is why they come out last to first.
-/

namespace JackCompiler.Compile

open Syntax

variable {state : State} {scope : Scope}

/-! ## Taking a term -/

/-- What follows a term makes no difference to how its first token is taken. -/
theorem takeTerm_after (token : Token) (state : State) (after : List Goal) :
    (∃ events more state', takeTerm token state [] = .take events more state' ∧
      takeTerm token state after = .take events (more ++ after) state') ∨
    ∃ diagnostic, takeTerm token state [] = .refuse diagnostic ∧
      takeTerm token state after = .refuse diagnostic := by
  unfold takeTerm
  cases token.lexeme with
  | integer | identifier | endOfFile => simp
  | string contents => cases h : stringCommands? contents <;> simp [h]
  | keyword word => cases h : constantCommands? word <;> simp [h]
  | symbol symbol => cases symbol <;> simp [unaryCommand?]

/-- A goal that takes a term goes on as the term itself would. -/
theorem run_takeTerm {stop : Except Diagnostic Token} {done : List Event} {token : Token}
    {tokens : List Token} {goal : Goal} {goals after : List Goal} {state : State}
    (h : goal.read token state = takeTerm token state after) :
    run stop done (token :: tokens) (goal :: goals) state =
      run stop done (token :: tokens) (.term :: (after ++ goals)) state := by
  have hterm : Goal.term.read token state = takeTerm token state [] := rfl
  rcases takeTerm_after token state after with ⟨events, more, state', h1, h2⟩ | ⟨d, h1, h2⟩
  · rw [run_take (h.trans h2), run_take (hterm.trans h1), List.append_assoc]
  · rw [run_refuse_token (h.trans h2), run_refuse_token (hterm.trans h1)]

/-! ## What may follow -/

/-- Lexemes that do not go on a term that ends before them. -/
def endsTerm : Lexeme → Bool
  | .symbol .leftBracket | .symbol .dot | .symbol .leftParen => false
  | _ => true

/-- Lexemes that do not go on an expression that ends before them. -/
def endsExpression : Lexeme → Bool
  | .symbol s => endsTerm (.symbol s) && !isBinary s
  | _ => true

/-- What is left of the source does not go on a term. -/
def EndsTerm (rest : List Lexeme) : Prop := rest.head?.any endsTerm

/-- What is left of the source does not go on an expression. -/
def EndsExpression (rest : List Lexeme) : Prop := rest.head?.any endsExpression

theorem EndsExpression.endsTerm {rest : List Lexeme} (h : EndsExpression rest) : EndsTerm rest := by
  cases rest with
  | nil => exact h
  | cons next rest =>
    simp only [EndsExpression, EndsTerm, List.head?_cons, Option.any_some] at h ⊢
    cases next <;> simp_all [endsExpression, Compile.endsTerm]

theorem EndsTerm.operations {rest : List Lexeme} (h : EndsTerm rest) (operations : Operations) :
    EndsTerm (operations.lexemes ++ rest) := by
  cases operations with
  | nil => exact h
  | cons op operand operations => cases op <;> rfl

theorem constantCommands_keyword (value : Constant) :
    constantCommands? value.keyword = some value.code := by
  cases value <;> rfl

theorem stringCommands_eq (contents : String) :
    stringCommands? contents = if Fits contents then some (stringCode contents) else none := by
  have h : (((contents.toList.map Char.toNat).all (· ≤ maxInt) &&
      (contents.toList.map Char.toNat).length ≤ maxInt) = true) ↔ Fits contents := by
    simp only [Bool.and_eq_true, decide_eq_true_eq, List.all_eq_true, List.mem_map,
      forall_exists_index, and_imp, forall_apply_eq_imp_iff₂, List.length_map,
      String.length_toList]
    rw [and_comm, Fits]
    simp only [maxInt, Nat.lt_succ_iff]
  simp only [stringCommands?, h]
  congr 2
  simp [stringCode, List.flatMap_map, String.length_toList]

/-! ## Terms of one token, and names -/

theorem reads_token {lexeme : Lexeme} {commands : List Vm.Command}
    (h : takeTerm ⟨lexeme, default⟩ state [] = .take (write commands) [] state) :
    Reads True True state [.term] [lexeme] (write commands) state anything := by
  have hread : Goal.term.read ⟨lexeme, default⟩ state = .take (write commands) [] state := h
  simpa using Reads.take hread .nil

theorem reads_string (contents : String) :
    Reads True (Fits contents) state [.term] [.string contents] (emitted (stringCode contents))
      state anything := by
  have h := stringCommands_eq contents
  by_cases hf : Fits contents
  · rw [if_pos hf] at h
    have htake : takeTerm ⟨.string contents, default⟩ state [] =
        .take (emitted (stringCode contents)) [] state := by
      simp only [takeTerm, h, emitted, wrap_stringCode hf]
    exact (reads_token htake).congr .rfl (by simp [hf])
  · rw [if_neg hf] at h
    have hread : Goal.term.read ⟨.string contents, default⟩ state = .refuse (Token.unexpected
        ⟨.string contents, default⟩ "a string of at most 32767 characters below U+8000") := by
      simp only [Goal.read, takeTerm, h]
    intro stop done rest after _
    refine .unfit ?_ hf
    rw [List.cons_append, List.cons_append, unplaced_cons, run_refuse_token hread]
    exact ⟨_, _, rfl, rfl⟩

theorem read_name (name : String) : Goal.term.read ⟨.identifier name, default⟩ state =
    .take [] [.afterName name default] state := rfl

theorem write_push (hin : state.In scope) {name : String} {declared : Declaration}
    (h : state.symbols.lookup? name = some declared) :
    write [declared.push] = emitted (scope.read name) := by
  rw [hin.lookup?] at h
  obtain ⟨slot, hslot, rfl⟩ := Option.map_eq_some_iff.mp h
  simp [Scope.read, hslot, Slot.declaration_push]

/-- A name that nothing of the term follows is a variable. -/
theorem reads_var (hin : state.In scope) (name : String) :
    Reads (state.symbols.lookup? name).isSome True state [.term] [.identifier name]
      (emitted (scope.read name)) state EndsTerm := by
  have hread (rest : List Lexeme) (hrest : EndsTerm rest) (stop : Except Diagnostic Token) :
      (Goal.afterName name default).step (ahead stop (unplaced rest)) state =
        withVariable state name default fun declared => .meet (write [declared.push]) state := by
    cases rest with
    | nil => cases hrest
    | cons next rest =>
      simp only [EndsTerm, List.head?_cons, Option.any_some] at hrest
      unfold endsTerm at hrest
      simp only [unplaced_cons, ahead, step_ok, Goal.read]
      split at hrest <;> simp_all
  cases hd : state.symbols.lookup? name with
  | none =>
    intro stop done rest after hrest
    have hrefuse := (hread rest hrest stop).trans (withVariable_none hd)
    refine .misnamed ?_ (by simp)
    rw [List.singleton_append, unplaced_cons, List.singleton_append, run_take (read_name name),
      List.singleton_append, run_refuse hrefuse]
    exact ⟨_, name, rfl, .inl rfl⟩
  | some declared =>
    have hmeet : Reads True True state [.afterName name default] []
        (emitted (scope.read name)) state EndsTerm :=
      .meet fun stop rest hrest => by
        rw [hread rest hrest stop, withVariable_some hd, write_push hin hd]
    exact (Reads.take (read_name name) hmeet).congr (by simp) .rfl

theorem read_operator (op : BinaryOperator) (pending : List Vm.Command) :
    (Goal.operators pending).read ⟨.symbol op.symbol, default⟩ state =
      .take [] [.term, .operators (op.command :: pending)] state := by
  cases op <;> rfl

theorem reads_noOperator (pending : List Vm.Command) :
    Reads True True state [.operators pending] [] (write pending) state EndsExpression := by
  refine .meet_next fun lexeme hlexeme => ?_
  cases lexeme with
  | symbol symbol =>
    simp only [endsExpression, ← isSome_binaryCommand?, Bool.and_eq_true, Bool.not_eq_true',
      Option.isSome_eq_false_iff, Option.isNone_iff_eq_none] at hlexeme
    have h : binaryCommand? symbol = none := hlexeme.2
    simp [Goal.read, h]
  | _ => rfl

/-- The first name of a call is taken like any name of a term, and the call goes on behind it. -/
theorem run_callName (stop : Except Diagnostic Token) (done : List Event) (call : Call)
    (text : List Lexeme) (goals : List Goal) :
    run stop done (unplaced (call.lexemes ++ text)) (.term :: goals) state =
      run stop done (unplaced (call.afterName ++ text)) (.callRest call.firstName :: goals)
        state := by
  rw [call.lexemes_eq, List.cons_append, unplaced_cons, run_take (read_name call.firstName)]
  cases call <;> rw [List.singleton_append, run_cons, run_cons] <;> rfl

/-! ## How a term may begin -/

/-- Lexemes that stand where a term could and say there is none. -/
def isNoTerm : Lexeme → Bool
  | .symbol .rightParen | .symbol .semicolon => true
  | _ => false

theorem term_lexemes_cons (t : Term) :
    ∃ lexeme rest, t.lexemes = lexeme :: rest ∧ isNoTerm lexeme = false := by
  cases t with
  | call call => exact ⟨_, _, call.lexemes_eq, rfl⟩
  | unary op operand => exact ⟨_, _, rfl, by cases op <;> rfl⟩
  | _ => exact ⟨_, _, rfl, rfl⟩

theorem expression_lexemes_cons (e : Expression) :
    ∃ lexeme rest, e.lexemes = lexeme :: rest ∧ isNoTerm lexeme = false := by
  cases e with
  | mk first rest =>
    obtain ⟨lexeme, text, htext, hlexeme⟩ := term_lexemes_cons first
    exact ⟨lexeme, text ++ rest.lexemes, by rw [Expression.lexemes, htext]; rfl, hlexeme⟩

/-- A goal that takes an expression unless there is none reads it as the expression's goals do. -/
theorem reads_takeTerm {named fit : Prop} {goal : Goal} {after : List Goal} {e : Expression}
    {text : List Lexeme} {events : List Event} {state' : State} {next : List Lexeme → Prop}
    (hread : ∀ lexeme, isNoTerm lexeme = false → goal.read ⟨lexeme, default⟩ state =
      takeTerm ⟨lexeme, default⟩ state (.operators [] :: after))
    (h : Reads named fit state (expression ++ after) (e.lexemes ++ text) events state' next) :
    Reads named fit state [goal] (e.lexemes ++ text) events state' next := by
  obtain ⟨lexeme, rest, htext, hlexeme⟩ := expression_lexemes_cons e
  rw [htext] at h ⊢
  intro stop done rest' goals hrest
  rw [List.cons_append, List.cons_append, unplaced_cons, List.singleton_append,
    run_takeTerm (hread lexeme hlexeme)]
  exact h stop done rest' goals hrest

/-! ## Expressions -/

theorem moreLexemes_ends (arguments : Arguments) (rest : List Lexeme) :
    EndsExpression (arguments.moreLexemes ++ [Lexeme.symbol .rightParen] ++ rest) := by
  cases arguments <;> rfl

mutual

theorem Expression.reads (hin : state.In scope) (e : Expression) :
    Reads (Resolved state.symbols (usedNames e.terms)) (AllFit (stringConstants e.terms)) state
      expression e.lexemes (emitted (e.code scope)) state EndsExpression := by
  cases e with
  | mk first rest =>
    have h := (Term.reads hin first).append (Operations.reads hin rest [])
      fun _ hrest => hrest.endsTerm.operations rest
    simpa [Expression.terms, Expression.lexemes, Expression.code, expression] using h

theorem Operations.reads (hin : state.In scope) (operations : Operations)
    (pending : List Vm.Command) :
    Reads (Resolved state.symbols (usedNames operations.terms))
      (AllFit (stringConstants operations.terms)) state [.operators pending] operations.lexemes
      (emitted (operations.code scope) ++ write pending) state EndsExpression := by
  cases operations with
  | nil =>
    simpa [Operations.terms, Operations.lexemes, Operations.code] using reads_noOperator pending
  | cons op operand rest =>
    have h := Reads.take (read_operator op pending) <|
      (Term.reads hin operand).append (Operations.reads hin rest (op.command :: pending))
        fun _ hrest => hrest.endsTerm.operations rest
    simpa [Operations.terms, Operations.lexemes, Operations.code] using h

theorem Term.reads (hin : state.In scope) (t : Term) :
    Reads (Resolved state.symbols (usedNames t.terms)) (AllFit (stringConstants t.terms)) state
      [.term] t.lexemes (emitted (t.code scope)) state EndsTerm := by
  cases t with
  | integer digits =>
    have htake : takeTerm ⟨.integer digits, default⟩ state [] =
        .take (write [.push .constant (UInt16.ofNat (decimalValue digits.toList))]) [] state := rfl
    simpa [Term.terms, Term.lexemes, Term.code] using (reads_token htake).ends
  | string contents =>
    simpa [Term.terms, Term.lexemes, Term.code] using (reads_string contents).ends
  | constant value =>
    have htake : takeTerm ⟨.keyword value.keyword, default⟩ state [] =
        .take (write value.code) [] state := by
      simp only [takeTerm, constantCommands_keyword]
    simpa [Term.terms, Term.lexemes, Term.code, emitted] using (reads_token htake).ends
  | var name => simpa [Term.terms, Term.lexemes, Term.code] using reads_var hin name
  | element array index =>
    have hread : (Goal.afterName array default).read ⟨.symbol .leftBracket, default⟩ state =
        withVariable state array default fun declared => .take (write [declared.push])
          (expression ++ [Goal.expect (.symbol .rightBracket), .emit readElement]) state := rfl
    have h := Reads.take (read_name array) <| Reads.lookup hread fun declared hd => by
      have h := Reads.take (hread.trans (withVariable_some hd)) <|
        (Expression.reads hin index).append ((Reads.symbol .rightBracket).seq (.emit readElement))
          fun _ _ => rfl
      rwa [write_push hin hd] at h
    simpa [Term.terms, Term.lexemes, Term.code, readElement] using h.ends
  | call call =>
    intro stop done rest after hrest
    rw [Term.lexemes, List.singleton_append, run_callName]
    simpa [Term.terms, Term.code] using Call.reads hin call stop done rest after trivial
  | group inner =>
    have hread : Goal.term.read ⟨.symbol .leftParen, default⟩ state =
        .take [] (expression ++ [Goal.expect (.symbol .rightParen)]) state := rfl
    have h := Reads.take hread <|
      (Expression.reads hin inner).append (.symbol .rightParen) fun _ _ => rfl
    simpa [Term.terms, Term.lexemes, Term.code] using h.ends
  | unary op operand =>
    have hread : Goal.term.read ⟨.symbol op.symbol, default⟩ state =
        .take [] [.term, .emit [op.command]] state := by cases op <;> rfl
    have h := Reads.take hread <|
      (Term.reads hin operand).append (Reads.emit [op.command]).ends fun _ h => h
    simpa [Term.terms, Term.lexemes, Term.code] using h

theorem Call.reads (hin : state.In scope) (call : Call) :
    Reads (Resolved state.symbols (usedNames call.terms)) (AllFit (stringConstants call.terms))
      state [.callRest call.firstName] call.afterName (emitted (call.code scope)) state
      anything := by
  cases call with
  | own name arguments =>
    have hread : (Goal.callRest name).read ⟨.symbol .leftParen, default⟩ state =
        .take (write [.push .pointer 0]) [.callArguments (state.qualify name) 1] state := rfl
    have h := Reads.take hread (Arguments.reads hin arguments (state.qualify name) 1)
    simpa [Call.terms, Call.afterName, Call.code, Call.firstName, State.qualify, hin.className]
      using h
  | dotted receiver name arguments =>
    have hdot : (Goal.callRest receiver).read ⟨.symbol .dot, default⟩ state =
        .take [] [.methodName receiver] state := rfl
    cases hslot : scope.lookup? receiver with
    | none =>
      have hd : state.symbols.lookup? receiver = none := by rw [hin.lookup?, hslot]; rfl
      have hname : (Goal.methodName receiver).read ⟨.identifier name, default⟩ state =
          .take [] [.expect (.symbol .leftParen), .callArguments (receiver ++ "." ++ name) 0]
            state := by
        simp only [Goal.read, takeName, hd]
      have h := Reads.take hdot <| Reads.take hname <|
        (Reads.symbol .leftParen).seq (Arguments.reads hin arguments (receiver ++ "." ++ name) 0)
      simpa [Call.terms, Call.afterName, Call.code, Call.firstName, hslot]
        using h
    | some slot =>
      have hd : state.symbols.lookup? receiver = some slot.declaration := by
        rw [hin.lookup?, hslot]; rfl
      have hname : (Goal.methodName receiver).read ⟨.identifier name, default⟩ state =
          .take (write [slot.push.wrap]) [.expect (.symbol .leftParen),
            .callArguments (slot.type ++ "." ++ name) 1] state := by
        simp only [Goal.read, takeName, hd, slot.declaration_push, slot.declaration_type]
      have h := Reads.take hdot <| Reads.take hname <|
        (Reads.symbol .leftParen).seq (Arguments.reads hin arguments (slot.type ++ "." ++ name) 1)
      simpa [Call.terms, Call.afterName, Call.code, Call.firstName, hslot]
        using h

theorem Arguments.reads (hin : state.In scope) (arguments : Arguments) (callee : String)
    (count : Nat) :
    Reads (Resolved state.symbols (usedNames arguments.terms))
      (AllFit (stringConstants arguments.terms)) state
      [.callArguments callee (.ofNat count)]
      (arguments.lexemes ++ [Lexeme.symbol .rightParen])
      (emitted (arguments.code scope ++ [.call callee (arguments.length + count)])) state
      anything := by
  cases arguments with
  | nil =>
    have hread : (Goal.callArguments callee (.ofNat count)).read ⟨.symbol .rightParen, default⟩
        state = .take (write [.call callee (UInt16.ofNat count)]) [] state := rfl
    simpa [Arguments.terms, Arguments.lexemes, Arguments.code, Arguments.length]
      using Reads.take hread .nil
  | cons first rest =>
    have h := (Expression.reads hin first).append (Arguments.reads_more hin rest callee (count + 1))
      fun _ _ => moreLexemes_ends rest _
    have hread (lexeme : Lexeme) (hlexeme : isNoTerm lexeme = false) :
        (Goal.callArguments callee (.ofNat count)).read ⟨lexeme, default⟩ state =
          takeTerm ⟨lexeme, default⟩ state
            [.operators [], .moreArguments callee (.ofNat (count + 1))] := by
      simp only [Goal.read, UInt16.ofNat_add]
      split
      · simp_all [isNoTerm]
      · rfl
    have h := reads_takeTerm hread h
    simpa [Arguments.terms, Arguments.lexemes, Arguments.code, Arguments.length, add_assoc,
      add_comm] using h

theorem Arguments.reads_more (hin : state.In scope) (arguments : Arguments) (callee : String)
    (count : Nat) :
    Reads (Resolved state.symbols (usedNames arguments.terms))
      (AllFit (stringConstants arguments.terms)) state
      [.moreArguments callee (.ofNat count)]
      (arguments.moreLexemes ++ [Lexeme.symbol .rightParen])
      (emitted (arguments.code scope ++ [.call callee (arguments.length + count)])) state
      anything := by
  cases arguments with
  | nil =>
    have hread : (Goal.moreArguments callee (.ofNat count)).read ⟨.symbol .rightParen, default⟩
        state = .take (write [.call callee (UInt16.ofNat count)]) [] state := rfl
    simpa [Arguments.terms, Arguments.moreLexemes, Arguments.code, Arguments.length]
      using Reads.take hread .nil
  | cons first rest =>
    have hread : (Goal.moreArguments callee (.ofNat count)).read ⟨.symbol .comma, default⟩ state =
        .take [] (expression ++ [Goal.moreArguments callee (.ofNat (count + 1))]) state := by
      simp only [Goal.read, UInt16.ofNat_add]
      rfl
    have h := Reads.take hread <|
      (Expression.reads hin first).append (Arguments.reads_more hin rest callee (count + 1))
        fun _ _ => moreLexemes_ends rest _
    simpa [Arguments.terms, Arguments.moreLexemes, Arguments.code, Arguments.length, add_assoc,
      add_comm] using h

end

end JackCompiler.Compile
