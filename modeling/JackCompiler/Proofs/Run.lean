import Mathlib
import JackCompiler.Compile
/-!
# Runs, goal by goal

What one goal does to a run, for each way it can stand to the token ahead, and the induction over a
run that the proofs about all runs use. `Comes` is about the inside of a run: one that comes to its
end has come to where any of its last goals are the only ones left (`comes_of_run`).
-/

namespace JackCompiler.Compile

variable {stop : Except Diagnostic Token} {done : List Event} {goal : Goal} {goals : List Goal}
  {state : State}

/-- The goals of a source but for its end. -/
def classGoals : List Goal :=
  [.expect (.keyword .class), .className, .expect (.symbol .leftBrace), .classVariables,
    .subroutines]

/-- What a run ends with. -/
abbrev Result := List Event × Except Diagnostic State

theorem run_meet {tokens : List Token} {events : List Event} {state' : State}
    (h : goal.step (ahead stop tokens) state = .meet events state') :
    run stop done tokens (goal :: goals) state =
      run stop (events.reverse ++ done) tokens goals state' := by
  rw [run_cons, h]

theorem run_take {token : Token} {tokens : List Token} {events : List Event} {more : List Goal}
    {state' : State} (h : goal.read token state = .take events more state') :
    run stop done (token :: tokens) (goal :: goals) state =
      run stop (events.reverse ++ done) tokens (more ++ goals) state' := by
  have h' : goal.step (ahead stop (token :: tokens)) state = .take events more state' := h
  rw [run_cons, h']

theorem run_refuse {tokens : List Token} {diagnostic : Diagnostic}
    (h : goal.step (ahead stop tokens) state = .refuse diagnostic) :
    run stop done tokens (goal :: goals) state = (done, .error diagnostic) := by
  rw [run_cons, h]

theorem run_refuse_token {token : Token} {tokens : List Token} {diagnostic : Diagnostic}
    (h : goal.read token state = .refuse diagnostic) :
    run stop done (token :: tokens) (goal :: goals) state = (done, .error diagnostic) :=
  run_refuse h

theorem step_ok (goal : Goal) (token : Token) (state : State) :
    goal.step (.ok token) state = goal.read token state := rfl

/-- Only behind the last token may none be ahead. -/
theorem ahead_error {tokens : List Token} {diagnostic : Diagnostic}
    (h : ahead stop tokens = .error diagnostic) : tokens = [] ∧ stop = .error diagnostic := by
  cases tokens with
  | nil => exact ⟨rfl, h⟩
  | cons token tokens => cases h

/-! ## What the parts of a step come to

What holds of each move a part can come to holds of the part. -/

section

variable {token : Token} {P : Move → Prop}

theorem takeName_elim {what : String} {next : String → Move}
    (hrefuse : P (.refuse (token.unexpected what)))
    (h : ∀ name, token.lexeme = .identifier name → P (next name)) :
    P (takeName token what next) := by
  unfold takeName
  split
  · exact h _ ‹_›
  · exact hrefuse

theorem withVariable_elim {name : String} {span : Span} {next : Declaration → Move}
    (hrefuse : P (.refuse ⟨.undefinedSymbol name, span⟩))
    (h : ∀ declared, P (next declared)) : P (withVariable state name span next) := by
  unfold withVariable SymbolTable.resolve
  cases state.symbols.lookup? name with
  | some declared => exact h declared
  | none => exact hrefuse

/-- A variable that is the first one of its scope can have any name. -/
theorem declare_elim {name type : String} {storage : Storage} {span : Span} {next : State → Move}
    (hrefuse : state.symbols.scope storage ≠ [] → P (.refuse ⟨.duplicateDefinition name, span⟩))
    (h : ∀ index symbols, state.symbols.define name type storage = .ok (index, symbols) →
      P (next { state with symbols })) : P (declare state name type storage span next) := by
  unfold declare
  split
  · exact h _ _ ‹_›
  · rename_i fault hfault
    unfold SymbolTable.define at hfault
    split at hfault
    · rename_i hdeclared
      cases hfault
      refine hrefuse fun hempty => ?_
      rw [hempty] at hdeclared
      cases hdeclared
    · dsimp only at hfault
      split at hfault <;> cases hfault

theorem takeType_elim {storage : Storage}
    (hrefuse : P (.refuse (token.unexpected "a type")))
    (h : ∀ type, typeName? token.lexeme = some type →
      P (.take [] [.variableName storage type] state)) : P (takeType token storage state) := by
  unfold takeType
  split
  · exact h _ ‹_›
  · exact hrefuse

theorem takeTerm_elim {after : List Goal}
    (hrefuse : ∀ expected, P (.refuse (token.unexpected expected)))
    (integer : ∀ digits, token.lexeme = .integer digits →
      P (.take (write [.push .constant (UInt16.ofNat (decimalValue digits.toList))]) after state))
    (string : ∀ contents commands, token.lexeme = .string contents →
      stringCommands? contents = some commands → P (.take (write commands) after state))
    (constant : ∀ word commands, token.lexeme = .keyword word →
      constantCommands? word = some commands → P (.take (write commands) after state))
    (group : token.lexeme = .symbol .leftParen →
      P (.take [] (expression ++ .expect (.symbol .rightParen) :: after) state))
    (unary : ∀ symbol command, token.lexeme = .symbol symbol →
      unaryCommand? symbol = some command → P (.take [] (.term :: .emit [command] :: after) state))
    (name : ∀ name, token.lexeme = .identifier name →
      P (.take [] (.afterName name token.span :: after) state)) :
    P (takeTerm token state after) := by
  unfold takeTerm
  split
  case h_1 digits hlexeme => exact integer digits hlexeme
  case h_2 contents hlexeme =>
    split
    · exact string contents _ hlexeme ‹_›
    · exact hrefuse _
  case h_3 word hlexeme =>
    split
    · exact constant word _ hlexeme ‹_›
    · exact hrefuse _
  case h_4 hlexeme => exact group hlexeme
  case h_5 symbol _ hlexeme =>
    split
    · exact unary symbol _ hlexeme ‹_›
    · exact hrefuse _
  case h_6 identifier hlexeme => exact name identifier hlexeme
  case h_7 => exact hrefuse _

theorem takeCall_elim {name : String}
    (hrefuse : P (.refuse (token.unexpected "'.' or '('")))
    (dotted : token.lexeme = .symbol .dot → P (.take [] [.methodName name] state))
    (own : token.lexeme = .symbol .leftParen →
      P (.take (write [.push .pointer 0]) [.callArguments (state.qualify name) 1] state)) :
    P (takeCall token name state) := by
  unfold takeCall
  split
  · exact dotted ‹_›
  · exact own ‹_›
  · exact hrefuse

end

/-! ## Induction -/

/-- A run is followed goal by goal: each either is met, or takes a token and leaves goals, or ends
the run. -/
theorem run_induction (stop : Except Diagnostic Token)
    {motive : List Event → List Token → List Goal → State → Result → Prop}
    (finish : ∀ done tokens state, motive done tokens [] state (done, .ok state))
    (meet : ∀ done tokens goal goals state events state' result,
      goal.step (ahead stop tokens) state = .meet events state' →
      motive (events.reverse ++ done) tokens goals state' result →
      motive done tokens (goal :: goals) state result)
    (take : ∀ done token tokens goal goals state events more state' result,
      goal.read token state = .take events more state' →
      motive (events.reverse ++ done) tokens (more ++ goals) state' result →
      motive done (token :: tokens) (goal :: goals) state result)
    (exhaust : ∀ done goal goals state events more state',
      goal.step stop state = .take events more state' →
      motive done [] (goal :: goals) state (events.reverse ++ done, .error (exhausted stop)))
    (refuse : ∀ done tokens goal goals state diagnostic,
      goal.step (ahead stop tokens) state = .refuse diagnostic →
      motive done tokens (goal :: goals) state (done, .error diagnostic))
    (done : List Event) (tokens : List Token) (goals : List Goal) (state : State) :
    motive done tokens goals state (run stop done tokens goals state) := by
  -- on the tokens, and for each of them on the goals: taking a token may leave any number of goals
  induction tokens generalizing done goals state with
  | nil =>
    induction goals generalizing done state with
    | nil => rw [run_nil]; exact finish ..
    | cons goal goals ih =>
      cases h : goal.step (ahead stop []) state with
      | meet events state' => rw [run_meet h]; exact meet _ _ _ _ _ _ _ _ h (ih ..)
      | take events more state' => rw [run_cons, h]; exact exhaust _ _ _ _ _ _ _ h
      | refuse diagnostic => rw [run_refuse h]; exact refuse _ _ _ _ _ _ h
  | cons token tokens ihTokens =>
    induction goals generalizing done state with
    | nil => rw [run_nil]; exact finish ..
    | cons goal goals ih =>
      cases h : goal.step (ahead stop (token :: tokens)) state with
      | meet events state' => rw [run_meet h]; exact meet _ _ _ _ _ _ _ _ h (ih ..)
      | take events more state' =>
        rw [run_take h]; exact take _ _ _ _ _ _ _ _ _ _ h (ihTokens ..)
      | refuse diagnostic => rw [run_refuse h]; exact refuse _ _ _ _ _ _ h

/-! ## Stages of a run -/

/-- What a run has before it. -/
structure Stage where
  tokens : List Token
  goals : List Goal
  state : State

/-- A run comes from one stage to another. -/
inductive Comes (stop : Except Diagnostic Token) : Stage → Stage → Prop
  | refl (p : Stage) : Comes stop p p
  | meet {tokens : List Token} {goal : Goal} {goals : List Goal} {state after : State}
    {events : List Event} {q : Stage}
    (h : goal.step (ahead stop tokens) state = .meet events after)
    (rest : Comes stop ⟨tokens, goals, after⟩ q) : Comes stop ⟨tokens, goal :: goals, state⟩ q
  | take {token : Token} {tokens : List Token} {goal : Goal} {goals more : List Goal}
    {state after : State} {events : List Event} {q : Stage}
    (h : goal.read token state = .take events more after)
    (rest : Comes stop ⟨tokens, more ++ goals, after⟩ q) :
    Comes stop ⟨token :: tokens, goal :: goals, state⟩ q

/-- A run ends as it does from any stage it comes to. -/
theorem run_of_comes {p q : Stage} (h : Comes stop p q) (done : List Event) :
    ∃ done', run stop done p.tokens p.goals p.state = run stop done' q.tokens q.goals q.state := by
  induction h generalizing done with
  | refl => exact ⟨done, rfl⟩
  | meet h _ ih => rw [run_meet h]; exact ih _
  | take h _ ih => rw [run_take h]; exact ih _

/-- A run that comes to its end meets its first goals before it comes to the others. -/
theorem comes_of_run {tokens : List Token} {first rest : List Goal} {ended : State}
    (h : (run stop done tokens (first ++ rest) state).2 = .ok ended) :
    ∃ tokens' state', Comes stop ⟨tokens, first ++ rest, state⟩ ⟨tokens', rest, state'⟩ := by
  refine run_induction stop
    (motive := fun _ tokens all state result => ∀ first, all = first ++ rest →
      result.2 = .ok ended →
      ∃ tokens' state', Comes stop ⟨tokens, all, state⟩ ⟨tokens', rest, state'⟩)
    ?finish ?meet ?take ?exhaust ?refuse done tokens (first ++ rest) state first rfl h
  case finish =>
    intro done tokens state first hfirst _
    obtain ⟨-, rfl⟩ := List.append_eq_nil_iff.mp hfirst.symm
    exact ⟨tokens, state, .refl _⟩
  case meet =>
    intro done tokens goal goals state events after result hstep ih first hfirst hok
    cases first with
    | nil => exact ⟨tokens, state, hfirst ▸ .refl _⟩
    | cons g first =>
      obtain ⟨rfl, rfl⟩ := List.cons.inj hfirst
      obtain ⟨tokens', state', hcomes⟩ := ih first rfl hok
      exact ⟨tokens', state', .meet hstep hcomes⟩
  case take =>
    intro done token tokens goal goals state events more after result hread ih first hfirst hok
    cases first with
    | nil => exact ⟨token :: tokens, state, hfirst ▸ .refl _⟩
    | cons g first =>
      obtain ⟨rfl, rfl⟩ := List.cons.inj hfirst
      obtain ⟨tokens', state', hcomes⟩ := ih (more ++ first) (List.append_assoc ..).symm hok
      exact ⟨tokens', state', .take hread hcomes⟩
  case exhaust => intros; contradiction
  case refuse => intros; contradiction

theorem comes_to_end {tokens : List Token} {goals : List Goal} {ended : State}
    (h : (run stop done tokens goals state).2 = .ok ended) :
    ∃ tokens', Comes stop ⟨tokens, goals, state⟩ ⟨tokens', [], ended⟩ := by
  rw [← List.append_nil goals] at h ⊢
  obtain ⟨tokens', state', hcomes⟩ := comes_of_run h
  obtain ⟨done', hrun⟩ := run_of_comes hcomes done
  rw [hrun, run_nil] at h
  cases h
  exact ⟨tokens', hcomes⟩

/-- A run that fails comes to a goal that refuses what is ahead, or that takes a token where none is
left. -/
theorem comes_of_error {tokens : List Token} {diagnostic : Diagnostic}
    (h : (run stop done tokens goals state).2 = .error diagnostic) :
    ∃ tokens' goal goals' state',
      Comes stop ⟨tokens, goals, state⟩ ⟨tokens', goal :: goals', state'⟩ ∧
      (goal.step (ahead stop tokens') state' = .refuse diagnostic ∨
        diagnostic = exhausted stop) := by
  refine run_induction stop
    (motive := fun _ tokens goals state result => result.2 = .error diagnostic →
      ∃ tokens' goal goals' state',
        Comes stop ⟨tokens, goals, state⟩ ⟨tokens', goal :: goals', state'⟩ ∧
        (goal.step (ahead stop tokens') state' = .refuse diagnostic ∨ diagnostic = exhausted stop))
    ?finish ?meet ?take ?exhaust ?refuse done tokens goals state h
  case finish => intros; contradiction
  case meet =>
    intro done tokens goal goals state events after result hstep ih herror
    obtain ⟨tokens', goal', goals', state', hcomes, hend⟩ := ih herror
    exact ⟨tokens', goal', goals', state', .meet hstep hcomes, hend⟩
  case take =>
    intro done token tokens goal goals state events more after result hread ih herror
    obtain ⟨tokens', goal', goals', state', hcomes, hend⟩ := ih herror
    exact ⟨tokens', goal', goals', state', .take hread hcomes, hend⟩
  case exhaust =>
    intro done goal goals state events more after hstep herror
    cases herror
    exact ⟨[], goal, goals, state, .refl _, .inr rfl⟩
  case refuse =>
    intro done tokens goal goals state refused hstep herror
    cases herror
    exact ⟨tokens, goal, goals, state, .refl _, .inl hstep⟩

end JackCompiler.Compile
