import JackCompiler.Compile.Step
/-!
# Meeting every goal

Compiling a token sequence: each token in turn is shown to the goals, which are met one after
another until one takes it. Both loops are recursions on lists, of goals and of tokens, so a run
ends whatever it is given. `done` holds the events so far, the last one first. `run_nil` and
`run_cons` say what a run does, one goal at a time.
-/

namespace JackCompiler.Compile

/-- How the goals stand towards the token ahead. -/
inductive Settled
  /-- A goal took the token; these goals are left. -/
  | taken (goals : List Goal) (state : State)
  /-- No goal is left. -/
  | finished (state : State)
  /-- The next goal refuses the token. -/
  | refused (diagnostic : Diagnostic)

/-- Meets goals until one takes or refuses the token ahead. -/
def settle (ahead : Except Diagnostic Token) (done : List Event) :
    List Goal → State → List Event × Settled
  | [], state => (done, .finished state)
  | goal :: goals, state =>
    match goal.step ahead state with
    | .meet events state => settle ahead (events.reverse ++ done) goals state
    | .take events more state => (events.reverse ++ done, .taken (more ++ goals) state)
    | .refuse diagnostic => (done, .refused diagnostic)

/-- The diagnostic of a goal that needs one token more. -/
def exhausted : Except Diagnostic Token → Diagnostic
  | .ok token => ⟨.lexical .noMoreTokens, token.span⟩
  | .error diagnostic => diagnostic

/-- What is ahead with a list of tokens to come, after which `stop` is. -/
def ahead (stop : Except Diagnostic Token) : List Token → Except Diagnostic Token
  | [] => stop
  | token :: _ => .ok token

/-- Meets the goals with a list of tokens, after which `stop` is ahead. -/
def run (stop : Except Diagnostic Token) (done : List Event) (tokens : List Token)
    (goals : List Goal) (state : State) : List Event × Except Diagnostic State :=
  match settle (ahead stop tokens) done goals state, tokens with
  | (done, .taken goals state), _ :: tokens => run stop done tokens goals state
  | (done, .taken _ _), [] => (done, .error (exhausted stop))
  | (done, .finished state), _ => (done, .ok state)
  | (done, .refused diagnostic), _ => (done, .error diagnostic)
termination_by structural tokens

/-! ## One goal at a time -/

theorem run_nil (stop : Except Diagnostic Token) (done : List Event) (tokens : List Token)
    (state : State) : run stop done tokens [] state = (done, .ok state) := by
  rw [run.eq_def, settle]

/-- The next goal decides how the run goes on. -/
theorem run_cons (stop : Except Diagnostic Token) (done : List Event) (tokens : List Token)
    (goal : Goal) (goals : List Goal) (state : State) :
    run stop done tokens (goal :: goals) state =
      match goal.step (ahead stop tokens) state, tokens with
      | .meet events state, tokens => run stop (events.reverse ++ done) tokens goals state
      | .take events more state, _ :: tokens =>
        run stop (events.reverse ++ done) tokens (more ++ goals) state
      | .take events _ _, [] => (events.reverse ++ done, .error (exhausted stop))
      | .refuse diagnostic, _ => (done, .error diagnostic) := by
  rw [run.eq_def, settle]
  cases goal.step (ahead stop tokens) state with
  | meet events state => exact (run.eq_def ..).symm
  | take events more state => cases tokens <;> rfl
  | refuse diagnostic => rfl

end JackCompiler.Compile
