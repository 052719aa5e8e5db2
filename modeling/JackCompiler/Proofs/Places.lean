import JackCompiler.Proofs.Run
/-!
# Places only say where to point

Moving every token of a run to another place moves the place of its diagnostic alike and changes
nothing else (`run_mapSpan`). What a source compiles to is thus a matter of its lexemes: a run over
its tokens goes as the run over its lexemes, all at one place (`run_unplaced`).
-/

namespace JackCompiler

def Token.mapSpan (f : Span → Span) (token : Token) : Token := ⟨token.lexeme, f token.span⟩

def Diagnostic.mapSpan (f : Span → Span) (diagnostic : Diagnostic) : Diagnostic :=
  ⟨diagnostic.fault, f diagnostic.span⟩

@[simp]
theorem Token.mapSpan_lexeme (f : Span → Span) (token : Token) :
    (token.mapSpan f).lexeme = token.lexeme := rfl

@[simp]
theorem Token.mapSpan_span (f : Span → Span) (token : Token) :
    (token.mapSpan f).span = f token.span := rfl

@[simp]
theorem Token.mapSpan_kind (f : Span → Span) (token : Token) :
    (token.mapSpan f).kind = token.kind := rfl

@[simp]
theorem Token.mapSpan_unexpected (f : Span → Span) (token : Token) (expected : String) :
    (token.mapSpan f).unexpected expected = (token.unexpected expected).mapSpan f := rfl

namespace Compile

def Goal.mapSpan (f : Span → Span) : Goal → Goal
  | .afterName name span => .afterName name (f span)
  | goal => goal

def Move.mapSpan (f : Span → Span) : Move → Move
  | .meet events state => .meet events state
  | .take events goals state => .take events (goals.map (·.mapSpan f)) state
  | .refuse diagnostic => .refuse (diagnostic.mapSpan f)

/-- What is ahead, at another place. -/
def moveAhead (f : Span → Span) (ahead : Except Diagnostic Token) : Except Diagnostic Token :=
  (ahead.map (·.mapSpan f)).mapError (·.mapSpan f)

/-- What a run ends with, its diagnostic at another place. -/
def Result.mapSpan (f : Span → Span) (result : Result) : Result :=
  (result.1, result.2.mapError (·.mapSpan f))

variable (f : Span → Span) (token : Token) (state : State)

theorem mapSpan_takeName (what : String) (next : String → Move) :
    (takeName token what next).mapSpan f =
      takeName (token.mapSpan f) what fun name => (next name).mapSpan f := by
  simp only [takeName, Token.mapSpan_lexeme]
  split <;> rfl

theorem mapSpan_withVariable (name : String) (span : Span) (next : Declaration → Move) :
    (withVariable state name span next).mapSpan f =
      withVariable state name (f span) fun declared => (next declared).mapSpan f := by
  simp only [withVariable]
  split <;> rfl

theorem mapSpan_declare (name type : String) (storage : Storage) (span : Span)
    (next : State → Move) :
    (declare state name type storage span next).mapSpan f =
      declare state name type storage (f span) fun state => (next state).mapSpan f := by
  simp only [declare]
  split <;> rfl

theorem mapSpan_takeType (storage : Storage) :
    (takeType token storage state).mapSpan f = takeType (token.mapSpan f) storage state := by
  simp only [takeType, Token.mapSpan_lexeme]
  split <;> rfl

theorem mapSpan_takeTerm (after : List Goal) :
    (takeTerm token state after).mapSpan f =
      takeTerm (token.mapSpan f) state (after.map (·.mapSpan f)) := by
  simp only [takeTerm, Token.mapSpan_lexeme]
  repeat' split
  all_goals simp [Move.mapSpan, Goal.mapSpan, expression]

theorem mapSpan_takeCall (name : String) :
    (takeCall token name state).mapSpan f = takeCall (token.mapSpan f) name state := by
  simp only [takeCall, Token.mapSpan_lexeme]
  split <;> rfl

/-- What becomes of a goal does not depend on where the token stands. -/
theorem read_mapSpan (goal : Goal) :
    (goal.mapSpan f).read (token.mapSpan f) state = (goal.read token state).mapSpan f := by
  cases goal <;> simp only [Goal.mapSpan, Goal.read, Token.mapSpan_lexeme, Token.mapSpan_kind]
  case expect kind =>
    by_cases h : token.kind = kind
    · simp only [h, if_true]; rfl
    · simp only [h, if_false]; rfl
  case emit => rfl
  case subroutineDone => rfl
  case className => rw [mapSpan_takeName]; rfl
  case variableType => rw [mapSpan_takeType]
  case variableName storage type =>
    rw [mapSpan_takeName]
    congr 1
    funext name
    rw [mapSpan_declare]
    congr 1
    funext state
    split <;> rfl
  case subroutineName kind returnType =>
    rw [mapSpan_takeName]
    congr 1
    funext name
    cases kind
    · rfl
    · rfl
    · dsimp only
      rw [mapSpan_declare]
      rfl
  case parameters =>
    split
    · rfl
    · rw [mapSpan_takeType]
  case target =>
    rw [mapSpan_takeName]
    congr 1
    funext name
    rw [mapSpan_withVariable]
    rfl
  case doCall => rw [mapSpan_takeName]; rfl
  case returnValue =>
    split
    · rfl
    · rw [mapSpan_takeTerm]; rfl
  case term => rw [mapSpan_takeTerm]; rfl
  case operators pending =>
    split
    · split <;> rfl
    · rfl
  case afterName name span =>
    split
    · rw [mapSpan_withVariable]; rfl
    · rw [mapSpan_takeCall]
    · rw [mapSpan_takeCall]
    · rw [mapSpan_withVariable]; rfl
  case callRest => rw [mapSpan_takeCall]
  case methodName receiver =>
    rw [mapSpan_takeName]
    congr 1
    funext name
    split <;> rfl
  case callArguments callee count =>
    split
    · rfl
    · rw [mapSpan_takeTerm]; rfl
  all_goals split <;> rfl

theorem step_mapSpan (goal : Goal) (ahead : Except Diagnostic Token) :
    (goal.mapSpan f).step (moveAhead f ahead) state = (goal.step ahead state).mapSpan f := by
  cases ahead with
  | ok token => exact read_mapSpan f token state goal
  | error diagnostic => cases goal <;> rfl

theorem ahead_mapSpan (stop : Except Diagnostic Token) (tokens : List Token) :
    ahead (moveAhead f stop) (tokens.map (·.mapSpan f)) = moveAhead f (ahead stop tokens) := by
  cases tokens <;> rfl

theorem exhausted_mapSpan (stop : Except Diagnostic Token) :
    exhausted (moveAhead f stop) = (exhausted stop).mapSpan f := by
  cases stop <;> rfl

/-- A run over tokens at other places goes the same way. -/
theorem run_mapSpan (stop : Except Diagnostic Token) (done : List Event) (tokens : List Token)
    (goals : List Goal) (state : State) :
    run (moveAhead f stop) done (tokens.map (·.mapSpan f)) (goals.map (·.mapSpan f)) state =
      Result.mapSpan f (run stop done tokens goals state) := by
  refine run_induction stop
    (motive := fun done tokens goals state result =>
      run (moveAhead f stop) done (tokens.map (·.mapSpan f)) (goals.map (·.mapSpan f)) state =
        Result.mapSpan f result) ?finish ?meet ?take ?exhaust ?refuse done tokens goals state
  case finish => exact fun done tokens state => by rw [List.map_nil, run_nil]; rfl
  case meet =>
    intro done tokens goal goals state events after result hstep ih
    have h := step_mapSpan f state goal (ahead stop tokens)
    rw [hstep, ← ahead_mapSpan] at h
    rw [List.map_cons, run_meet h, ih]
  case take =>
    intro done token tokens goal goals state events more after result hread ih
    have h := read_mapSpan f token state goal
    rw [hread] at h
    rw [List.map_cons, List.map_cons, run_take h, ← ih, List.map_append]
  case exhaust =>
    intro done goal goals state events more after hstep
    have h := step_mapSpan f state goal stop
    rw [hstep] at h
    rw [List.map_cons, run_cons, List.map_nil, ahead, h, Move.mapSpan, exhausted_mapSpan]
    rfl
  case refuse =>
    intro done tokens goal goals state diagnostic hstep
    have h := step_mapSpan f state goal (ahead stop tokens)
    rw [hstep, ← ahead_mapSpan] at h
    rw [List.map_cons, run_refuse h]
    rfl

/-! ## Lexemes without places -/

/-- Lexemes as tokens that all stand at one place. -/
def unplaced (lexemes : List Lexeme) : List Token := lexemes.map fun lexeme => ⟨lexeme, default⟩

@[simp]
theorem unplaced_nil : unplaced [] = [] := rfl

@[simp]
theorem unplaced_cons (lexeme : Lexeme) (lexemes : List Lexeme) :
    unplaced (lexeme :: lexemes) = ⟨lexeme, default⟩ :: unplaced lexemes := rfl

@[simp]
theorem unplaced_lexemes (lexemes : List Lexeme) :
    (unplaced lexemes).map (·.lexeme) = lexemes := by
  induction lexemes with
  | nil => rfl
  | cons lexeme lexemes ih => rw [unplaced_cons, List.map_cons, ih]

/-- The run over the lexemes of tokens, with the same outcome but for the place of a diagnostic. -/
theorem run_unplaced (stop : Except Diagnostic Token) (done : List Event) (tokens : List Token)
    (state : State) :
    run (moveAhead (fun _ => default) stop) done (unplaced (tokens.map (·.lexeme))) program state =
      Result.mapSpan (fun _ => default) (run stop done tokens program state) := by
  have h := run_mapSpan (fun _ => default) stop done tokens program state
  rwa [show tokens.map (·.mapSpan fun _ => default) = unplaced (tokens.map (·.lexeme)) by
    simp [unplaced, Token.mapSpan]] at h

end Compile

end JackCompiler
