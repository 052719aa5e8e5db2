import JackCompiler.Proofs.Completion
import JackCompiler.Proofs.Positions
/-!
# The first token that does not fit

A source that is refused for a token that is not expected is refused at the first token with which
it stops being the beginning of a class (`compile_unexpected`). What the run has taken before it can
be completed (`Passage.begins_class`). A class that went on with the token would be refused too, as
the run over it passes the same stages (`Passage.not_fit`).
-/

namespace JackCompiler

open Syntax

namespace Compile

section

variable {stop : Except Diagnostic Token} {done : List Event} {before tokens rest : List Token}
  {goal : Goal} {goals : List Goal} {state after : State} {diagnostic : Diagnostic} {token : Token}
  {expected found : String}

/-- A goal that does not expect a token says so of the token it has ahead. -/
theorem read_unexpected (h : goal.read token state = .refuse diagnostic)
    (hfault : diagnostic.fault = .unexpected expected found) :
    diagnostic = token.unexpected expected := by
  have harises : (goal.read token state).Arises goal token := read_arises goal token state
  rw [h] at harises
  cases harises with
  | unexpected => cases hfault; rfl
  | undefinedSymbol => cases hfault
  | duplicateDefinition => cases hfault

theorem plain_program : ∀ goal ∈ program, goal.Plain := by
  simp [program, Goal.Plain]

/-- A run over a source that fails for a token that is not expected passes to a goal that has the
token ahead and refuses it. -/
theorem passage_of_unexpected
    (hstop : ∀ reason, stop = .error reason → ∃ fault, reason.fault = .lexical fault)
    (h : (run stop done tokens program state).2 = .error diagnostic)
    (hfault : diagnostic.fault = .unexpected expected found) :
    ∃ before rest goal goals after token,
      Passage stop before ⟨tokens, program, state⟩ ⟨rest, goal :: goals, after⟩ ∧
      ahead stop rest = .ok token ∧ goal.read token after = .refuse diagnostic := by
  obtain ⟨rest, goal, goals, after, hcomes, hend⟩ := comes_of_error h
  obtain ⟨before, hpassage⟩ := passage_of_comes hcomes plain_program
  have hlexical {reason : Diagnostic} (hreason : stop = .error reason) : diagnostic ≠ reason := by
    rintro rfl
    obtain ⟨fault, hlexical⟩ := hstop _ hreason
    rw [hfault] at hlexical
    cases hlexical
  rcases hend with hstep | hexhausted
  · cases hahead : ahead stop rest with
    | ok token =>
      rw [hahead, step_ok] at hstep
      exact ⟨before, rest, goal, goals, after, token, hpassage, hahead, hstep⟩
    | error reason =>
      rw [hahead] at hstep
      exact absurd (step_error_refuse hstep) (hlexical (ahead_error hahead).2)
  · cases stop with
    | ok eof =>
      rw [hexhausted] at hfault
      cases hfault
    | error reason => exact absurd hexhausted (hlexical rfl)

namespace Passage

/-- What a run over a source has taken is the beginning of a class. -/
theorem begins_class {q : Stage} (h : Passage stop before ⟨tokens, program, state⟩ q)
    (hbefore : ∀ token ∈ before, token.lexeme.WellFormed) :
    ∃ c : Syntax.Class, c.Fit ∧ (∀ lexeme ∈ c.lexemes, lexeme.WellFormed) ∧
      before.map (·.lexeme) <+: c.lexemes := by
  obtain ⟨text, htext, husable⟩ := exists_completion h.plain
  have hprogram : Yield (classGoals ++ [Goal.endOfFile]) (before.map (·.lexeme) ++ text) :=
    h.yields text htext
  obtain ⟨first, last, hsplit, hfirst, hlast⟩ := yield_append.mp hprogram
  obtain ⟨_, _, rfl, rfl, rfl⟩ := hlast
  obtain ⟨c, hc⟩ := yield_classGoals hfirst
  have hlexemes : c.lexemes = before.map (·.lexeme) ++ text := by
    rw [hc, hsplit, List.append_nil, List.append_nil]
  refine ⟨c, Class.fit_of_lexemes fun contents hcontents => ?_, fun lexeme hlexeme => ?_, text,
    hlexemes.symm⟩
  · rw [hlexemes, List.mem_append, List.mem_map] at hcontents
    rcases hcontents with ⟨token, htoken, hstring⟩ | hcontents
    · exact h.fits token htoken contents hstring
    · exact (husable _ hcontents).fits contents rfl
  · rw [hlexemes, List.mem_append, List.mem_map] at hlexeme
    rcases hlexeme with ⟨token, htoken, rfl⟩ | hlexeme
    · exact hbefore token htoken
    · exact (husable lexeme hlexeme).wellFormed

/-- Where a token is not expected, no class that can be built goes on with it, or comes to its end if
the token is the end of the file. -/
theorem not_fit (h : Passage stop before ⟨tokens, program, {}⟩ ⟨rest, goal :: goals, after⟩)
    (hahead : ahead stop rest = .ok token) (hread : goal.read token after = .refuse diagnostic)
    (hfault : diagnostic.fault = .unexpected expected found) {c : Syntax.Class} (more : List Token)
    (span : Span) (hc : c.lexemes = (before ++ more).map (·.lexeme))
    (hmore : ahead (.ok ⟨.endOfFile, span⟩) more = .ok token) : ¬ c.Fit := by
  intro hfit
  have hcomes := h.again (.ok ⟨.endOfFile, span⟩) more (hmore.trans hahead.symm)
  obtain ⟨done, hrun⟩ := run_of_comes hcomes []
  have hstep : goal.step (ahead (.ok ⟨.endOfFile, span⟩) more) after = .refuse diagnostic := by
    rw [hmore, step_ok, hread]
  rw [run_refuse hstep] at hrun
  have hplaces : run (.ok ⟨.endOfFile, default⟩) []
      (unplaced ((before ++ more).map (·.lexeme))) program {} = _ :=
    run_unplaced (.ok ⟨.endOfFile, span⟩) [] (before ++ more) {}
  -- but a class that can be built fails for its names alone
  obtain ⟨state, -, hgoes⟩ := run_class c default
  rw [hc, hplaces, hrun] at hgoes
  cases hgoes with
  | same hsame => cases hsame
  | misnamed hscope =>
    obtain ⟨_, name, herror, hname⟩ := hscope
    cases herror
    rcases hname with hname | hname <;> exact absurd (hfault.symm.trans hname) (by simp)
  | unfit _ hnot => exact hnot hfit

end Passage

/-- The token ahead is the one behind those that have been taken. -/
theorem met_of_ahead {scan : Lexer.Scan} (htokens : scan.tokens = before ++ rest)
    (hahead : ahead scan.stop rest = .ok token) :
    ∃ after, scan.met = before ++ token :: after := by
  unfold Lexer.Scan.met
  rw [htokens]
  cases rest with
  | nil =>
    refine ⟨[], ?_⟩
    rw [show scan.stop = .ok token from hahead, List.append_nil]
    rfl
  | cons t rest =>
    cases hahead
    exact ⟨rest ++ scan.stop.toOption.toList, by simp⟩

end

end Compile

open Compile

/-- A source leaves the grammar at `token`: what is met before it is the beginning of a class, and
with it there is no such class, or the token is the end of the file and what is before it no class.
Nothing else that is met has its location. -/
structure Leaves (source : String) (before : List Token) (token : Token) (after : List Token) :
    Prop where
  met_eq : (Lexer.ofSource source).scan.met = before ++ token :: after
  begins : ∃ c : Syntax.Class, c.Fit ∧ (∀ lexeme ∈ c.lexemes, lexeme.WellFormed) ∧
    before.map (·.lexeme) <+: c.lexemes
  leaves : ∀ c : Syntax.Class, c.Fit → ¬ (before ++ [token]).map (·.lexeme) <+: c.lexemes
  ends : token.lexeme = .endOfFile →
    ∀ c : Syntax.Class, c.Fit → c.lexemes ≠ before.map (·.lexeme)
  apart : ∀ other ∈ before ++ after,
    Location.ofSpan source other.span ≠ Location.ofSpan source token.span

/-- A source that is refused for something that is not expected leaves the grammar there. -/
theorem compile_unexpected {source expected found : String} {location : Option Location}
    (h : compile source = .error (.inSource (.unexpected expected found) location)) :
    ∃ before token after, Leaves source before token after ∧
      location = some (.ofSpan source token.span) ∧ found = token.kind.found token.text := by
  obtain ⟨done, diagnostic, hrun, herror⟩ := compile_eq_error.mp h
  obtain ⟨hfault, hlocation⟩ : Fault.unexpected expected found = diagnostic.fault ∧
      location = some (.ofSpan source diagnostic.span) := by
    simpa [Diagnostic.toError] using herror
  have hstop : ∀ reason, (Lexer.ofSource source).scan.stop = .error reason →
      ∃ fault, reason.fault = .lexical fault := by
    intro reason hreason
    obtain ⟨fault, _, _, _, hlexical, -⟩ := fault_marks hreason
    exact ⟨fault, hlexical⟩
  obtain ⟨before, rest, goal, goals, state, token, hpassage, hahead, hread⟩ :=
    passage_of_unexpected hstop (congrArg Prod.snd hrun) hfault.symm
  have htokens : (Lexer.ofSource source).scan.tokens = before ++ rest := hpassage.tokens_eq
  obtain ⟨after, hmet⟩ := met_of_ahead htokens hahead
  obtain rfl := read_unexpected hread hfault.symm
  have hbefore : ∀ t ∈ before, t.lexeme.WellFormed := by
    intro t ht
    have hmem : t ∈ (Lexer.ofSource source).scan.tokens := by
      rw [htokens]
      exact List.mem_append_left rest ht
    exact (token_marks hmem).1
  have hfound : found = token.kind.found token.text := by
    cases hfault
    rfl
  refine ⟨before, token, after, ⟨hmet, hpassage.begins_class hbefore, fun c hfit hprefix => ?_,
    fun heof c hfit hc => ?_, fun other => location_ne hmet⟩, hlocation, hfound⟩
  · obtain ⟨more, hmore⟩ := hprefix
    have hc : c.lexemes = (before ++ token :: unplaced more).map (·.lexeme) := by
      rw [← hmore]
      simp
    exact hpassage.not_fit hahead hread hfault.symm (token :: unplaced more) default hc rfl hfit
  · obtain ⟨lexeme, span⟩ := token
    obtain rfl : lexeme = .endOfFile := heof
    have hc : c.lexemes = (before ++ ([] : List Token)).map (·.lexeme) := by
      rw [hc, List.append_nil]
    exact hpassage.not_fit hahead hread hfault.symm [] span hc rfl hfit

/-- A class with a statement that lacks its semicolon. -/
def unclosedSource : String := "class A \x7b method int f() \x7b return 1 \x7d \x7d"

def unclosedError : Error :=
  .inSource (.unexpected "';'" "'\x7d'") (some ⟨⟨1, 37⟩, unclosedSource⟩)

theorem compile_unclosed : compile unclosedSource = .error unclosedError := by decide +kernel

theorem unclosed_compile_unexpected :
    compile unclosedSource = .error unclosedError ∧ ∃ before token after,
      Leaves unclosedSource before token after ∧
      some ⟨⟨1, 37⟩, unclosedSource⟩ = some (Location.ofSpan unclosedSource token.span) ∧
      "'\x7d'" = token.kind.found token.text :=
  ⟨compile_unclosed, compile_unexpected compile_unclosed⟩

end JackCompiler
