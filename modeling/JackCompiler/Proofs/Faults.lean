import JackCompiler.Proofs.Acceptance
import JackCompiler.Proofs.Moves
import JackCompiler.Proofs.Spans
/-!
# What compiling can fail with

A goal refuses a token only for what the token is, or for a name that is an identifier of the
source, and it never takes the end of the file (`read_due`). So a run that fails blames one of its
tokens or what it stops at (`run_due`), and compiling fails with the lexical fault of the source, or
with a fault of a token that stands where the fault is said to be (`blames_of_compile`).
-/

namespace JackCompiler

open Text (byteLength)

namespace Compile

/-- A diagnostic is due to a token: one that is not expected, or an identifier whose name is not
declared or is declared already. -/
inductive Due (known : Token → Prop) : Diagnostic → Prop
  | unexpected {token : Token} (h : known token) (expected : String) :
    Due known (token.unexpected expected)
  | undefinedSymbol {name : String} {span : Span} (h : known ⟨.identifier name, span⟩) :
    Due known ⟨.undefinedSymbol name, span⟩
  | duplicateDefinition {name : String} {span : Span} (h : known ⟨.identifier name, span⟩) :
    Due known ⟨.duplicateDefinition name, span⟩

/-- A goal does not want the end of the file as a token, and a name it keeps is that of an
identifier. -/
def Goal.Keeps (known : Token → Prop) : Goal → Prop
  | .expect kind => kind ≠ .endOfFile
  | .afterName name span => known ⟨.identifier name, span⟩
  | _ => True

/-- A move does not take the end of the file, and refuses a token for what is due to one. -/
def Move.Due (known : Token → Prop) (token : Token) : Move → Prop
  | .meet _ _ => True
  | .take _ more _ => token.lexeme ≠ .endOfFile ∧ ∀ goal ∈ more, goal.Keeps known
  | .refuse diagnostic => Compile.Due known diagnostic

/-! ## Steps -/

section

variable {known : Token → Prop} {token : Token} {state : State}

theorem Goal.LeftBy.keeps {goal : Goal} (h : goal.LeftBy token) (hknown : known token) :
    goal.Keeps known := by
  cases goal
  case expect kind =>
    rintro rfl
    exact h
  case afterName name span =>
    rw [show token = ⟨.identifier name, span⟩ from h] at hknown
    exact hknown
  all_goals trivial

/-- What becomes of a goal with a known token ahead. -/
theorem read_due {goal : Goal} (h : known token) (hgoal : goal.Keeps known) :
    (goal.read token state).Due known token := by
  have harises : (goal.read token state).Arises goal token := read_arises goal token state
  generalize goal.read token state = move at harises ⊢
  cases harises with
  | meet => trivial
  | take hend hstring hmore =>
    refine ⟨fun heof => ?_, fun g hg => (hmore g hg).keeps h⟩
    rw [hend heof] at hgoal
    exact hgoal rfl
  | unexpected expected => exact .unexpected h expected
  | undefinedSymbol hname =>
    rcases hname with rfl | rfl
    · exact .undefinedSymbol h
    · exact .undefinedSymbol hgoal
  | duplicateDefinition hname =>
    subst hname
    exact .duplicateDefinition h

end

/-! ## Runs -/

/-- A goal takes nothing where there is no token. -/
theorem step_error_ne_take (goal : Goal) (diagnostic : Diagnostic) (state : State)
    (events : List Event) (more : List Goal) (after : State) :
    goal.step (.error diagnostic) state ≠ .take events more after := by
  cases goal <;> simp [Goal.step]

/-- A goal that refuses where there is no token does so for the reason that there is none. -/
theorem step_error_refuse {goal : Goal} {diagnostic refused : Diagnostic} {state : State}
    (h : goal.step (.error diagnostic) state = .refuse refused) : refused = diagnostic := by
  cases goal <;> simp_all [Goal.step]

/-- A run that fails does so for what is due to a known token, or for what it stops at. -/
theorem run_due {known : Token → Prop} {stop : Except Diagnostic Token}
    (hstop : ∀ eof, stop = .ok eof → known eof ∧ eof.lexeme = .endOfFile)
    {done : List Event} {tokens : List Token} {goals : List Goal} {state : State}
    (htokens : ∀ token ∈ tokens, known token) (hgoals : ∀ goal ∈ goals, goal.Keeps known)
    {diagnostic : Diagnostic} (h : (run stop done tokens goals state).2 = .error diagnostic) :
    Due known diagnostic ∨ stop = .error diagnostic := by
  have hahead {tokens : List Token} (htokens : ∀ token ∈ tokens, known token) {token : Token}
      (h : ahead stop tokens = .ok token) : known token := by
    rcases tokens with _ | ⟨t, tokens⟩
    · exact (hstop token h).1
    · cases h
      exact htokens _ List.mem_cons_self
  refine run_induction stop
    (motive := fun _ tokens goals _ result => (∀ token ∈ tokens, known token) →
      (∀ goal ∈ goals, goal.Keeps known) → result.2 = .error diagnostic →
      Due known diagnostic ∨ stop = .error diagnostic)
    ?finish ?meet ?take ?exhaust ?refuse done tokens goals state htokens hgoals h
  case finish => intros; contradiction
  case meet =>
    intro done tokens goal goals state events after result hstep ih htokens hgoals
    exact ih htokens (List.forall_mem_cons.mp hgoals).2
  case take =>
    intro done token tokens goal goals state events more after result hread ih htokens hgoals
    obtain ⟨htoken, htokens⟩ := List.forall_mem_cons.mp htokens
    obtain ⟨hgoal, hgoals⟩ := List.forall_mem_cons.mp hgoals
    have hdue : (goal.read token state).Due known token := read_due htoken hgoal
    rw [hread] at hdue
    exact ih htokens (List.forall_mem_append.mpr ⟨hdue.2, hgoals⟩)
  case exhaust =>
    intro done goal goals state events more after hstep htokens hgoals
    cases stop with
    | error reason => exact absurd hstep (step_error_ne_take _ _ _ _ _ _)
    | ok eof =>
      obtain ⟨hknown, heof⟩ := hstop eof rfl
      have hdue : (goal.read eof state).Due known eof :=
        read_due hknown (hgoals goal List.mem_cons_self)
      rw [← step_ok, hstep] at hdue
      exact absurd heof hdue.1
  case refuse =>
    intro done tokens goal goals state refused hstep htokens hgoals heq
    cases heq
    cases hnext : ahead stop tokens with
    | ok token =>
      have hdue : (goal.read token state).Due known token :=
        read_due (hahead htokens hnext) (hgoals goal List.mem_cons_self)
      rw [← step_ok, ← hnext, hstep] at hdue
      exact .inl hdue
    | error reason =>
      rw [hnext] at hstep
      rcases tokens with _ | ⟨token, tokens⟩
      · exact .inr (step_error_refuse hstep ▸ hnext)
      · cases hnext

end Compile

/-! ## What a source can be blamed for -/

/-- A token of a source, or its end of the file. -/
def Token.Met (token : Token) (source : String) : Prop :=
  token ∈ (Lexer.ofSource source).scan.tokens ∨ (Lexer.ofSource source).scan.stop = .ok token

/-- A fault of a source and where it lies: the lexical fault its scan stops at, or a token that is
not expected, or an identifier whose name is not declared or is declared already. -/
inductive Blames (source : String) : Fault → Span → Prop
  | lexical {fault : LexicalFault} {span : Span} (hfault : fault ≠ .noMoreTokens)
    (h : (Lexer.ofSource source).scan.stop = .error ⟨.lexical fault, span⟩) :
    Blames source (.lexical fault) span
  | unexpected {token : Token} (h : token.Met source) (expected : String) :
    Blames source (.unexpected expected (token.kind.found token.text)) token.span
  | undefinedSymbol {name : String} {span : Span}
    (h : ⟨.identifier name, span⟩ ∈ (Lexer.ofSource source).scan.tokens)
    (hname : ∀ word : Keyword, word.spelling ≠ name) :
    Blames source (.undefinedSymbol name) span
  | duplicateDefinition {name : String} {span : Span}
    (h : ⟨.identifier name, span⟩ ∈ (Lexer.ofSource source).scan.tokens)
    (hname : ∀ word : Keyword, word.spelling ≠ name) :
    Blames source (.duplicateDefinition name) span

section

variable {source : String} {token : Token}

theorem Token.Met.marks (h : token.Met source) :
    ∃ before after, token.span.Marks source before token.text.toList after := by
  rcases h with h | h
  · exact (token_marks h).2
  · obtain ⟨heof, hmarks⟩ := endOfFile_marks h
    refine ⟨source.toList, [], ?_⟩
    rw [Token.text, heof]
    exact hmarks

/-- The text of a token is that of the source at its span. -/
theorem Token.Met.slice (h : token.Met source) : token.span.slice? source = some token.text := by
  obtain ⟨before, after, hmarks⟩ := h.marks
  rw [hmarks.slice, String.ofList_toList]

theorem Token.Met.inside (h : token.Met source) : token.span.Inside source := by
  obtain ⟨before, after, hmarks⟩ := h.marks
  exact hmarks.inside

/-- A string constant says what is between its quotes. -/
theorem TokenKind.contents_string (contents : String) :
    TokenKind.string.contents (Lexeme.string contents).text = contents := by
  unfold TokenKind.contents Lexeme.text
  simp

/-- What is due to a token that is met is a fault of the source. -/
theorem Compile.Due.blames {diagnostic : Diagnostic} (h : Compile.Due (·.Met source) diagnostic) :
    Blames source diagnostic.fault diagnostic.span := by
  have hmem {name : String} {span : Span} (h : Token.Met ⟨.identifier name, span⟩ source) :
      ⟨.identifier name, span⟩ ∈ (Lexer.ofSource source).scan.tokens := by
    rcases h with h | h
    · exact h
    · cases Lexer.scan_stop_ok h
  cases h with
  | unexpected h expected => exact .unexpected h expected
  | undefinedSymbol h => exact .undefinedSymbol (hmem h) (token_marks (hmem h)).1.2
  | duplicateDefinition h => exact .duplicateDefinition (hmem h) (token_marks (hmem h)).1.2

/-- What is blamed is text that begins with no blank, or the end of the source. -/
theorem Blames.marks {fault : Fault} {span : Span} (h : Blames source fault span) :
    (∃ before c text after, span.Marks source before (c :: text) after ∧ ¬ isBlank c) ∨
      span.Marks source source.toList [] [] := by
  have htoken {token : Token} (h : token ∈ (Lexer.ofSource source).scan.tokens) :
      ∃ before c text after, token.span.Marks source before (c :: text) after ∧ ¬ isBlank c := by
    obtain ⟨hlexeme, before, after, hmarks⟩ := token_marks h
    obtain ⟨c, text, htext, hc⟩ := Lexeme.text_begins hlexeme
    rw [Token.text, htext] at hmarks
    exact ⟨before, c, text, after, hmarks, hc⟩
  cases h with
  | lexical hfault h =>
    obtain ⟨fault, before, text, after, -, hrefused, hmarks⟩ := fault_marks h
    obtain ⟨c, text, rfl, hc⟩ := hrefused.begins
    exact .inl ⟨before, c, text, after, hmarks, hc⟩
  | unexpected h expected =>
    rcases h with h | h
    · exact .inl (htoken h)
    · exact .inr (endOfFile_marks h).2
  | undefinedSymbol h | duplicateDefinition h => exact .inl (htoken h)

theorem Blames.inside {fault : Fault} {span : Span} (h : Blames source fault span) :
    span.Inside source := by
  rcases h.marks with ⟨before, c, text, after, hmarks, -⟩ | hmarks
  · exact hmarks.inside
  · exact hmarks.inside

/-- A scan does not stop at the fault that no tokens are left. -/
theorem stop_blames {diagnostic : Diagnostic}
    (h : (Lexer.ofSource source).scan.stop = .error diagnostic) :
    Blames source diagnostic.fault diagnostic.span := by
  obtain ⟨fault, before, text, after, hfault, hrefused, -⟩ := fault_marks h
  obtain ⟨_, span⟩ := diagnostic
  cases hfault
  refine .lexical ?_ h
  rintro rfl
  cases hrefused

/-- A compilation fails for something the source is to blame for. -/
theorem blames_of_compile {error : Error} (h : compile source = .error error) :
    ∃ fault span, error = .inSource fault (some (.ofSpan source span)) ∧
      Blames source fault span := by
  obtain ⟨done, diagnostic, hrun, rfl⟩ := compile_eq_error.mp h
  refine ⟨diagnostic.fault, diagnostic.span, rfl, ?_⟩
  have hgoals : ∀ goal ∈ Compile.program, goal.Keeps (·.Met source) := by
    simp [Compile.program, Compile.Goal.Keeps]
  have hstop : ∀ eof, (Lexer.ofSource source).scan.stop = .ok eof →
      eof.Met source ∧ eof.lexeme = .endOfFile :=
    fun eof heof => ⟨.inr heof, Lexer.scan_stop_ok heof⟩
  rcases Compile.run_due hstop (fun token => .inl) hgoals (congrArg Prod.snd hrun) with hdue | hstop
  · exact hdue.blames
  · exact stop_blames hstop

end

end JackCompiler
