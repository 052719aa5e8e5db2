import JackCompiler.Proofs.Positions
import JackCompiler.Proofs.Stream
/-!
# Reading tokens as they are needed

The compiler and the token document can pull their tokens from a stream, one at a time and none
before it is needed. That comes to the same as reading all of the source first (`pull_eq_run`,
`drain_eq`), so a source has one first lexical fault: reading its tokens, writing their document and
compiling it fail with that one, or compiling fails before it (`lexical_faults_agree`).
-/

namespace JackCompiler

open Text (byteLength)

namespace TokenStream

theorem sees_of_peek {stream seen : TokenStream} {token : Token}
    (h : stream.peek = (.ok token, seen)) : seen.Sees stream token := by
  have hsees := (peek_spec stream).2 token
  rw [h] at hsees
  exact hsees rfl

theorem hasNext_ok {stream seen : TokenStream} {more : Bool}
    (h : stream.hasNext = (.ok more, seen)) :
    ∃ token, seen.Sees stream token ∧ (more = true ↔ token.lexeme ≠ .endOfFile) := by
  cases hahead : Compile.ahead stream.remaining.stop stream.remaining.tokens with
  | error diagnostic =>
    have herror : stream.hasNext.1 = .error diagnostic := withPeek_error hahead _
    rw [h] at herror
    cases herror
  | ok token =>
    unfold hasNext at h
    rw [withPeek_token hahead] at h
    cases h
    exact ⟨token, peek_sees hahead, by simp⟩

theorem hasNext_error {stream after : TokenStream} {diagnostic : Diagnostic}
    (h : stream.hasNext = (.error diagnostic, after)) :
    stream.remaining = ⟨[], .error diagnostic⟩ := by
  cases hahead : Compile.ahead stream.remaining.stop stream.remaining.tokens with
  | error reason =>
    have herror : stream.hasNext.1 = .error reason := withPeek_error hahead _
    rw [h] at herror
    cases herror
    obtain ⟨htokens, hstop⟩ := Compile.ahead_error hahead
    rw [← htokens, ← hstop]
  | ok token =>
    unfold hasNext at h
    rw [withPeek_token hahead] at h
    cases h

/-- The tokens of a stream, each taken once it is known that there is one. -/
def drain (stream : TokenStream) : Except Diagnostic (List Token) :=
  match _hnext : stream.hasNext with
  | (.error diagnostic, _) => .error diagnostic
  | (.ok false, _) => .ok []
  | (.ok true, seen) =>
    match _hadvance : seen.advance with
    | (.error diagnostic, _) => .error diagnostic
    | (.ok token, after) => after.drain.map (token :: ·)
termination_by stream.remaining.tokens.length
decreasing_by
  obtain ⟨token, hsees, -⟩ := hasNext_ok _hnext
  rw [← hsees.remaining, remaining_of_advance _hadvance]
  exact Nat.lt_succ_self _

/-- Draining a stream gives the tokens that it has left, if it comes to the end of the file. -/
theorem drain_eq (stream : TokenStream) :
    stream.drain = stream.remaining.stop.map fun _ => stream.remaining.tokens := by
  fun_induction drain stream with
  | case1 stream diagnostic _ hnext =>
    rw [hasNext_error hnext]
    rfl
  | case2 stream _ hnext =>
    obtain ⟨token, hsees, hmore⟩ := hasNext_ok hnext
    have heof : token.lexeme = .endOfFile := by simpa using hmore
    rw [← hsees.remaining, remaining_of_endOfFile hsees.ahead heof]
    rfl
  | case3 stream seen hnext diagnostic _ hadvance =>
    obtain ⟨token, hsees, hmore⟩ := hasNext_ok hnext
    have htoken : token.lexeme ≠ .endOfFile := hmore.mp rfl
    obtain ⟨after, htaken, -⟩ := advance_token hsees.ahead htoken
    rw [hadvance] at htaken
    cases htaken
  | case4 stream seen hnext token after hadvance ih =>
    obtain ⟨_, hsees, -⟩ := hasNext_ok hnext
    rw [ih, ← hsees.remaining, remaining_of_advance hadvance]
    cases after.remaining.stop <;> rfl

end TokenStream

namespace Compile

/-- Meets the goals with the tokens of a stream, each looked at where a goal needs it. -/
def pull (stream : TokenStream) (done : List Event) (goals : List Goal) (state : State) : Result :=
  match goals with
  | [] => (done, .ok state)
  | .emit commands :: goals => pull stream ((write commands).reverse ++ done) goals state
  | .subroutineDone header :: goals => pull stream (state.notice header :: done) goals state
  | goal :: goals =>
    match _hpeek : stream.peek with
    | (.error diagnostic, _) => (done, .error diagnostic)
    | (.ok token, seen) =>
      match goal.read token state with
      | .refuse diagnostic => (done, .error diagnostic)
      | .meet events state => pull seen (events.reverse ++ done) goals state
      | .take events more state =>
        match _hadvance : seen.advance with
        | (.error diagnostic, _) => (events.reverse ++ done, .error diagnostic)
        | (.ok _, after) => pull after (events.reverse ++ done) (more ++ goals) state
termination_by (stream.remaining.tokens.length, goals.length)
decreasing_by
  · exact Prod.Lex.right _ (Nat.lt_succ_self _)
  · exact Prod.Lex.right _ (Nat.lt_succ_self _)
  · rw [(TokenStream.sees_of_peek _hpeek).remaining]
    exact Prod.Lex.right _ (Nat.lt_succ_self _)
  · rw [← (TokenStream.sees_of_peek _hpeek).remaining, TokenStream.remaining_of_advance _hadvance]
    exact Prod.Lex.left _ _ (Nat.lt_succ_self _)

/-- A goal that looks ahead refuses to go on where no token can be read. -/
theorem step_error {goal : Goal} (hemit : ∀ commands, goal ≠ .emit commands)
    (hdone : ∀ header, goal ≠ .subroutineDone header) (diagnostic : Diagnostic) (state : State) :
    goal.step (.error diagnostic) state = .refuse diagnostic := by
  cases goal with
  | emit commands => exact absurd rfl (hemit commands)
  | subroutineDone header => exact absurd rfl (hdone header)
  | _ => rfl

/-- A goal does with the token ahead what it does with one that is peeked at. -/
theorem step_peeked {stream seen : TokenStream} {token : Token}
    (h : stream.peek = (.ok token, seen)) (goal : Goal) (state : State) :
    goal.step (ahead stream.remaining.stop stream.remaining.tokens) state =
      goal.read token state := by
  rw [← stream.peek_eq, h]
  exact step_ok goal token state

/-- Pulling tokens where they are needed goes as the run over all that the stream has left. -/
theorem pull_eq_run (stream : TokenStream) (done : List Event) (goals : List Goal) (state : State) :
    pull stream done goals state =
      run stream.remaining.stop done stream.remaining.tokens goals state := by
  fun_induction pull stream done goals state with
  | case1 stream done state => rw [run_nil]
  | case2 stream done state commands goals ih =>
    rw [ih, run_meet (step_emit commands _ state)]
  | case3 stream done state header goals ih =>
    have hstep (next : Except Diagnostic Token) :
        (Goal.subroutineDone header).step next state = .meet [state.notice header] state := by
      cases next <;> rfl
    rw [ih, run_meet (hstep _)]
    rfl
  | case4 stream done state goal goals hemit hdone diagnostic _ hpeek =>
    have hahead : ahead stream.remaining.stop stream.remaining.tokens = .error diagnostic := by
      rw [← stream.peek_eq, hpeek]
    have hstep := step_error hemit hdone diagnostic state
    rw [← hahead] at hstep
    rw [run_refuse hstep]
  | case5 stream done state goal goals _ _ token seen hpeek diagnostic hread =>
    have hstep := step_peeked hpeek goal state
    rw [hread] at hstep
    rw [run_refuse hstep]
  | case6 stream done state goal goals _ _ token seen hpeek events after hread ih =>
    have hstep := step_peeked hpeek goal state
    rw [hread] at hstep
    rw [ih, run_meet hstep, (TokenStream.sees_of_peek hpeek).remaining]
  | case7 stream done state goal goals _ _ token seen hpeek events more after hread diagnostic _
      hadvance =>
    have hstep := step_peeked hpeek goal state
    obtain ⟨htokens, hdiagnostic⟩ := TokenStream.exhausted_of_advance hadvance
    rw [(TokenStream.sees_of_peek hpeek).remaining] at htokens hdiagnostic
    rw [hread, htokens] at hstep
    rw [htokens, run_cons, hstep, hdiagnostic]
  | case8 stream done state goal goals _ _ token seen hpeek events more after hread taken left
      hadvance ih =>
    have hsees := TokenStream.sees_of_peek hpeek
    have hremaining := TokenStream.remaining_of_advance hadvance
    have hahead := hsees.ahead
    rw [hremaining] at hahead
    cases hahead
    rw [ih, ← hsees.remaining, hremaining, run_take hread]

end Compile

/-! ## The first lexical fault -/

/-- Compiles a source, with each token read where it is needed. -/
def compileOnDemand (source : String) : Compilation :=
  let (done, result) := Compile.pull (.ofSource source) [] Compile.program {}
  let events := done.reverse
  { events, result := result.map fun state => ⟨state.className, events.filterMap (·.command?)⟩ }

/-- The document of the tokens of a source, with each token read where it is needed. -/
def tokensXmlOnDemand (source : String) : Except Error String :=
  ((TokenStream.ofSource source).drain.map Xml.document).mapError (·.toError source)

theorem compileOnDemand_eq (source : String) : compileOnDemand source = compileSource source := by
  unfold compileOnDemand
  rw [Compile.pull_eq_run]
  rfl

theorem tokensXmlOnDemand_eq (source : String) : tokensXmlOnDemand source = tokensXml source := by
  have hscan : (TokenStream.ofSource source).remaining = (Lexer.ofSource source).scan := rfl
  unfold tokensXmlOnDemand
  rw [TokenStream.drain_eq, hscan]
  cases hstop : (Lexer.ofSource source).scan.stop with
  | ok eof =>
    rw [tokensXml_of_ok hstop]
    rfl
  | error diagnostic =>
    rw [tokensXml_of_error hstop]
    rfl

/-- A token of a source that ends at a place or before it. -/
def Token.EndsBy (source : String) (index : Nat) (token : Token) : Prop :=
  token ∈ (Lexer.ofSource source).scan.tokens ∧ token.span.stop ≤ index

/-- A source whose tokens end in a lexical fault does not compile. It fails with the fault, or for a
token before it. -/
theorem compile_of_fault {source : String} {diagnostic : Diagnostic}
    (h : (Lexer.ofSource source).scan.stop = .error diagnostic) :
    ∃ reported, compile source = .error (Diagnostic.toError reported source) ∧
      (reported = diagnostic ∨
        Compile.Due (Token.EndsBy source diagnostic.span.index) reported) := by
  cases hcompile : compile source with
  | ok compiled =>
    obtain ⟨_, eof, hstop, -⟩ := lexes_of_compile hcompile
    rw [h] at hstop
    cases hstop
  | error error =>
    obtain ⟨done, reported, hrun, rfl⟩ := compile_eq_error.mp hcompile
    refine ⟨reported, rfl, ?_⟩
    have hstop : ∀ eof, (Lexer.ofSource source).scan.stop = .ok eof →
        eof.EndsBy source diagnostic.span.index ∧ eof.lexeme = .endOfFile := by
      intro eof heof
      rw [h] at heof
      cases heof
    have hgoals : ∀ goal ∈ Compile.program,
        goal.Keeps (Token.EndsBy source diagnostic.span.index) := by
      simp [Compile.program, Compile.Goal.Keeps]
    rcases Compile.run_due hstop (fun token htoken => ⟨htoken, stop_le_fault htoken h⟩) hgoals
      (congrArg Prod.snd hrun) with hdue | hfault
    · exact .inr hdue
    · rw [h] at hfault
      cases hfault
      exact .inl rfl

/-- A class that is not one before its third token, with a character behind that which begins no
token. -/
def strayCharacterSource : String := "class A ; #"

def strayCharacter : Diagnostic := ⟨.lexical (.unknownCharacter '#'), 10, 1⟩

theorem scan_strayCharacter :
    (Lexer.ofSource strayCharacterSource).scan.stop = .error strayCharacter := by decide +kernel

end JackCompiler
