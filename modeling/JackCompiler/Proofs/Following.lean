import JackCompiler.Proofs.Descent
import JackCompiler.Proofs.Fields
import JackCompiler.Proofs.Faults
import JackCompiler.Proofs.Stream
import JackCompiler.Proofs.Recognition.Expressions
/-!
# A descent follows a run

A descent with certain goals before it ends as a run of these goals does, and it has credit for some
more calls (`At`). A token that is taken brings new credit, and a call costs some of it. What each
action makes of this is said here, as what has to hold before the action so that a condition holds
behind it (`Meets`). An action that meets a condition ends with a diagnostic if it fails, and in no
other way: the tokens ahead are those of the source, so their texts can be cut out of it, and one
that has been taken is read as what it was seen to be (`Took`).
-/

namespace JackCompiler.Descent

open Compile

/-! ## What an action does to a reader -/

namespace Reader

variable {reader after : Reader} {token : Token}

/-- The token ahead, or the reason that none can be read. -/
def ahead (reader : Reader) : Except Diagnostic Token :=
  Compile.ahead reader.stream.remaining.stop reader.stream.remaining.tokens

def told (reader : Reader) (events : List Event) : Reader :=
  { reader with done := events.reverse ++ reader.done }

/-- Only the stream has changed. -/
structure Moves (reader after : Reader) : Prop where
  source : after.source = reader.source
  done : after.done = reader.done
  state : after.state = reader.state
  entered : after.entered = reader.entered

/-- Nothing is taken. -/
structure Looks (reader after : Reader) : Prop extends Moves reader after where
  remaining : after.stream.remaining = reader.stream.remaining

/-- The token ahead is taken. -/
structure Takes (reader : Reader) (token : Token) (after : Reader) : Prop
    extends Moves reader after where
  remaining : reader.stream.remaining =
    ⟨token :: after.stream.remaining.tokens, after.stream.remaining.stop⟩

theorem Looks.ahead (h : reader.Looks after) : after.ahead = reader.ahead := by
  rw [Reader.ahead, Reader.ahead, h.remaining]

theorem Looks.left (h : reader.Looks after) : after.left = reader.left := by
  rw [Reader.left, Reader.left, h.remaining]

theorem Takes.left (h : reader.Takes token after) : reader.left = after.left + 1 := by
  rw [Reader.left, Reader.left, h.remaining]
  rfl

/-- Where the end of the file is not ahead, there is a token left. -/
theorem tokens_of_ahead (h : reader.ahead = .ok token) (htoken : token.lexeme ≠ .endOfFile) :
    ∃ rest, reader.stream.remaining.tokens = token :: rest := by
  obtain ⟨after, -, -, hremaining⟩ := TokenStream.advance_token h htoken
  exact ⟨after.remaining.tokens, by rw [hremaining]⟩

end Reader

/-! ## What a token is seen to be -/

section

variable {token : Token}

theorem kind_symbol {symbol : Symbol} :
    token.kind = .symbol symbol ↔ token.lexeme = .symbol symbol := by
  unfold Token.kind
  cases token.lexeme <;> simp [Lexeme.kind]

theorem kind_keyword {word : Keyword} :
    token.kind = .keyword word ↔ token.lexeme = .keyword word := by
  unfold Token.kind
  cases token.lexeme <;> simp [Lexeme.kind]

theorem kind_integer : token.kind = .integer ↔ ∃ digits, token.lexeme = .integer digits := by
  unfold Token.kind
  cases token.lexeme <;> simp [Lexeme.kind]

theorem kind_string : token.kind = .string ↔ ∃ contents, token.lexeme = .string contents := by
  unfold Token.kind
  cases token.lexeme <;> simp [Lexeme.kind]

theorem kind_identifier : token.kind = .identifier ↔ ∃ name, token.lexeme = .identifier name := by
  unfold Token.kind
  cases token.lexeme <;> simp [Lexeme.kind]

theorem kind_endOfFile : token.kind = .endOfFile ↔ token.lexeme = .endOfFile := by
  unfold Token.kind
  cases token.lexeme <;> simp [Lexeme.kind]

end

/-! ## Credit -/

/-- What a call costs: itself and the calls that are made before a token is taken. -/
def Routine.cost : Routine → Nat
  | expressionList => 4
  | argument => 3
  | expression | classVariables | localVariables | parameterList => 2
  | _ => 1

/-- What is left to a call when it is made: the credit of all its tokens, and what it costs. -/
def Frame.weight (frame : Frame) : Nat := 4 * frame.left + frame.routine.cost

/-- An inner call has no more tokens left than an outer one, and fewer if it is of the same
procedure. -/
def Nested (opened : List Frame) : Prop :=
  opened.Pairwise fun inner outer =>
    inner.left ≤ outer.left ∧ (inner.routine = outer.routine → inner.left < outer.left)

theorem Routine.cost_pos (routine : Routine) : 0 < routine.cost := by cases routine <;> decide

theorem Routine.cost_le (routine : Routine) : routine.cost ≤ 4 := by cases routine <;> decide

/-- What a descent is held to: the source, and how many calls may be made, and for the call it is
in, which calls are open and how many more calls may be nested in it. -/
structure Course where
  source : String
  bound : Nat
  opened : List Frame := []
  depth : Nat

namespace Course

def tokens (course : Course) : List Token := (Lexer.ofSource course.source).scan.tokens

/-- What is behind the tokens of the source. -/
def stop (course : Course) : Except Diagnostic Token := (Lexer.ofSource course.source).scan.stop

/-- How the run over the source ends. -/
def result (course : Course) : Result :=
  Compile.run course.stop [] course.tokens program {}

/-- The calls that have been made are no more than there may be, and nested as they should be. -/
structure Counted (course : Course) (entered : List (List Frame)) : Prop where
  bounded : entered.length ≤ course.bound
  nested : ∀ opened ∈ entered, Nested opened

/-- With these many tokens left there is credit for some more calls. -/
structure Affords (course : Course) (credit left : Nat) (entered : List (List Frame)) : Prop where
  spent : entered.length + 4 * left + credit ≤ course.bound
  deep : 4 * left + credit ≤ course.depth
  inside : ∀ frame ∈ course.opened, 4 * left + credit < frame.weight
  opened : Nested course.opened
  nested : ∀ opened ∈ entered, Nested opened

/-- The rest of the run is to meet these goals from this state. -/
structure Due (course : Course) (credit : Nat) (goals : List Goal) (state : State)
    (reader : Reader) : Prop where
  source : reader.source = course.source
  tokens : reader.stream.remaining.tokens <:+ course.tokens
  stop : reader.stream.remaining.stop = course.stop
  fields : state.Counted
  run : Compile.run course.stop reader.done reader.stream.remaining.tokens goals state =
    course.result
  affords : course.Affords credit reader.left reader.entered

/-- The rest of the run is to meet these goals. -/
abbrev At (course : Course) (credit : Nat) (goals : List Goal) (reader : Reader) : Prop :=
  course.Due credit goals reader.state reader

/-- The run ends here with this diagnostic. -/
structure Refused (course : Course) (diagnostic : Diagnostic) (reader : Reader) : Prop where
  source : reader.source = course.source
  result : (reader.done, .error diagnostic) = course.result
  counted : course.Counted reader.entered

/-- A token has been taken, and it makes this of the next goal. -/
def Pending (course : Course) (credit : Nat) (move : Move) (goals : List Goal)
    (reader : Reader) : Prop :=
  match move with
  | .take events more state => course.Due credit (more ++ goals) state (reader.told events)
  | .refuse diagnostic => course.Refused diagnostic reader
  -- a token is taken only where the goal does not leave it
  | .meet _ _ => True

/-- The last token taken is this one, which is one of the source. -/
structure Took (course : Course) (token : Token) (reader : Reader) : Prop where
  source : reader.source = course.source
  current : reader.stream.current = some token
  met : token ∈ course.tokens

/-- With an action the descent comes to where `Q` holds, or it ends with a diagnostic as the run
does. -/
def Meets {α : Type} (course : Course) (action : Action α) (Q : α → Reader → Prop)
    (reader : Reader) : Prop :=
  match action.run.run reader with
  | (.ok a, after) => Q a after
  | (.error (.refused diagnostic), after) => course.Refused diagnostic after
  | (.error _, _) => False

variable {course : Course} {reader after : Reader} {credit left : Nat}
  {entered : List (List Frame)} {goal : Goal} {goals more : List Goal} {state : State}
  {events : List Event} {move : Move} {token : Token} {kind : TokenKind} {diagnostic : Diagnostic}

/-! ## Where a descent is -/

theorem Affords.counted (h : course.Affords credit left entered) : course.Counted entered :=
  ⟨by have := h.spent; omega, h.nested⟩

/-- A token that is taken is credit for four calls. -/
theorem Affords.take (h : course.Affords credit (left + 1) entered) :
    course.Affords (credit + 4) left entered where
  spent := by have := h.spent; omega
  deep := by have := h.deep; omega
  inside frame hframe := by have := h.inside frame hframe; omega
  opened := h.opened
  nested := h.nested

theorem Affords.weaken {less : Nat} (h : course.Affords credit left entered)
    (hless : less ≤ credit) : course.Affords less left entered where
  spent := by have := h.spent; omega
  deep := by have := h.deep; omega
  inside frame hframe := by have := h.inside frame hframe; omega
  opened := h.opened
  nested := h.nested

theorem Due.weaken {less : Nat} (h : course.Due credit goals state reader)
    (hless : less ≤ credit) : course.Due less goals state reader :=
  { h with affords := h.affords.weaken hless }

theorem Due.looks (h : course.Due credit goals state reader) (hlooks : reader.Looks after) :
    course.Due credit goals state after where
  source := hlooks.source.trans h.source
  tokens := by rw [hlooks.remaining]; exact h.tokens
  stop := by rw [hlooks.remaining]; exact h.stop
  fields := h.fields
  run := by rw [hlooks.done, hlooks.remaining]; exact h.run
  affords := by rw [hlooks.left, hlooks.entered]; exact h.affords

theorem At.looks (h : course.At credit goals reader) (hlooks : reader.Looks after) :
    course.At credit goals after := by
  rw [At, hlooks.state]
  exact Due.looks h hlooks

theorem Due.setState (h : course.Due credit goals state reader) :
    course.At credit goals { reader with state } :=
  ⟨h.source, h.tokens, h.stop, h.fields, h.run, h.affords⟩

/-- The tokens ahead in a run. -/
theorem Due.ahead (h : course.Due credit goals state reader) :
    Compile.ahead course.stop reader.stream.remaining.tokens = reader.ahead := by
  rw [← h.stop]
  rfl

/-- The token ahead is one of the source. -/
theorem Due.met (h : course.Due credit goals state reader) (hahead : reader.ahead = .ok token) :
    token.Met course.source := by
  have htokens := h.tokens
  rw [Reader.ahead, h.stop] at hahead
  generalize reader.stream.remaining.tokens = tokens at hahead htokens
  cases tokens with
  | nil => exact .inr hahead
  | cons first tokens =>
    cases hahead
    exact .inl (htokens.subset List.mem_cons_self)

/-- Goals that make the same of a run stand for one another. -/
theorem Due.congr {others : List Goal} (h : course.Due credit goals state reader)
    (hrun : Compile.run course.stop reader.done reader.stream.remaining.tokens goals state =
      Compile.run course.stop reader.done reader.stream.remaining.tokens others state) :
    course.Due credit others state reader := { h with run := hrun ▸ h.run }

theorem Due.congr_step {other : Goal} (h : course.Due credit (goal :: goals) state reader)
    (hstep : goal.step reader.ahead state = other.step reader.ahead state) :
    course.Due credit (other :: goals) state reader :=
  h.congr (by rw [run_cons, run_cons, h.ahead, hstep])

/-- A goal that is met with the token ahead. -/
theorem Due.meet {next : State} (h : course.Due credit (goal :: goals) state reader)
    (hstep : goal.step reader.ahead state = .meet events next) :
    course.Due credit goals next (reader.told events) where
  source := h.source
  tokens := h.tokens
  stop := h.stop
  fields := (step_settles hstep).counted h.fields
  run := by rw [← h.run, run_meet (h.ahead ▸ hstep)]; rfl
  affords := h.affords

/-- Commands that do not depend on what is ahead. -/
theorem Due.emit {commands : List Vm.Command}
    (h : course.Due credit (.emit commands :: goals) state reader) :
    course.Due credit goals state (reader.told (write commands)) :=
  h.meet (step_emit ..)

theorem Due.refuse (h : course.Due credit (goal :: goals) state reader)
    (hstep : goal.step reader.ahead state = .refuse diagnostic) :
    course.Refused diagnostic reader :=
  ⟨h.source, by rw [← h.run, run_refuse (h.ahead ▸ hstep)], h.affords.counted⟩

/-- When the token ahead has been taken, it is settled what becomes of the next goal. -/
theorem Due.pending (h : course.Due credit (goal :: goals) state reader)
    (htakes : reader.Takes token after) :
    course.Pending (credit + 4) (goal.read token state) goals after := by
  have hrun := h.run
  rw [htakes.remaining] at hrun
  have haffords : course.Affords (credit + 4) after.left after.entered := by
    have haffords := h.affords
    rw [htakes.left, ← htakes.entered] at haffords
    exact haffords.take
  have hsource : after.source = course.source := htakes.source.trans h.source
  unfold Pending
  cases hread : goal.read token state with
  | take events more next =>
    have hsettles := read_settles goal token state
    rw [hread] at hsettles
    refine ⟨hsource, ?_, ?_, hsettles.1.counted h.fields, ?_, haffords⟩
    · have htokens := h.tokens
      rw [htakes.remaining] at htokens
      exact (List.suffix_cons token _).trans htokens
    · rw [← h.stop, htakes.remaining]
      rfl
    · rw [← hrun, run_take hread, ← htakes.done]
      rfl
  | refuse diagnostic =>
    exact ⟨hsource, by rw [← hrun, run_refuse_token hread, htakes.done], haffords.counted⟩
  | meet => trivial

/-- Commands that are written with a token may be written behind it. -/
theorem Pending.written {commands : List Vm.Command}
    (h : course.Pending credit (.take (write commands) more state) goals reader) :
    course.Due credit (.emit commands :: (more ++ goals)) state reader where
  source := h.source
  tokens := h.tokens
  stop := h.stop
  fields := h.fields
  run := by
    rw [← h.run]
    exact run_meet (step_emit ..)
  affords := h.affords

theorem Pending.setState (h : course.Pending credit move goals reader) (next : State) :
    course.Pending credit move goals { reader with state := next } := by
  unfold Pending at h ⊢
  cases move with
  | take events more state => exact ⟨h.source, h.tokens, h.stop, h.fields, h.run, h.affords⟩
  | refuse diagnostic => exact ⟨h.source, h.result, h.counted⟩
  | meet => trivial

/-- The token that a goal takes may be taken for itself, when some commands have been written and
before the rest of what the goal makes of it. -/
theorem Due.apart {commands : List Vm.Command} {rest : List Goal}
    (h : course.Due credit (goal :: goals) state reader) (hahead : reader.ahead = .ok token)
    (htoken : token.lexeme ≠ .endOfFile)
    (hread : goal.read token state = .take (write commands ++ events) more state)
    (hrest : ∀ done tokens, Compile.run course.stop done tokens rest state =
      Compile.run course.stop (events.reverse ++ done) tokens (more ++ goals) state) :
    course.Due credit (.emit commands :: .expect token.kind :: rest) state reader := by
  obtain ⟨tokens, htokens⟩ := Reader.tokens_of_ahead hahead htoken
  have hexpect : (Goal.expect token.kind).read token state = .take [] [] state := if_pos rfl
  refine h.congr ?_
  rw [htokens, run_take hread, run_meet (step_emit ..), run_take hexpect, List.nil_append, hrest,
    List.reverse_append, List.append_assoc]
  rfl

/-- Goals that refuse the token ahead alike. -/
theorem At.refuses {other : Goal} {others : List Goal}
    (h : course.At credit (goal :: goals) reader) (hahead : reader.ahead = .ok token)
    (hread : goal.read token reader.state = .refuse diagnostic)
    (hother : other.read token reader.state = .refuse diagnostic) :
    course.At credit (other :: others) reader :=
  Due.congr h (by rw [run_cons, run_cons, Due.ahead h, hahead, step_ok, step_ok, hread, hother])

/-- The next goal is met with the token ahead. -/
theorem At.met (h : course.At credit (goal :: goals) reader) (hahead : reader.ahead = .ok token)
    (hread : goal.read token reader.state = .meet [] reader.state) :
    course.At credit goals reader := Due.meet h (by rw [hahead, step_ok, hread])

/-- Another goal makes the same of the token ahead. -/
theorem At.swap {other : Goal} (h : course.At credit (goal :: goals) reader)
    (hahead : reader.ahead = .ok token)
    (hread : goal.read token reader.state = other.read token reader.state) :
    course.At credit (other :: goals) reader :=
  Due.congr_step h (by rw [hahead, step_ok, step_ok, hread])

theorem At.refuse (h : course.At credit (goal :: goals) reader) (hahead : reader.ahead = .ok token)
    (hread : goal.read token reader.state = .refuse diagnostic) :
    course.Refused diagnostic reader := Due.refuse h (by rw [hahead, step_ok, hread])

/-- A goal that begins as a term does is met as one. -/
theorem At.term {after : List Goal} (h : course.At credit (goal :: goals) reader)
    (hahead : reader.ahead = .ok token)
    (hread : goal.read token reader.state = takeTerm token reader.state after) :
    course.At credit (.term :: (after ++ goals)) reader := by
  refine Due.congr h ?_
  by_cases htoken : token.lexeme = .endOfFile
  · have hrefuse (after : List Goal) :
        takeTerm token reader.state after = .refuse (token.unexpected "an expression") := by
      rw [takeTerm, htoken]
    have hterm : Goal.term.read token reader.state = takeTerm token reader.state [] := rfl
    rw [run_cons, run_cons, Due.ahead h, hahead, step_ok, step_ok, hread, hterm, hrefuse, hrefuse]
  · obtain ⟨rest, htokens⟩ := Reader.tokens_of_ahead hahead htoken
    rw [htokens, run_takeTerm hread]

/-! ## Actions -/

section

variable {α β : Type} {action : Action α} {Q : α → Reader → Prop}

/-- An action that does this ends, and if it fails it has a diagnostic. -/
theorem Meets.ended (h : course.Meets action Q reader) :
    (∃ a after, action.run.run reader = (.ok a, after) ∧ Q a after) ∨
      ∃ diagnostic after, action.run.run reader = (.error (.refused diagnostic), after) ∧
        course.Refused diagnostic after := by
  unfold Meets at h
  rcases hrun : action.run.run reader with ⟨(diagnostic | _ | _ | _ | _) | a, after⟩
  case error.refused =>
    rw [hrun] at h
    exact .inr ⟨diagnostic, after, rfl, h⟩
  case ok =>
    rw [hrun] at h
    exact .inl ⟨a, after, rfl, h⟩
  all_goals
    rw [hrun] at h
    exact h.elim

theorem Meets.bind {next : α → Action β} {Q : β → Reader → Prop}
    (h : course.Meets action (fun a after => course.Meets (next a) Q after) reader) :
    course.Meets (action >>= next) Q reader := by
  have hrun : (action >>= next).run.run reader =
      match action.run.run reader with
      | (.ok a, after) => (next a).run.run after
      | (.error halt, after) => (.error halt, after) := by
    show (StateT.bind action.run (ExceptT.bindCont next)).run reader = _
    simp only [StateT.bind, StateT.run]
    rcases action.run reader with ⟨_ | a, after⟩ <;> rfl
  unfold Meets at h ⊢
  rw [hrun]
  rcases haction : action.run.run reader with ⟨halt | a, after⟩
  · rw [haction] at h
    cases halt <;> exact h
  · rw [haction] at h
    exact h

theorem Meets.pure {a : α} (h : Q a reader) : course.Meets (pure a) Q reader := h

theorem Meets.get {Q : Reader → Reader → Prop} (h : Q reader reader) :
    course.Meets get Q reader := h

theorem Meets.set {next : Reader} {Q : PUnit → Reader → Prop} (h : Q () next) :
    course.Meets (set next) Q reader := h

theorem Meets.getState {Q : State → Reader → Prop} (h : Q reader.state reader) :
    course.Meets getState Q reader := h

theorem Meets.setState {Q : Unit → Reader → Prop} (h : Q () { reader with state }) :
    course.Meets (setState state) Q reader := h

theorem Meets.tell {Q : Unit → Reader → Prop} (h : Q () (reader.told events)) :
    course.Meets (tell events) Q reader := h

theorem Meets.nextIf {Q : UInt16 → Reader → Prop}
    (h : Q reader.state.ifCount
      { reader with state := { reader.state with ifCount := reader.state.ifCount + 1 } }) :
    course.Meets nextIf Q reader := h

theorem Meets.nextWhile {Q : UInt16 → Reader → Prop}
    (h : Q reader.state.whileCount
      { reader with state := { reader.state with whileCount := reader.state.whileCount + 1 } }) :
    course.Meets nextWhile Q reader := h

/-! ## Cuts and refusals -/

/-- The source can be cut at a span of its text. -/
theorem Meets.fragment {span : Span} {text : String} {Q : String → Reader → Prop}
    (hsource : reader.source = course.source) (hslice : span.slice? course.source = some text)
    (h : Q text reader) : course.Meets (fragment span) Q reader := by
  unfold Descent.fragment
  refine .bind (.get ?_)
  rw [hsource, hslice]
  exact .pure h

theorem Meets.refuse (h : course.Refused diagnostic reader)
    (hinside : diagnostic.span.Inside course.source) :
    course.Meets (Descent.refuse diagnostic) Q reader := by
  unfold Descent.refuse
  refine .bind (.get ?_)
  rw [h.source, hinside.located, hinside.line]
  exact h

theorem Meets.unexpected {expected : String}
    (h : course.Refused (token.unexpected expected) reader) (hmet : token.Met course.source) :
    course.Meets (Descent.unexpected token expected) Q reader := by
  unfold Descent.unexpected
  refine .bind ?_
  by_cases heof : token.kind = .endOfFile
  · have hfound (text : String) : token.kind.found text = token.kind.found token.text := by
      rw [heof]
      rfl
    rw [if_pos heof]
    refine .pure ?_
    rw [hfound]
    exact .refuse h hmet.inside
  · rw [if_neg heof]
    exact .fragment h.source hmet.slice (.refuse h hmet.inside)

/-! ## Actions of the stream -/

variable {operation : TokenStream → Except Diagnostic α × TokenStream}

theorem Meets.stream_ok {a : α} {stream : TokenStream}
    (hoperation : operation reader.stream = (.ok a, stream)) (h : Q a { reader with stream }) :
    course.Meets (onStream operation) Q reader := by
  unfold onStream
  refine .bind (.get (.bind (.set ?_)))
  rw [hoperation]
  exact .pure h

/-- An operation that fails where no token can be read has the lexical fault of the source. -/
theorem Meets.stream_error (h : course.Refused diagnostic reader)
    (hstop : course.stop = .error diagnostic)
    (hoperation : (operation reader.stream).1 = .error diagnostic) :
    course.Meets (onStream operation) Q reader := by
  obtain ⟨_, _, text, _, _, _, hmarks⟩ := fault_marks hstop
  unfold onStream
  refine .bind (.get (.bind (.set ?_)))
  rw [hoperation]
  refine .bind (.fragment h.source hmarks.slice ?_)
  exact .refuse ⟨h.source, h.result, h.counted⟩ hmarks.inside

/-- The next goal needs a token, so it refuses the reason that there is none. -/
def Asks (goal : Goal) : Prop :=
  ∀ diagnostic state, goal.step (.error diagnostic) state = .refuse diagnostic

/-- What is ahead stays ahead when it has been seen. -/
theorem looks_of_ahead (h : reader.ahead = .ok token) :
    reader.Looks { reader with stream := reader.stream.peek.2 } :=
  ⟨⟨rfl, rfl, rfl, rfl⟩, (TokenStream.peek_sees h).remaining⟩

/-- The token ahead, when it is known. -/
theorem At.peek_ahead {Q : Token → Reader → Prop} (h : course.At credit goals reader)
    (hahead : reader.ahead = .ok token)
    (hnext : ∀ after, course.At credit goals after → after.ahead = .ok token → Q token after) :
    course.Meets peek Q reader := by
  have hlooks := looks_of_ahead hahead
  have hafter := h.looks hlooks
  have hpeek : reader.stream.peek = (.ok token, reader.stream.peek.2) :=
    Prod.ext ((TokenStream.peek_eq _).trans hahead) rfl
  refine .bind (.stream_ok hpeek (.bind ?_))
  exact .fragment hafter.source (Due.met h hahead).slice
    (.pure (hnext _ hafter (hlooks.ahead.trans hahead)))

theorem At.peek {Q : Token → Reader → Prop} (h : course.At credit (goal :: goals) reader)
    (hasks : Asks goal)
    (hnext : ∀ token after, course.At credit (goal :: goals) after → after.ahead = .ok token →
      Q token after) : course.Meets peek Q reader := by
  cases hahead : reader.ahead with
  | error diagnostic =>
    have hstop : course.stop = .error diagnostic :=
      (ahead_error ((Due.ahead h).trans hahead)).2
    exact .bind (.stream_error (Due.refuse h (by rw [hahead]; exact hasks ..)) hstop
      ((TokenStream.peek_eq _).trans hahead))
  | ok token => exact h.peek_ahead hahead (hnext token)

/-- The token ahead, which has been seen. -/
theorem At.advance {Q : Unit → Reader → Prop} (h : course.At credit (goal :: goals) reader)
    (hahead : reader.ahead = .ok token) (htoken : token.lexeme ≠ .endOfFile)
    (hnext : ∀ after, course.Took token after →
      course.Pending (credit + 4) (goal.read token after.state) goals after → Q () after) :
    course.Meets advance Q reader := by
  refine .bind (h.peek_ahead hahead fun seen h hahead => ?_)
  obtain ⟨stream, hadvance, hcurrent, hremaining⟩ := TokenStream.advance_token hahead htoken
  have htakes : seen.Takes token { seen with stream } := ⟨⟨rfl, rfl, rfl, rfl⟩, hremaining⟩
  have hmet : token ∈ course.tokens := by
    refine h.tokens.subset ?_
    rw [hremaining]
    exact List.mem_cons_self
  refine .bind (.stream_ok hadvance (.pure (hnext _ ⟨h.source, hcurrent, hmet⟩ ?_)))
  exact Due.pending h htakes

/-- The token ahead, which has to be of a kind: the next goal refuses all others. -/
theorem At.accept {Q : Unit → Reader → Prop} (h : course.At credit (goal :: goals) reader)
    (hahead : reader.ahead = .ok token) (hkind : kind ≠ .endOfFile)
    (hother : token.kind ≠ kind →
      ∀ state, goal.read token state = .refuse (token.unexpected kind.description))
    (hnext : ∀ after, token.kind = kind →
      course.Pending (credit + 4) (goal.read token after.state) goals after → Q () after) :
    course.Meets (if token.kind = kind then Descent.advance
      else Descent.unexpected token kind.description) Q reader := by
  by_cases htoken : token.kind = kind
  · rw [if_pos htoken]
    have hlexeme : token.lexeme ≠ .endOfFile := fun heof => hkind (htoken ▸ kind_endOfFile.mpr heof)
    exact h.advance hahead hlexeme fun after _ h => hnext after htoken h
  · rw [if_neg htoken]
    exact .unexpected (h.refuse hahead (hother htoken _)) (Due.met h hahead)

theorem At.consume_ahead {Q : Unit → Reader → Prop} (h : course.At credit (goal :: goals) reader)
    (hahead : reader.ahead = .ok token) (hkind : kind ≠ .endOfFile)
    (hother : token.kind ≠ kind →
      ∀ state, goal.read token state = .refuse (token.unexpected kind.description))
    (hnext : ∀ after, token.kind = kind →
      course.Pending (credit + 4) (goal.read token after.state) goals after → Q () after) :
    course.Meets (consume kind) Q reader :=
  .bind (h.peek_ahead hahead fun _ h hahead => h.accept hahead hkind hother hnext)

/-- A token that has been seen to be of the kind. -/
theorem At.consume_seen {Q : Unit → Reader → Prop} (h : course.At credit (goal :: goals) reader)
    (hahead : reader.ahead = .ok token) (htoken : token.kind = kind) (hkind : kind ≠ .endOfFile)
    (hnext : ∀ after, course.Pending (credit + 4) (goal.read token after.state) goals after →
      Q () after) : course.Meets (consume kind) Q reader :=
  h.consume_ahead hahead hkind (fun hother => absurd htoken hother) fun after _ => hnext after

/-- A token that is a goal of its own. -/
theorem At.expect {Q : Unit → Reader → Prop} (h : course.At credit (.expect kind :: goals) reader)
    (hkind : kind ≠ .endOfFile) (hnext : ∀ after, course.At (credit + 4) goals after → Q () after) :
    course.Meets (consume kind) Q reader := by
  refine .bind (h.peek (fun _ _ => rfl) fun token after h hahead => ?_)
  refine h.accept hahead hkind (fun htoken _ => if_neg htoken) fun after htoken h => hnext after ?_
  rw [Goal.read, if_pos htoken] at h
  exact h

theorem At.matchKind {Q : Bool → Reader → Prop} (h : course.At credit (goal :: goals) reader)
    (hasks : Asks goal) (hkind : kind ≠ .endOfFile)
    (hyes : ∀ token after, token.kind = kind →
      course.Pending (credit + 4) (goal.read token after.state) goals after → Q true after)
    (hno : ∀ token after, token.kind ≠ kind → after.ahead = .ok token →
      course.At credit (goal :: goals) after → Q false after) :
    course.Meets (matchKind kind) Q reader := by
  refine .bind (h.peek hasks fun token after h hahead => ?_)
  by_cases htoken : token.kind = kind
  · rw [if_pos htoken]
    have hlexeme : token.lexeme ≠ .endOfFile := fun heof => hkind (htoken ▸ kind_endOfFile.mpr heof)
    exact .bind (h.advance hahead hlexeme fun after _ h => .pure (hyes token after htoken h))
  · rw [if_neg htoken]
    exact .pure (hno token after htoken hahead h)

/-! ## What a token says that has been taken -/

theorem Took.currentAs {category : Category} {Q : Token → Reader → Prop}
    (htook : course.Took token reader) (hcategory : token.kind.category = category)
    (h : Q token reader) : course.Meets (currentAs category) Q reader := by
  unfold Descent.currentAs
  refine .bind (.get ?_)
  rw [htook.current]
  dsimp only
  rw [if_pos hcategory]
  exact .pure h

theorem Took.contents {Q : String → Reader → Prop} (htook : course.Took token reader)
    (h : Q (token.kind.contents token.text) reader) : course.Meets (contents token) Q reader :=
  .bind (.fragment htook.source (Token.Met.slice (.inl htook.met)) (.pure h))

theorem Took.keyword {word : Keyword} {Q : Keyword → Reader → Prop}
    (htook : course.Took token reader) (htoken : token.kind = .keyword word)
    (h : Q word reader) : course.Meets keyword Q reader := by
  refine .bind (htook.currentAs (by rw [htoken]; rfl) ?_)
  rw [htoken]
  exact .pure h

theorem Took.symbol {s : Symbol} {Q : Symbol → Reader → Prop} (htook : course.Took token reader)
    (htoken : token.kind = .symbol s) (h : Q s reader) : course.Meets symbol Q reader := by
  refine .bind (htook.currentAs (by rw [htoken]; rfl) ?_)
  rw [htoken]
  exact .pure h

theorem Took.identifier {name : String} {Q : String → Reader → Prop}
    (htook : course.Took token reader) (htoken : token.lexeme = .identifier name)
    (h : Q name reader) : course.Meets identifier Q reader := by
  obtain ⟨_, span⟩ := token
  cases htoken
  exact .bind (htook.currentAs rfl (htook.contents h))

theorem Took.stringValue {text : String} {Q : String → Reader → Prop}
    (htook : course.Took token reader) (htoken : token.lexeme = .string text)
    (h : Q text reader) : course.Meets stringValue Q reader := by
  obtain ⟨_, span⟩ := token
  cases htoken
  refine .bind (htook.currentAs rfl (htook.contents ?_))
  exact (TokenKind.contents_string text).symm ▸ h

/-- The digits of an integer constant write a number that fits. -/
theorem parseNumber?_digits {digits : String} (h : (Lexeme.integer digits).WellFormed) :
    parseNumber? digits = some (.ofNat (decimalValue digits.toList)) := by
  obtain ⟨hne, hdigits, hsmall⟩ := h
  have hunsigned : unsigned digits.toList = digits.toList := by
    unfold unsigned
    split
    · rename_i rest heq
      have hplus := hdigits '+' (by rw [heq]; exact List.mem_cons_self)
      cases hplus
    · rfl
  have hfits : decimalValue digits.toList < 65536 := hsmall.trans_lt (by decide)
  simp only [parseNumber?, hunsigned]
  rw [if_pos ⟨hne, List.all_eq_true.mpr hdigits, hfits⟩]

theorem Took.integerValue {digits : String} {Q : UInt16 → Reader → Prop}
    (htook : course.Took token reader) (htoken : token.lexeme = .integer digits)
    (h : Q (.ofNat (decimalValue digits.toList)) reader) :
    course.Meets integerValue Q reader := by
  obtain ⟨hformed, -⟩ := token_marks htook.met
  rw [htoken] at hformed
  have hkind : token.kind = .integer := kind_integer.mpr ⟨digits, htoken⟩
  have hcontents : token.kind.contents token.text = digits := by
    rw [hkind, Token.text, htoken]
    rfl
  refine .bind (htook.currentAs (by rw [hkind]; rfl) (.bind (htook.contents ?_)))
  simp only [hcontents, parseNumber?_digits hformed]
  exact .pure h

/-- An identifier, which the next goal takes as a name. -/
theorem At.name {what : String} {next : State → String → Move} {Q : String × Span → Reader → Prop}
    (h : course.At credit (goal :: goals) reader) (hahead : reader.ahead = .ok token)
    (hread : ∀ state, goal.read token state = takeName token what (next state))
    (hnext : ∀ name after, token.span.Inside course.source →
      course.Pending (credit + 4) (next after.state name) goals after →
      Q (name, token.span) after) :
    course.Meets (if token.kind = .identifier then do
        Descent.advance
        return (← Descent.identifier, token.span)
      else Descent.unexpected token what) Q reader := by
  have hmet := Due.met h hahead
  cases hlexeme : token.lexeme with
  | identifier name =>
    rw [if_pos (kind_identifier.mpr ⟨name, hlexeme⟩)]
    refine .bind (h.advance hahead (by simp [hlexeme]) fun after htook h => ?_)
    refine .bind (htook.identifier hlexeme (.pure (hnext name after hmet.inside ?_)))
    rw [hread, takeName, hlexeme] at h
    exact h
  | _ =>
    rw [if_neg (by simp [kind_identifier, hlexeme])]
    refine .unexpected (h.refuse hahead ?_) hmet
    rw [hread, takeName, hlexeme]

theorem At.identifier {what : String} {next : State → Token → String → Move}
    {Q : String × Span → Reader → Prop} (h : course.At credit (goal :: goals) reader)
    (hasks : Asks goal)
    (hread : ∀ token state, goal.read token state = takeName token what (next state token))
    (hnext : ∀ token name after, token.span.Inside course.source →
      course.Pending (credit + 4) (next after.state token name) goals after →
      Q (name, token.span) after) : course.Meets (consumeIdentifier what) Q reader :=
  .bind (h.peek hasks fun token _ h hahead => h.name hahead (hread token) (hnext token))

/-- An identifier that has been seen. -/
theorem At.identifier_ahead {what : String} {next : State → String → Move}
    {Q : String × Span → Reader → Prop} (h : course.At credit (goal :: goals) reader)
    (hahead : reader.ahead = .ok token)
    (hread : ∀ state, goal.read token state = takeName token what (next state))
    (hnext : ∀ name after, token.span.Inside course.source →
      course.Pending (credit + 4) (next after.state name) goals after →
      Q (name, token.span) after) : course.Meets (consumeIdentifier what) Q reader :=
  .bind (h.peek_ahead hahead fun _ h hahead => h.name hahead hread hnext)

/-! ## What is written -/

theorem Meets.emitted {commands : List Vm.Command} {Q : Unit → Reader → Prop}
    (hpops : commands.any popsConstant = false) (h : Q () (reader.told (write commands))) :
    course.Meets (emit commands) Q reader := by
  unfold Descent.emit
  rw [hpops]
  exact h

theorem Meets.emit {commands : List Vm.Command} {Q : Unit → Reader → Prop}
    (hpops : commands.any popsConstant = false)
    (h : course.At credit (.emit commands :: goals) reader)
    (hnext : ∀ after, course.At credit goals after → Q () after) :
    course.Meets (emit commands) Q reader := .emitted hpops (hnext _ (Due.emit h))

/-- Commands can be written one after another. -/
theorem Due.emit_cons {command : Vm.Command} {commands : List Vm.Command}
    (h : course.Due credit (.emit (command :: commands) :: goals) state reader) :
    course.Due credit (.emit [command] :: .emit commands :: goals) state reader := by
  refine h.congr ?_
  rw [run_meet (step_emit ..), run_meet (step_emit ..), run_meet (step_emit ..)]
  simp [write]

theorem popsConstant_binary {s : Symbol} {command : Vm.Command}
    (h : binaryCommand? s = some command) : [command].any popsConstant = false := by
  cases s <;> cases h <;> rfl

/-- The operators that are pending have commands, which are written from the last one on. -/
theorem drain_meets {pending : List Symbol} {commands : List Vm.Command} {Q : Unit → Reader → Prop}
    (hcommands : pending.map binaryCommand? = commands.map some)
    (h : course.At credit (.emit commands :: goals) reader)
    (hnext : ∀ after, course.At credit goals after → Q () after) :
    course.Meets (drain pending) Q reader := by
  induction pending generalizing commands reader with
  | nil =>
    obtain rfl := List.map_eq_nil_iff.mp hcommands.symm
    exact hnext _ (Due.emit h)
  | cons s pending ih =>
    obtain ⟨command, commands, rfl, hcommand, hrest⟩ := List.map_eq_cons_iff.mp hcommands.symm
    refine .bind ?_
    rw [emitBinary, ← hcommand]
    exact .emit (popsConstant_binary hcommand.symm) h.emit_cons fun after h => ih hrest.symm h

/-! ## Variables -/

theorem Meets.locatedAt {result : Except Fault α} {span : Span}
    (hok : ∀ a, result = .ok a → Q a reader)
    (herror : ∀ fault, result = .error fault → course.Refused ⟨fault, span⟩ reader)
    (hinside : span.Inside course.source) :
    course.Meets (locatedAt span result) Q reader := by
  cases result with
  | ok a => exact .pure (hok a rfl)
  | error fault => exact .refuse (herror fault rfl) hinside

/-- A name that is known to be declared is looked up without its place. -/
theorem Meets.unlocated {result : Except Fault α} {a : α} (hresult : result = .ok a)
    (h : Q a reader) : course.Meets (unlocated result) Q reader := by
  rw [hresult]
  exact .pure h

theorem Meets.place {name : String} {span : Span} {Q : Vm.Segment × UInt16 → Reader → Prop}
    (hok : ∀ declared, reader.state.symbols.resolve name = .ok declared →
      Q (declared.storage.segment, declared.index) reader)
    (herror : ∀ fault, reader.state.symbols.resolve name = .error fault →
      course.Refused ⟨fault, span⟩ reader)
    (hinside : span.Inside course.source) : course.Meets (place name span) Q reader := by
  unfold Descent.place
  refine .bind (.getState ?_)
  cases hlookup : reader.state.symbols.lookup? name with
  | some declared =>
    have hresolve : reader.state.symbols.resolve name = .ok declared := by
      rw [SymbolTable.resolve, hlookup]
    rw [SymbolTable.storageOf?, hlookup]
    exact .bind (.unlocated (by rw [SymbolTable.indexOf, hresolve]; rfl)
      (.pure (hok declared hresolve)))
  | none =>
    rw [SymbolTable.storageOf?, hlookup]
    exact .refuse (herror _ (by rw [SymbolTable.resolve, hlookup])) hinside

theorem Pending.place {name : String} {span : Span} {next : Declaration → Move}
    {Q : Vm.Segment × UInt16 → Reader → Prop}
    (h : course.Pending credit (withVariable reader.state name span next) goals reader)
    (hinside : span.Inside course.source)
    (hnext : ∀ declared, course.Pending credit (next declared) goals reader →
      Q (declared.storage.segment, declared.index) reader) :
    course.Meets (place name span) Q reader := by
  refine .place (fun declared hresolve => hnext declared ?_) (fun fault hresolve => ?_) hinside
  · rwa [withVariable, hresolve] at h
  · rwa [withVariable, hresolve] at h

/-- A name that is taken is that of a variable to be declared. -/
theorem At.define {type : String} {storage : Storage} {what : String}
    {next : State → Move} {Q : Unit → Reader → Prop}
    (h : course.At credit (goal :: goals) reader) (hasks : Asks goal)
    (hread : ∀ token state, goal.read token state = takeName token what fun name =>
      Compile.declare state name type storage token.span next)
    (hnext : ∀ after, course.Pending (credit + 4) (next after.state) goals after → Q () after) :
    course.Meets (defineVariable type storage what) Q reader := by
  refine .bind (h.identifier hasks hread fun token _ after hinside h => ?_)
  refine .bind (.getState (.bind (.locatedAt (fun defined hdefine => ?_) (fun fault hdefine => ?_)
    hinside)))
  · rw [Compile.declare, hdefine] at h
    exact .setState (hnext _ (h.setState _))
  · rw [Compile.declare, hdefine] at h
    exact h

theorem assertFields_meets {Q : Unit → Reader → Prop} (h : course.At credit goals reader)
    (hnext : Q () reader) : course.Meets assertFields Q reader := by
  unfold assertFields
  refine .bind (.getState ?_)
  rw [if_pos (show reader.state.fieldCount = _ from h.fields)]
  exact .pure hnext

end

end Course

end JackCompiler.Descent
