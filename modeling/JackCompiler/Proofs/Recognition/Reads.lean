import JackCompiler.Proofs.Places
import JackCompiler.Proofs.Translation
/-!
# Goals that read a text

Where goals meet the lexemes they stand for, the run goes on behind them with what they tell
(`GoesOn`). Only two things can stop it: a name that is used without being declared or declared
twice, and a string constant that cannot be built. `Reads` says this of goals and a text whatever
comes before and after, so that texts read one after another are read together (`Reads.append`).
-/

namespace JackCompiler.Compile

open Syntax

/-- Names mean in a state what they mean in a scope, with the numbers in 16 bits. -/
structure State.In (state : State) (scope : Scope) : Prop where
  className : state.className = scope.className
  symbols : state.symbols = scope.symbols

theorem State.In.lookup? {state : State} {scope : Scope} (h : state.In scope) (name : String) :
    state.symbols.lookup? name = (scope.lookup? name).map (·.declaration) := by
  rw [h.symbols, scope.symbols_lookup?]

/-- The events of writing commands in 16 bits. -/
def emitted (commands : List Vm.Command) : List Event := write (commands.map (·.wrap))

/-! ## One run going on as another -/

/-- A run that ends at a name that is not declared, or declared twice. -/
def ScopeFault (result : Result) : Prop :=
  ∃ diagnostic name, result.2 = .error diagnostic ∧
    (diagnostic.fault = .undefinedSymbol name ∨ diagnostic.fault = .duplicateDefinition name)

/-- A run that ends at a string constant that cannot be built. -/
def StringFault (result : Result) : Prop :=
  ∃ diagnostic found, result.2 = .error diagnostic ∧
    diagnostic.fault = .unexpected "a string of at most 32767 characters below U+8000" found

/-- A run ends as another does if its names are in order and its string constants can be built, and
else at one that is not or cannot. -/
inductive GoesOn (named fit : Prop) (result result' : Result) : Prop
  | same (h : result = result') (hn : named) (hf : fit)
  | misnamed (h : ScopeFault result) (hn : ¬named)
  | unfit (h : StringFault result) (hf : ¬fit)

namespace GoesOn

variable {named named' fit fit' : Prop} {a b c : Result}

theorem refl (a : Result) : GoesOn True True a a := .same rfl trivial trivial

theorem trans (h : GoesOn named fit a b) (h' : GoesOn named' fit' b c) :
    GoesOn (named ∧ named') (fit ∧ fit') a c := by
  -- a fault in the first part is one of the whole, whatever the second would have been
  cases h with
  | same h hn hf =>
    subst h
    cases h' with
    | same h' hn' hf' => exact .same h' ⟨hn, hn'⟩ ⟨hf, hf'⟩
    | misnamed h' hn' => exact .misnamed h' fun h => hn' h.2
    | unfit h' hf' => exact .unfit h' fun h => hf' h.2
  | misnamed h hn => exact .misnamed h fun h => hn h.1
  | unfit h hf => exact .unfit h fun h => hf h.1

theorem congr (h : GoesOn named fit a b) (hn : named ↔ named') (hf : fit ↔ fit') :
    GoesOn named' fit' a b := by
  rwa [hn, hf] at h

end GoesOn

/-! ## Goals reading a text -/

/-- From `state`, the goals read the text, tell the events and leave `state'`, if what is left of
the source satisfies `next`. -/
def Reads (named fit : Prop) (state : State) (goals : List Goal) (text : List Lexeme)
    (events : List Event) (state' : State) (next : List Lexeme → Prop) : Prop :=
  ∀ stop done rest after, next rest →
    GoesOn named fit (run stop done (unplaced (text ++ rest)) (goals ++ after) state)
      (run stop (events.reverse ++ done) (unplaced rest) after state')

/-- Whatever follows. -/
def anything : List Lexeme → Prop := fun _ => True

@[simp]
theorem write_nil : write [] = [] := rfl

@[simp]
theorem write_append (a b : List Vm.Command) : write (a ++ b) = write a ++ write b :=
  List.map_append

@[simp]
theorem write_cons (command : Vm.Command) (commands : List Vm.Command) :
    write (command :: commands) = .write command :: write commands := rfl

@[simp]
theorem emitted_nil : emitted [] = [] := rfl

@[simp]
theorem emitted_append (a b : List Vm.Command) : emitted (a ++ b) = emitted a ++ emitted b := by
  simp [emitted]

@[simp]
theorem emitted_cons (command : Vm.Command) (commands : List Vm.Command) :
    emitted (command :: commands) = .write command.wrap :: emitted commands := rfl

@[simp]
theorem unplaced_append (a b : List Lexeme) : unplaced (a ++ b) = unplaced a ++ unplaced b :=
  List.map_append

theorem step_emit (commands : List Vm.Command) (ahead : Except Diagnostic Token) (state : State) :
    (Goal.emit commands).step ahead state = .meet (write commands) state := by
  cases ahead <;> rfl

theorem withVariable_some {state : State} {name : String} {span : Span} {declared : Declaration}
    {next : Declaration → Move} (h : state.symbols.lookup? name = some declared) :
    withVariable state name span next = next declared := by
  simp [withVariable, SymbolTable.resolve, h]

theorem withVariable_none {state : State} {name : String} {span : Span} {next : Declaration → Move}
    (h : state.symbols.lookup? name = none) :
    withVariable state name span next = .refuse ⟨.undefinedSymbol name, span⟩ := by
  simp [withVariable, SymbolTable.resolve, h]

theorem read_expect {kind : TokenKind} {token : Token} {state : State} (h : token.kind = kind) :
    (Goal.expect kind).read token state = .take [] [] state := if_pos h

namespace Reads

variable {named named' fit fit' : Prop} {s s' s'' : State} {goal : Goal} {goals goals' : List Goal}
  {text text' : List Lexeme} {events events' : List Event} {next next' : List Lexeme → Prop}

/-- One text after another. -/
theorem append (h : Reads named fit s goals text events s' next)
    (h' : Reads named' fit' s' goals' text' events' s'' next')
    (hnext : ∀ rest, next' rest → next (text' ++ rest)) :
    Reads (named ∧ named') (fit ∧ fit') s (goals ++ goals') (text ++ text') (events ++ events') s''
      next' := by
  intro stop done rest after hrest
  have h1 := h stop done (text' ++ rest) (goals' ++ after) (hnext rest hrest)
  have h2 := h' stop (events.reverse ++ done) rest after hrest
  simpa using h1.trans h2

/-- One text after another, if the first reads on whatever follows. -/
theorem seq (h : Reads named fit s goals text events s' anything)
    (h' : Reads named' fit' s' goals' text' events' s'' next') :
    Reads (named ∧ named') (fit ∧ fit') s (goals ++ goals') (text ++ text') (events ++ events') s''
      next' := h.append h' fun _ _ => trivial

theorem congr (h : Reads named fit s goals text events s' next) (hn : named ↔ named')
    (hf : fit ↔ fit') : Reads named' fit' s goals text events s' next :=
  fun stop done rest after hrest => (h stop done rest after hrest).congr hn hf

theorem of_eq (h : Reads named fit s goals text events s' next) (hn : named ↔ named')
    (hf : fit ↔ fit') (ht : text = text') (he : events = events') :
    Reads named' fit' s goals text' events' s' next := by
  subst ht he
  exact h.congr hn hf

theorem weaken (h : Reads named fit s goals text events s' next)
    (hnext : ∀ rest, next' rest → next rest) : Reads named fit s goals text events s' next' :=
  fun stop done rest after hrest => h stop done rest after (hnext rest hrest)

/-- What reads on whatever follows reads on where something may not follow. -/
theorem ends (h : Reads named fit s goals text events s' anything) :
    Reads named fit s goals text events s' next := h.weaken fun _ _ => trivial

theorem meet (h : ∀ stop rest, next rest →
      goal.step (ahead stop (unplaced rest)) s = .meet events s') :
    Reads True True s [goal] [] events s' next := by
  intro stop done rest after hrest
  rw [List.nil_append, List.singleton_append, run_meet (h stop rest hrest)]
  exact .refl _

/-- A goal that is met by what is ahead goes on as if it had not been there. -/
theorem meet_next {allowed : Lexeme → Bool}
    (h : ∀ lexeme, allowed lexeme = true → goal.read ⟨lexeme, default⟩ s = .meet events s') :
    Reads True True s [goal] [] events s' fun rest => rest.head?.any allowed := by
  refine meet fun stop rest hrest => ?_
  cases rest with
  | nil => cases hrest
  | cons lexeme rest => exact h lexeme hrest

theorem emit (commands : List Vm.Command) :
    Reads True True s [.emit commands] [] (write commands) s anything :=
  meet fun _ _ _ => step_emit ..

/-- A token is taken, and the goals left of the goal read on. -/
theorem take {lexeme : Lexeme} (hread : goal.read ⟨lexeme, default⟩ s = .take events goals s')
    (h : Reads named fit s' goals text events' s'' next) :
    Reads named fit s [goal] (lexeme :: text) (events ++ events') s'' next := by
  intro stop done rest after hrest
  have h1 := h stop (events.reverse ++ done) rest after hrest
  rw [List.cons_append, unplaced_cons, List.singleton_append, run_take hread]
  simpa using h1

theorem nil : Reads True True s [] [] [] s anything := fun _ _ _ _ _ => .refl _

theorem symbol (symbol : Symbol) :
    Reads True True s [.expect (.symbol symbol)] [.symbol symbol] [] s anything :=
  take (read_expect rfl) nil

theorem keyword (word : Keyword) :
    Reads True True s [.expect (.keyword word)] [.keyword word] [] s anything :=
  take (read_expect rfl) nil

theorem closeBlock : Reads True True s [.closeBlock] [.symbol .rightBrace] [] s anything :=
  @take True True s s s .closeBlock [] [] [] [] anything _ rfl nil

/-- A goal that needs a variable reads on if the variable is declared. -/
theorem lookup {lexeme : Lexeme} {name : String} {span : Span} {move : Declaration → Move}
    (hread : goal.read ⟨lexeme, default⟩ s = withVariable s name span move)
    (h : ∀ declared, s.symbols.lookup? name = some declared →
      Reads named fit s (goal :: goals) (lexeme :: text) events s' next) :
    Reads ((s.symbols.lookup? name).isSome ∧ named) fit s (goal :: goals) (lexeme :: text) events
      s' next := by
  intro stop done rest after hrest
  cases hd : s.symbols.lookup? name with
  | none =>
    rw [withVariable_none hd] at hread
    refine .misnamed ?_ (by simp)
    rw [List.cons_append, List.cons_append, unplaced_cons, run_refuse_token hread]
    exact ⟨_, name, rfl, .inl rfl⟩
  | some declared => exact (h declared hd stop done rest after hrest).congr (by simp) .rfl

end Reads

end JackCompiler.Compile
