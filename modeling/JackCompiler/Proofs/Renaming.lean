import JackCompiler.Proofs.Places
/-!
# What names have to do with a run

A run compares names and puts them into its output, and does nothing else with them. So with every
name replaced, each name always by the same other one and no two names by one, a run goes the same
way: it comes to its end exactly if the one before did, and then its events are those of the one
before with their names replaced (`run_rename`).
-/

namespace JackCompiler

/-! ## Replacing names -/

def Lexeme.rename (f : String → String) : Lexeme → Lexeme
  | identifier name => identifier (f name)
  | lexeme => lexeme

def Token.rename (f : String → String) (token : Token) : Token :=
  ⟨token.lexeme.rename f, token.span⟩

/-- Labels are no names of the source. -/
def Vm.Command.rename (f : String → String) : Vm.Command → Vm.Command
  | call name arguments => call (f name) arguments
  | function name locals => function (f name) locals
  | command => command

def Declaration.rename (f : String → String) (declared : Declaration) : Declaration :=
  { declared with name := f declared.name, type := f declared.type }

def SymbolTable.rename (f : String → String) (table : SymbolTable) : SymbolTable where
  classScope := table.classScope.map (·.rename f)
  subroutineScope := table.subroutineScope.map (·.rename f)

namespace Compile

def Header.rename (f : String → String) (header : Header) : Header :=
  { header with returnType := f header.returnType, name := f header.name }

def Event.rename (f : String → String) : Event → Event
  | write command => write (command.rename f)
  | subroutineDone header className arguments locals =>
    subroutineDone (header.rename f) (f className) arguments locals
  | classDone name fields => classDone (f name) fields

def State.rename (f : String → String) (state : State) : State :=
  { state with className := f state.className, symbols := state.symbols.rename f }

def Goal.rename (f : String → String) : Goal → Goal
  | emit commands => emit (commands.map (·.rename f))
  | subroutineDone header => subroutineDone (header.rename f)
  | variableName storage type => variableName storage (f type)
  | moreNames storage type => moreNames storage (f type)
  | subroutineName kind returnType => subroutineName kind (f returnType)
  | localVariables header => localVariables (header.rename f)
  | assignment declared => assignment (declared.rename f)
  | operators pending => operators (pending.map (·.rename f))
  | afterName name span => afterName (f name) span
  | callRest name => callRest (f name)
  | methodName receiver => methodName (f receiver)
  | callArguments callee count => callArguments (f callee) count
  | moreArguments callee count => moreArguments (f callee) count
  | goal => goal

/-- What becomes of a goal, with names replaced. Nothing is said of what is wrong with a token that
does not fit. -/
inductive Move.Renamed (f : String → String) : Move → Move → Prop
  | meet (events : List Event) (state : State) :
    Renamed f (.meet events state) (.meet (events.map (·.rename f)) (state.rename f))
  | take (events : List Event) (goals : List Goal) (state : State) :
    Renamed f (.take events goals state)
      (.take (events.map (·.rename f)) (goals.map (·.rename f)) (state.rename f))
  | refuse (diagnostic diagnostic' : Diagnostic) :
    Renamed f (.refuse diagnostic) (.refuse diagnostic')

/-- The subroutines of the operating system that compiled code calls. -/
def systemCallees : List String :=
  ["Memory.alloc", "Math.multiply", "Math.divide", "String.new", "String.appendChar"]

/-- A replacement of names that a run goes along with: it keeps names apart, replaces the parts of a
name with a dot one by one, and leaves alone what is the same in every source. -/
structure Renames (f : String → String) : Prop where
  injective : Function.Injective f
  dotted : ∀ a b, f (a ++ "." ++ b) = f a ++ "." ++ f b
  keyword : ∀ word : Keyword, f word.spelling = word.spelling
  empty : f "" = ""
  system : ∀ callee ∈ systemCallees, f callee = callee

end Compile

/-! ## Tables -/

namespace SymbolTable

variable {f : String → String} (table : SymbolTable)

theorem scope_rename (storage : Storage) :
    (table.rename f).scope storage = (table.scope storage).map (·.rename f) := by
  unfold scope
  split <;> rfl

theorem count_rename (storage : Storage) : (table.rename f).count storage = table.count storage := by
  unfold count
  rw [scope_rename, List.countP_map]
  rfl

/-- A name is found where it was before, as no other name has become the same. -/
theorem find?_rename (hf : Function.Injective f) (declared : List Declaration) (name : String) :
    (declared.map (·.rename f)).find? (·.name = f name) =
      (declared.find? (·.name = name)).map (·.rename f) := by
  rw [List.find?_map]
  congr 2
  funext d
  exact decide_eq_decide.mpr hf.eq_iff

theorem lookup?_rename (hf : Function.Injective f) (name : String) :
    (table.rename f).lookup? (f name) = (table.lookup? name).map (·.rename f) := by
  unfold lookup?
  rw [SymbolTable.rename, find?_rename hf, find?_rename hf, Option.map_or]

theorem define_rename (hf : Function.Injective f) (name type : String) (storage : Storage) :
    (∀ index after, table.define name type storage = .ok (index, after) →
      (table.rename f).define (f name) (f type) storage = .ok (index, after.rename f)) ∧
    (∀ fault, table.define name type storage = .error fault →
      (table.rename f).define (f name) (f type) storage = .error (.duplicateDefinition (f name))) := by
  have hany : ((table.rename f).scope storage).any (·.name = f name) =
      (table.scope storage).any (·.name = name) := by
    rw [scope_rename, List.any_map]
    congr 1
    funext d
    exact decide_eq_decide.mpr hf.eq_iff
  unfold define
  rw [hany, count_rename]
  split
  · exact ⟨nofun, fun _ _ => rfl⟩
  · refine ⟨fun index after h => ?_, fun fault h => ?_⟩
    · split at h <;> cases h
      · rename_i hclass
        rw [if_pos hclass]
        simp [SymbolTable.rename, Declaration.rename]
      · rename_i hclass
        rw [if_neg hclass]
        simp [SymbolTable.rename, Declaration.rename]
    · split at h <;> cases h

end SymbolTable

namespace Compile

open Vm (Command)

variable {f : String → String} {token : Token} {state : State}

/-! ## Commands -/

theorem write_rename (commands : List Command) :
    (write commands).map (·.rename f) = write (commands.map (·.rename f)) := by
  unfold write
  rw [List.map_map, List.map_map]
  rfl

/-- Commands are written with their names replaced. -/
theorem Move.Renamed.takeWrite (commands : List Command) (goals : List Goal) (state : State) :
    Renamed f (.take (write commands) goals state)
      (.take (write (commands.map (·.rename f))) (goals.map (·.rename f)) (state.rename f)) := by
  rw [← write_rename]
  exact .take _ _ _

theorem Move.Renamed.meetWrite (commands : List Command) (state : State) :
    Renamed f (.meet (write commands) state)
      (.meet (write (commands.map (·.rename f))) (state.rename f)) := by
  rw [← write_rename]
  exact .meet _ _

theorem constantCommands_rename {word : Keyword} {commands : List Command}
    (h : constantCommands? word = some commands) : commands.map (·.rename f) = commands := by
  cases word <;> cases h <;> rfl

theorem takeName_renamed {what : String} {next next' : String → Move}
    (h : ∀ name, (next name).Renamed f (next' (f name))) :
    (takeName token what next).Renamed f (takeName (token.rename f) what next') := by
  obtain ⟨lexeme, span⟩ := token
  cases lexeme with
  | identifier name => exact h name
  | keyword | symbol | integer | string | endOfFile => exact .refuse _ _

theorem notice_rename (header : Header) :
    (state.rename f).notice (header.rename f) = (state.notice header).rename f := by
  unfold State.notice State.rename
  dsimp only
  rw [SymbolTable.count_rename, SymbolTable.count_rename]
  rfl

theorem renamed_notice (header : Header) :
    Move.Renamed f (.meet [state.notice header] state)
      (.meet [(state.rename f).notice (header.rename f)] (state.rename f)) := by
  have hmove := Move.Renamed.meet (f := f) [state.notice header] state
  rwa [List.map_singleton, ← notice_rename] at hmove

section

variable (hf : Renames f)

include hf

theorem Renames.binaryCommand {symbol : Symbol} {command : Command}
    (h : binaryCommand? symbol = some command) : command.rename f = command := by
  have hmultiply := hf.system "Math.multiply" (by decide)
  have hdivide := hf.system "Math.divide" (by decide)
  cases symbol <;> cases h <;> simp [Command.rename, hmultiply, hdivide]

theorem Renames.stringCommands {contents : String} {commands : List Command}
    (h : stringCommands? contents = some commands) : commands.map (·.rename f) = commands := by
  have hnew := hf.system "String.new" (by decide)
  have happend := hf.system "String.appendChar" (by decide)
  unfold stringCommands? at h
  dsimp only at h
  split at h <;> cases h
  simp [Command.rename, hnew, happend, List.map_flatMap]

theorem Renames.prologue (kind : SubroutineKind) (fields : UInt16) :
    (Compile.prologue kind fields).map (·.rename f) = Compile.prologue kind fields := by
  have halloc := hf.system "Memory.alloc" (by decide)
  cases kind <;> simp [Compile.prologue, Command.rename, halloc]

/-- The types of the language are reserved words, so they stay as they are. -/
theorem Renames.typeName? (lexeme : Lexeme) :
    Compile.typeName? (lexeme.rename f) = (Compile.typeName? lexeme).map f := by
  cases lexeme with
  | keyword word =>
    have hword := hf.keyword word
    cases word <;> first | rfl | exact congrArg some hword.symm
  | symbol | integer | string | identifier | endOfFile => rfl

theorem Renames.qualify (state : State) (name : String) :
    (state.rename f).qualify (f name) = f (state.qualify name) :=
  (hf.dotted _ _).symm

/-! ## What becomes of a goal -/

theorem Renames.withVariable {name : String} {span : Span} {next next' : Declaration → Move}
    (h : ∀ declared, (next declared).Renamed f (next' (declared.rename f))) :
    (Compile.withVariable state name span next).Renamed f
      (Compile.withVariable (state.rename f) (f name) span next') := by
  have hlookup : (state.rename f).symbols.lookup? (f name) =
      (state.symbols.lookup? name).map (·.rename f) :=
    state.symbols.lookup?_rename hf.injective name
  unfold Compile.withVariable SymbolTable.resolve
  rw [hlookup]
  cases state.symbols.lookup? name with
  | some declared => exact h declared
  | none => exact .refuse _ _

theorem Renames.declare {name type : String} {storage : Storage} {span : Span}
    {next next' : State → Move}
    (h : ∀ state : State, (next state).Renamed f (next' (state.rename f))) :
    (Compile.declare state name type storage span next).Renamed f
      (Compile.declare (state.rename f) (f name) (f type) storage span next') := by
  obtain ⟨hok, herror⟩ := state.symbols.define_rename hf.injective name type storage
  unfold Compile.declare
  cases hdefine : state.symbols.define name type storage with
  | ok result =>
    obtain ⟨index, after⟩ := result
    have hrenamed : (state.rename f).symbols.define (f name) (f type) storage =
        .ok (index, after.rename f) := hok index after hdefine
    rw [hrenamed]
    exact h { state with symbols := after }
  | error fault =>
    have hrenamed : (state.rename f).symbols.define (f name) (f type) storage =
        .error (.duplicateDefinition (f name)) := herror fault hdefine
    rw [hrenamed]
    exact .refuse _ _

theorem Renames.takeType {storage : Storage} :
    (Compile.takeType token storage state).Renamed f
      (Compile.takeType (token.rename f) storage (state.rename f)) := by
  unfold Compile.takeType
  rw [Token.rename, hf.typeName?]
  cases Compile.typeName? token.lexeme with
  | some type => exact .take _ _ _
  | none => exact .refuse _ _

theorem Renames.takeTerm (token : Token) (state : State) (after : List Goal) :
    (Compile.takeTerm token state after).Renamed f
      (Compile.takeTerm (token.rename f) (state.rename f) (after.map (·.rename f))) := by
  obtain ⟨lexeme, span⟩ := token
  cases lexeme with
  | integer digits => exact .takeWrite _ _ _
  | string contents =>
    simp only [Compile.takeTerm, Token.rename, Lexeme.rename]
    cases hcommands : stringCommands? contents with
    | some commands =>
      have hmove := Move.Renamed.takeWrite (f := f) commands after state
      rwa [hf.stringCommands hcommands] at hmove
    | none => exact .refuse _ _
  | keyword word =>
    simp only [Compile.takeTerm, Token.rename, Lexeme.rename]
    cases hcommands : constantCommands? word with
    | some commands =>
      have hmove := Move.Renamed.takeWrite (f := f) commands after state
      rwa [constantCommands_rename hcommands] at hmove
    | none => exact .refuse _ _
  | symbol symbol => cases symbol <;> first | exact .take _ _ _ | exact .refuse _ _
  | identifier name => exact .take _ _ _
  | endOfFile => exact .refuse _ _

theorem Renames.takeCall (token : Token) (state : State) (name : String) :
    (Compile.takeCall token name state).Renamed f
      (Compile.takeCall (token.rename f) (f name) (state.rename f)) := by
  have hcallee := hf.qualify state name
  obtain ⟨lexeme, span⟩ := token
  cases lexeme with
  | symbol symbol =>
    cases symbol with
    | leftParen =>
      simp only [Compile.takeCall, Token.rename, Lexeme.rename, hcallee]
      exact .takeWrite _ _ _
    | dot => exact .take _ _ _
    | _ => exact .refuse _ _
  | keyword | integer | string | identifier | endOfFile => exact .refuse _ _

theorem Renames.entry (header : Header) :
    (Command.function ((state.rename f).qualify (f header.name))
        ((state.rename f).symbols.count .local) :: Compile.prologue header.kind state.fieldCount) =
      (Command.function (state.qualify header.name) (state.symbols.count .local) ::
        Compile.prologue header.kind state.fieldCount).map (·.rename f) := by
  have hcount : (state.rename f).symbols.count .local = state.symbols.count .local :=
    state.symbols.count_rename .local
  rw [List.map_cons, hf.prologue, hf.qualify, hcount]
  rfl

theorem Renames.read_resultType (kind : SubroutineKind) :
    ((Goal.resultType kind).read token state).Renamed f
      ((Goal.resultType kind).read (token.rename f) (state.rename f)) := by
  obtain ⟨lexeme, place⟩ := token
  cases lexeme with
  | keyword word =>
    have hword := hf.keyword word
    have hmove := Move.Renamed.take (f := f) [] [.subroutineName kind word.spelling] state
    simp only [List.map_cons, List.map_nil, Goal.rename, hword] at hmove
    cases word <;> first | exact hmove | exact .refuse _ _
  | identifier name => exact .take _ _ _
  | symbol | integer | string | endOfFile => exact .refuse _ _

theorem Renames.read_subroutineName (kind : SubroutineKind) (returnType : String) :
    ((Goal.subroutineName kind returnType).read token state).Renamed f
      ((Goal.subroutineName kind (f returnType)).read (token.rename f) (state.rename f)) := by
  refine takeName_renamed fun name => ?_
  cases kind with
  | constructor | function => exact .take _ _ _
  | method =>
    have hthis : f "this" = "this" := hf.keyword .this
    have hmove := @Renames.declare f
      { state with symbols := state.symbols.startSubroutine, ifCount := 0, whileCount := 0 }
      hf "this" state.className .argument token.span _ _ fun state => Move.Renamed.take (f := f) []
        [.expect (.symbol .leftParen), .parameters, .expect (.symbol .rightParen),
          .expect (.symbol .leftBrace), .localVariables ⟨.method, returnType, name⟩, .statements,
          .closeBlock, .subroutineDone ⟨.method, returnType, name⟩] state
    rwa [hthis] at hmove

theorem Renames.read_localVariables (header : Header) :
    ((Goal.localVariables header).read token state).Renamed f
      ((Goal.localVariables (header.rename f)).read (token.rename f) (state.rename f)) := by
  have hmove := Move.Renamed.meetWrite (f := f)
    (.function (state.qualify header.name) (state.symbols.count .local) ::
      Compile.prologue header.kind state.fieldCount) state
  rw [← hf.entry] at hmove
  obtain ⟨lexeme, place⟩ := token
  cases lexeme with
  | keyword word =>
    cases word with
    | var => exact .take _ _ _
    | _ => exact hmove
  | symbol | integer | string | identifier | endOfFile => exact hmove

theorem Renames.read_operators (pending : List Command) :
    ((Goal.operators pending).read token state).Renamed f
      ((Goal.operators (pending.map (·.rename f))).read (token.rename f) (state.rename f)) := by
  obtain ⟨lexeme, place⟩ := token
  cases lexeme with
  | symbol symbol =>
    simp only [Goal.read, Token.rename, Lexeme.rename]
    cases hcommand : binaryCommand? symbol with
    | some command =>
      have hmove := Move.Renamed.take (f := f) [] [.term, .operators (command :: pending)] state
      simpa only [List.map_cons, List.map_nil, Goal.rename, hf.binaryCommand hcommand] using hmove
    | none => exact .meetWrite _ _
  | keyword | integer | string | identifier | endOfFile => exact .meetWrite _ _

theorem Renames.read_afterName (name : String) (span : Span) :
    ((Goal.afterName name span).read token state).Renamed f
      ((Goal.afterName (f name) span).read (token.rename f) (state.rename f)) := by
  have hcall := hf.takeCall token state name
  have hvalue : (Compile.withVariable state name span fun declared =>
      .meet (write [declared.push]) state).Renamed f
        (Compile.withVariable (state.rename f) (f name) span fun declared =>
          .meet (write [declared.push]) (state.rename f)) :=
    hf.withVariable fun declared => .meetWrite _ _
  obtain ⟨lexeme, place⟩ := token
  cases lexeme with
  | symbol symbol =>
    cases symbol with
    | leftBracket => exact hf.withVariable fun declared => .takeWrite _ _ _
    | dot | leftParen => exact hcall
    | _ => exact hvalue
  | keyword | integer | string | identifier | endOfFile => exact hvalue

theorem Renames.read_methodName (receiver : String) :
    ((Goal.methodName receiver).read token state).Renamed f
      ((Goal.methodName (f receiver)).read (token.rename f) (state.rename f)) := by
  refine takeName_renamed fun name => ?_
  have hlookup : (state.rename f).symbols.lookup? (f receiver) =
      (state.symbols.lookup? receiver).map (·.rename f) :=
    state.symbols.lookup?_rename hf.injective receiver
  rw [hlookup]
  cases state.symbols.lookup? receiver with
  | some declared =>
    change Move.Renamed f _ (.take _ [_, .callArguments (f declared.type ++ "." ++ f name) 1] _)
    rw [← hf.dotted]
    exact .takeWrite [declared.push] _ _
  | none =>
    change Move.Renamed f _ (.take _ [_, .callArguments (f receiver ++ "." ++ f name) 0] _)
    rw [← hf.dotted]
    exact .take _ _ _

/-- With names replaced, the same becomes of a goal. -/
theorem Renames.read (token : Token) (state : State) (goal : Goal) :
    (goal.read token state).Renamed f
      ((goal.rename f).read (token.rename f) (state.rename f)) := by
  cases goal with
  | emit commands => exact .meetWrite _ _
  | term => exact hf.takeTerm token state []
  | callRest name => exact hf.takeCall token state name
  | variableType storage => exact hf.takeType
  | resultType kind => exact hf.read_resultType kind
  | subroutineName kind returnType => exact hf.read_subroutineName kind returnType
  | localVariables header => exact hf.read_localVariables header
  | operators pending => exact hf.read_operators pending
  | afterName name span => exact hf.read_afterName name span
  | methodName receiver => exact hf.read_methodName receiver
  | subroutineDone header => exact renamed_notice header
  | expect kind =>
    have hkind : (token.rename f).kind = token.kind := by
      obtain ⟨lexeme, span⟩ := token
      cases lexeme <;> rfl
    simp only [Goal.rename, Goal.read, hkind]
    split
    · exact .take _ _ _
    · exact .refuse _ _
  | className => exact takeName_renamed fun name => .take _ _ _
  | variableName storage type =>
    refine takeName_renamed fun name => hf.declare fun state => ?_
    cases storage <;> exact .take _ _ _
  | target => exact takeName_renamed fun name => hf.withVariable fun declared => .take _ _ _
  | doCall => exact takeName_renamed fun name => .take _ _ _
  | parameters =>
    have htype : (Compile.takeType token .argument state).Renamed f
        (Compile.takeType (token.rename f) .argument (state.rename f)) := hf.takeType
    obtain ⟨lexeme, place⟩ := token
    cases lexeme with
    | symbol symbol => cases symbol <;> first | exact .meet _ _ | exact htype
    | keyword | integer | string | identifier | endOfFile => exact htype
  | returnValue =>
    have hterm := hf.takeTerm token state
      [.operators [], .expect (.symbol .semicolon), .emit [.return]]
    obtain ⟨lexeme, place⟩ := token
    cases lexeme with
    | symbol symbol => cases symbol <;> first | exact .takeWrite _ _ _ | exact hterm
    | keyword | integer | string | identifier | endOfFile => exact hterm
  | callArguments callee count =>
    have hterm := hf.takeTerm token state
      [.operators [], .moreArguments callee (count + 1)]
    obtain ⟨lexeme, place⟩ := token
    cases lexeme with
    | symbol symbol => cases symbol <;> first | exact .takeWrite _ _ _ | exact hterm
    | keyword | integer | string | identifier | endOfFile => exact hterm
  | classVariables | moreNames | subroutines | moreParameters | statements | closeBlock |
      assignment | elseBranch | moreArguments | endOfFile =>
    obtain ⟨lexeme, place⟩ := token
    cases lexeme with
    | keyword word =>
      cases word <;> first | exact .take _ _ _ | exact .meet _ _ | exact .refuse _ _
    | symbol symbol =>
      cases symbol <;> first | exact .take _ _ _ | exact .meet _ _ | exact .refuse _ _
    | integer | string | identifier | endOfFile =>
      first | exact .take _ _ _ | exact .meet _ _ | exact .refuse _ _

theorem Renames.step (state : State) (goal : Goal) (ahead : Except Diagnostic Token) :
    (goal.step ahead state).Renamed f
      ((goal.rename f).step (ahead.map (·.rename f)) (state.rename f)) := by
  cases ahead with
  | ok token => exact hf.read token state goal
  | error diagnostic =>
    cases goal with
    | emit commands => exact .meetWrite _ _
    | subroutineDone header => exact renamed_notice header
    | _ => exact .refuse _ _

end

/-! ## Runs -/

theorem Move.Renamed.of_meet {events : List Event} {move : Move}
    (h : Renamed f (.meet events state) move) :
    move = .meet (events.map (·.rename f)) (state.rename f) := by
  cases h
  rfl

theorem Move.Renamed.of_take {events : List Event} {goals : List Goal} {move : Move}
    (h : Renamed f (.take events goals state) move) :
    move = .take (events.map (·.rename f)) (goals.map (·.rename f)) (state.rename f) := by
  cases h
  rfl

theorem Move.Renamed.of_refuse {diagnostic : Diagnostic} {move : Move}
    (h : Renamed f (.refuse diagnostic) move) : ∃ diagnostic', move = .refuse diagnostic' := by
  cases h with
  | refuse _ diagnostic' => exact ⟨diagnostic', rfl⟩

/-- What a run ends with, with names replaced. -/
inductive Result.Renamed (f : String → String) : Result → Result → Prop
  | ended (done : List Event) (state : State) :
    Renamed f (done, .ok state) (done.map (·.rename f), .ok (state.rename f))
  | failed (done done' : List Event) (diagnostic diagnostic' : Diagnostic) :
    Renamed f (done, .error diagnostic) (done', .error diagnostic')

theorem ahead_rename (stop : Except Diagnostic Token) (tokens : List Token) :
    ahead (stop.map (·.rename f)) (tokens.map (·.rename f)) =
      (ahead stop tokens).map (·.rename f) := by
  cases tokens <;> rfl

theorem events_rename (events done : List Event) :
    (events.reverse ++ done).map (·.rename f) =
      (events.map (·.rename f)).reverse ++ done.map (·.rename f) := by
  rw [List.map_append, List.map_reverse]

/-- A run over tokens with their names replaced goes the same way. -/
theorem run_rename (hf : Renames f) (stop : Except Diagnostic Token) (done : List Event)
    (tokens : List Token) (goals : List Goal) (state : State) :
    Result.Renamed f (run stop done tokens goals state)
      (run (stop.map (·.rename f)) (done.map (·.rename f)) (tokens.map (·.rename f))
        (goals.map (·.rename f)) (state.rename f)) := by
  refine run_induction stop
    (motive := fun done tokens goals state result => Result.Renamed f result
      (run (stop.map (·.rename f)) (done.map (·.rename f)) (tokens.map (·.rename f))
        (goals.map (·.rename f)) (state.rename f)))
    ?finish ?meet ?take ?exhaust ?refuse done tokens goals state
  case finish =>
    intro done tokens state
    rw [List.map_nil, run_nil]
    exact .ended done state
  case meet =>
    intro done tokens goal goals state events after result hstep ih
    have h := hf.step state goal (ahead stop tokens)
    rw [hstep, ← ahead_rename] at h
    rw [List.map_cons, run_meet h.of_meet, ← events_rename]
    exact ih
  case take =>
    intro done token tokens goal goals state events more after result hread ih
    have h := hf.read token state goal
    rw [hread] at h
    rw [List.map_cons, List.map_cons, run_take h.of_take, ← events_rename, ← List.map_append]
    exact ih
  case exhaust =>
    intro done goal goals state events more after hstep
    have h := hf.step state goal stop
    rw [hstep] at h
    rw [List.map_cons, run_cons, List.map_nil, ahead, h.of_take]
    exact .failed _ _ _ _
  case refuse =>
    intro done tokens goal goals state diagnostic hstep
    have h := hf.step state goal (ahead stop tokens)
    rw [hstep, ← ahead_rename] at h
    obtain ⟨diagnostic', hrefuse⟩ := h.of_refuse
    rw [List.map_cons, run_refuse hrefuse]
    exact .failed _ _ _ _

end Compile

end JackCompiler
