import JackCompiler.Proofs.Acceptance
/-!
# The size of an instance

The fields of a class are counted beside the symbol table. A step either leaves what is known of the
class alone or declares one variable there (`read_settles`), so the count is that of the table
wherever a run comes (`Comes.counted`), and both are final once no goal is left that declares
variables of the class (`Comes.unchanged`). So they are where the subroutines begin
(`fields_final`).
-/

namespace JackCompiler

/-- Declaring a variable of the class adds it to the class scope, and any other leaves it alone. -/
theorem SymbolTable.define_classScope {table after : SymbolTable} {name type : String}
    {storage : Storage} {index : UInt16} (h : table.define name type storage = .ok (index, after)) :
    after.classScope = table.classScope ++
      if storage.isClassScope then [⟨name, type, storage, index⟩] else [] := by
  unfold define at h
  split at h
  · cases h
  · dsimp only at h
    split at h
    · cases h
      rw [if_pos ‹_›]
    · cases h
      rw [if_neg ‹_›, List.append_nil]

namespace Compile

variable {stop : Except Diagnostic Token} {goal : Goal} {goals : List Goal} {token : Token}
  {state after : State}

/-- A goal that can declare a variable of the class. -/
def Goal.ofClass : Goal → Bool
  | .classVariables => true
  | .variableType storage | .variableName storage _ | .moreNames storage _ => storage.isClassScope
  | _ => false

/-- As many fields are counted as are declared, both in 16 bits. -/
def State.Counted (state : State) : Prop := state.fieldCount = state.symbols.count .field

theorem counted_empty : State.Counted {} := rfl

/-! ## Steps -/

/-- What a step does to what is known of the class. -/
inductive Settles (goal : Goal) (state after : State) : Prop
  | same (hscope : after.symbols.classScope = state.symbols.classScope)
    (hfields : after.fieldCount = state.fieldCount)
  | declared (declared : Declaration) (hclass : goal.ofClass = true)
    (hscope : after.symbols.classScope = state.symbols.classScope ++ [declared])
    (hfields : after.fieldCount =
      state.fieldCount + if declared.storage = .field then 1 else 0)

theorem Settles.counted (h : Settles goal state after) (hs : state.Counted) : after.Counted := by
  have hcount (state : State) :
      state.symbols.count .field =
        .ofNat (state.symbols.classScope.countP (·.storage = .field)) := rfl
  rw [State.Counted, hcount] at hs ⊢
  cases h with
  | same hscope hfields => rw [hscope, hfields, hs]
  | declared declared _ hscope hfields =>
    rw [hscope, hfields, hs, List.countP_append, List.countP_singleton, UInt16.ofNat_add]
    by_cases hfield : declared.storage = .field <;> simp [hfield]

theorem Settles.unchanged (h : Settles goal state after) (hgoal : goal.ofClass = false) :
    after.symbols.classScope = state.symbols.classScope ∧ after.fieldCount = state.fieldCount := by
  cases h with
  | same hscope hfields => exact ⟨hscope, hfields⟩
  | declared _ hclass => rw [hgoal] at hclass; cases hclass

/-- A variable that is declared is counted if it is a field. -/
theorem settles_define {name type type' : String} {storage : Storage} {index : UInt16}
    {symbols : SymbolTable} (h : state.symbols.define name type storage = .ok (index, symbols)) :
    Settles (.variableName storage type') state
      (State.countField { state with symbols } storage) := by
  have hscope := SymbolTable.define_classScope h
  cases storage with
  | static => exact .declared ⟨name, type, .static, index⟩ rfl hscope (UInt16.add_zero _).symm
  | field => exact .declared ⟨name, type, .field, index⟩ rfl hscope rfl
  | argument | «local» => exact .same (hscope.trans (List.append_nil _)) rfl

/-- A move does to what is known of the class what its goal can, and if that is nothing, the goals
it leaves cannot do more. -/
def Move.Settles (goal : Goal) (state : State) : Move → Prop
  | .meet _ after => Compile.Settles goal state after
  | .take _ more after => Compile.Settles goal state after ∧
      (goal.ofClass = false → ∀ g ∈ more, g.ofClass = false)
  | .refuse _ => True

theorem settles_meet {events : List Event} : (Move.meet events state).Settles goal state :=
  .same rfl rfl

theorem settles_take {events : List Event} {more : List Goal}
    (h : ∀ g ∈ more, g.ofClass = false) : (Move.take events more state).Settles goal state :=
  ⟨.same rfl rfl, fun _ => h⟩

theorem ofClass_expression : ∀ g ∈ expression, g.ofClass = false := by decide

theorem settles_takeTerm {left : List Goal} (h : ∀ g ∈ left, g.ofClass = false) :
    (takeTerm token state left).Settles goal state := by
  have hcons (g : Goal) (hg : g.ofClass = false) : ∀ g' ∈ g :: left, g'.ofClass = false :=
    List.forall_mem_cons.mpr ⟨hg, h⟩
  refine takeTerm_elim (fun _ => trivial) ?integer ?string ?constant ?group ?unary ?name
  case integer => exact fun _ _ => settles_take h
  case string | constant => exact fun _ _ _ _ => settles_take h
  case group =>
    exact fun _ => settles_take (List.forall_mem_append.mpr ⟨ofClass_expression, hcons _ rfl⟩)
  case unary =>
    exact fun _ _ _ _ => settles_take (List.forall_mem_cons.mpr ⟨rfl, hcons _ rfl⟩)
  case name => exact fun _ _ => settles_take (hcons _ rfl)

theorem settles_takeCall {name : String} : (takeCall token name state).Settles goal state := by
  refine takeCall_elim trivial (fun _ => ?_) fun _ => ?_
  · exact settles_take (List.forall_mem_singleton.mpr rfl)
  · exact settles_take (List.forall_mem_singleton.mpr rfl)

theorem read_settles (goal : Goal) (token : Token) (state : State) :
    (goal.read token state).Settles goal state := by
  have hrest : ∀ g ∈ [Goal.operators [], .expect (.symbol .semicolon), .emit [.return]],
      g.ofClass = false := by decide
  cases goal <;> simp only [Goal.read]
  case emit | subroutineDone => exact settles_meet
  case className =>
    exact takeName_elim trivial fun name _ => ⟨.same rfl rfl, fun _ => List.forall_mem_nil _⟩
  case classVariables =>
    split
    · exact ⟨.same rfl rfl, fun h => by cases h⟩
    · exact ⟨.same rfl rfl, fun h => by cases h⟩
    · exact settles_meet
  case variableType storage =>
    exact takeType_elim trivial fun type _ =>
      ⟨.same rfl rfl, fun h => List.forall_mem_singleton.mpr h⟩
  case variableName storage type =>
    refine takeName_elim trivial fun name _ =>
      declare_elim (fun _ => trivial) fun index symbols hdefine => ?_
    refine ⟨settles_define hdefine, fun h => List.forall_mem_singleton.mpr ?_⟩
    split
    · rfl
    · exact h
  case moreNames storage type =>
    split
    · exact ⟨.same rfl rfl, fun h => List.forall_mem_singleton.mpr h⟩
    · exact settles_meet
  case subroutineName kind returnType =>
    refine takeName_elim trivial fun name _ => ?_
    cases kind with
    | method =>
      refine declare_elim (fun _ => trivial) fun index symbols hdefine => ?_
      have hscope := SymbolTable.define_classScope hdefine
      exact ⟨.same (hscope.trans (List.append_nil _)) rfl, fun _ => by simp [Goal.ofClass]⟩
    | constructor | function => exact ⟨.same rfl rfl, fun _ => by simp [Goal.ofClass]⟩
  case parameters =>
    split
    · exact settles_meet
    · exact takeType_elim trivial fun type _ => settles_take (List.forall_mem_singleton.mpr rfl)
  case statements =>
    split
    case h_3 | h_4 => exact ⟨.same rfl rfl, fun _ => by simp [expression, Goal.ofClass]⟩
    case h_6 => exact settles_meet
    all_goals exact settles_take (by simp [Goal.ofClass])
  case target =>
    refine takeName_elim trivial fun name _ => withVariable_elim trivial fun declared => ?_
    exact settles_take (List.forall_mem_singleton.mpr rfl)
  case doCall =>
    exact takeName_elim trivial fun name _ => settles_take (by simp [Goal.ofClass])
  case returnValue =>
    split
    · exact settles_take (List.forall_mem_nil _)
    · exact settles_takeTerm hrest
  case term => exact settles_takeTerm (List.forall_mem_nil _)
  case afterName name span =>
    split
    · refine withVariable_elim trivial fun declared => settles_take ?_
      exact List.forall_mem_append.mpr ⟨ofClass_expression, by simp [Goal.ofClass]⟩
    · exact settles_takeCall
    · exact settles_takeCall
    · exact withVariable_elim trivial fun declared => settles_meet
  case callRest name => exact settles_takeCall
  case methodName receiver =>
    refine takeName_elim trivial fun name _ => ?_
    split <;> exact settles_take (by simp [Goal.ofClass])
  case callArguments callee count =>
    split
    · exact settles_take (List.forall_mem_nil _)
    · exact settles_takeTerm (by simp [Goal.ofClass])
  all_goals
    repeat' split
    all_goals first
      | exact settles_meet
      | exact settles_take (by simp [expression, Goal.ofClass, Storage.isClassScope])
      | trivial

/-! ## Runs -/

theorem step_settles {ahead : Except Diagnostic Token} {events : List Event}
    (h : goal.step ahead state = .meet events after) : Settles goal state after := by
  cases ahead with
  | ok token =>
    have hread := read_settles goal token state
    rwa [show goal.read token state = .meet events after from h] at hread
  | error diagnostic => cases goal <;> cases h <;> exact .same rfl rfl

/-- As many fields are counted as are declared, wherever a run comes. -/
theorem Comes.counted {p q : Stage} (h : Comes stop p q) (hp : p.state.Counted) :
    q.state.Counted := by
  induction h with
  | refl => exact hp
  | meet h _ ih => exact ih ((step_settles h).counted hp)
  | @take token _ goal _ _ state _ _ _ h _ ih =>
    have hread := read_settles goal token state
    rw [h] at hread
    exact ih (hread.1.counted hp)

/-- What is known of a class does not change when none of its variables is to be declared. -/
theorem Comes.unchanged {p q : Stage} (h : Comes stop p q)
    (hgoals : ∀ g ∈ p.goals, g.ofClass = false) :
    q.state.symbols.classScope = p.state.symbols.classScope ∧
      q.state.fieldCount = p.state.fieldCount := by
  induction h with
  | refl => exact ⟨rfl, rfl⟩
  | meet h _ ih =>
    rw [List.forall_mem_cons] at hgoals
    obtain ⟨hscope, hfields⟩ := (step_settles h).unchanged hgoals.1
    obtain ⟨hscope', hfields'⟩ := ih hgoals.2
    exact ⟨hscope'.trans hscope, hfields'.trans hfields⟩
  | @take token _ goal _ _ state _ _ _ h _ ih =>
    rw [List.forall_mem_cons] at hgoals
    have hread := read_settles goal token state
    rw [h] at hread
    obtain ⟨hscope, hfields⟩ := hread.1.unchanged hgoals.1
    obtain ⟨hscope', hfields'⟩ :=
      ih (List.forall_mem_append.mpr ⟨hread.2 hgoals.1, hgoals.2⟩)
    exact ⟨hscope'.trans hscope, hfields'.trans hfields⟩

end Compile

open Compile

/-- A state of a run over a source where subroutines of the class are yet to be read. -/
def AtSubroutines (source : String) (state : State) : Prop :=
  ∃ tokens, Comes (Lexer.ofSource source).scan.stop
    ⟨(Lexer.ofSource source).scan.tokens, program, {}⟩ ⟨tokens, [.subroutines, .endOfFile], state⟩

/-- Where the subroutines of a class begin, its fields have all been declared and counted. -/
theorem fields_final {source : String} {c : Syntax.Class} {compiled : CompiledClass}
    (hlex : Lexes source c.lexemes) (h : compile source = .ok compiled) :
    (∃ state, AtSubroutines source state) ∧ ∀ state, AtSubroutines source state →
      state.fieldCount = state.symbols.count .field ∧ state.fieldCount = .ofNat c.fieldCount := by
  obtain ⟨done, ended, hrun, -⟩ := compile_eq_ok.mp h
  obtain ⟨_, hclass, hends⟩ := run_of_lexes hlex
  obtain ⟨-, -, rfl⟩ := (hends done ended).mp hrun
  constructor
  · have hprogram : program.take 4 ++ [Goal.subroutines, .endOfFile] = program := rfl
    rw [← hprogram] at hrun
    obtain ⟨tokens, state, hcomes⟩ := comes_of_run (congrArg Prod.snd hrun)
    exact ⟨state, tokens, hcomes⟩
  rintro state ⟨tokens, hcomes⟩
  refine ⟨hcomes.counted counted_empty, ?_⟩
  -- from there the run comes to its end, and changes nothing of the class on the way
  obtain ⟨done', hrest⟩ := run_of_comes hcomes []
  rw [hrun] at hrest
  obtain ⟨tokens', hend⟩ := comes_to_end (congrArg Prod.snd hrest.symm)
  have hnone : ∀ g ∈ [Goal.subroutines, .endOfFile], g.ofClass = false := by decide
  rw [← hclass.fields]
  exact (hend.unchanged hnone).2.symm

end JackCompiler
