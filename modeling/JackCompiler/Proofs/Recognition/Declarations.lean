import JackCompiler.Proofs.Recognition.Statements
/-!
# Declarations are read as their trees

The goals of declarations read their lexemes and leave the variables declared, each numbered among
those of its storage. With the statements read between them, the goals of a source read a class.
-/

namespace JackCompiler.Compile

open Syntax

/-! ## What is declared -/

/-- What is declared where a run has come to, outside of statements. -/
structure Known where
  className : String
  ofClass : List Variable
  ofSubroutine : List Variable

namespace Known

def state (known : Known) : State where
  className := known.className
  symbols :=
    ⟨(numbered known.ofClass).map (·.declaration),
      (numbered known.ofSubroutine).map (·.declaration)⟩
  fieldCount := .ofNat (known.ofClass.countP (·.storage = .field))

/-- The variables of the scope that those of a storage are declared in. -/
def scope (known : Known) (inClass : Bool) : List Variable :=
  if inClass then known.ofClass else known.ofSubroutine

/-- More variables declared in a scope. -/
def add (known : Known) (inClass : Bool) (more : List Variable) : Known :=
  if inClass then { known with ofClass := known.ofClass ++ more }
  else { known with ofSubroutine := known.ofSubroutine ++ more }

@[simp]
theorem state_className (known : Known) : known.state.className = known.className := rfl

@[simp]
theorem add_nil (known : Known) (inClass : Bool) : known.add inClass [] = known := by
  cases inClass <;> simp [add]

@[simp]
theorem add_add (known : Known) (inClass : Bool) (as bs : List Variable) :
    (known.add inClass as).add inClass bs = known.add inClass (as ++ bs) := by
  cases inClass <;> simp [add]

@[simp]
theorem scope_add (known : Known) (inClass : Bool) (more : List Variable) :
    (known.add inClass more).scope inClass = known.scope inClass ++ more := by
  cases inClass <;> rfl

theorem scope_symbols (known : Known) (storage : Storage) :
    known.state.symbols.scope storage =
      (numbered (known.scope storage.isClassScope)).map (·.declaration) := by
  simp only [state, SymbolTable.scope, scope]
  split <;> rfl

end Known

theorem any_numbered (vs : List Variable) (name : String) :
    ((numbered vs).map (·.declaration)).any (·.name = name) = true ↔ name ∈ vs.map (·.name) := by
  rw [List.any_map, ← numberedAfter_names [] vs]
  change (numbered vs).any (·.name = name) = true ↔ _
  simp only [List.any_eq_true, decide_eq_true_eq, List.mem_map, numbered]

theorem Known.count (known : Known) (storage : Storage) : known.state.symbols.count storage =
    .ofNat ((known.scope storage.isClassScope).countP (·.storage = storage)) := by
  rw [SymbolTable.count, scope_symbols, List.countP_map, numbered]
  exact congrArg UInt16.ofNat (numberedAfter_countP [] _ storage)

/-- Declaring a variable whose name is new adds it to its scope, and counts it if it is a field. -/
theorem declare_fresh {known : Known} {v : Variable} {span : Span} {next : State → Move}
    (h : v.name ∉ (known.scope v.storage.isClassScope).map (·.name)) :
    declare known.state v.name v.type v.storage span (fun state =>
      next (state.countField v.storage)) = next (known.add v.storage.isClassScope [v]).state := by
  have hnew : ¬((known.state.symbols.scope v.storage).any (·.name = v.name)) = true := by
    rwa [Known.scope_symbols, any_numbered]
  simp only [declare, SymbolTable.define, if_neg hnew, known.count]
  cases hstorage : v.storage <;>
    simp [hstorage, Storage.isClassScope, State.countField, Known.add, Known.state, Known.scope,
      numbered_append, numberedAfter, Slot.declaration, UInt16.ofNat_add]

theorem declare_duplicate {known : Known} {v : Variable} {span : Span} {next : State → Move}
    (h : v.name ∈ (known.scope v.storage.isClassScope).map (·.name)) :
    declare known.state v.name v.type v.storage span next =
      .refuse ⟨.duplicateDefinition v.name, span⟩ := by
  have hold : (known.state.symbols.scope v.storage).any (·.name = v.name) = true := by
    rwa [Known.scope_symbols, any_numbered]
  simp only [declare, SymbolTable.define, if_pos hold]

/-! ## Names and types -/

/-- What is left of the source does not go on a list that a comma would. -/
def NoComma (rest : List Lexeme) : Prop := rest.head?.any (· != .symbol .comma)

/-- The goal that the name of a variable leaves. -/
def moreGoal (storage : Storage) (type : String) : Goal :=
  if storage = .argument then .moreParameters else .moreNames storage type

theorem moreGoal_of_ne {storage : Storage} {type : String} (h : storage ≠ .argument) :
    moreGoal storage type = .moreNames storage type := if_neg h

/-- The name of a variable is read if it is new, and the variable declared. -/
theorem reads_name (known : Known) (v : Variable) {named fit : Prop} {text : List Lexeme}
    {events : List Event} {state' : State} {next : List Lexeme → Prop}
    (h : Reads named fit (known.add v.storage.isClassScope [v]).state
      [moreGoal v.storage v.type] text events state' next) :
    Reads (v.name ∉ (known.scope v.storage.isClassScope).map (·.name) ∧ named) fit known.state
      [.variableName v.storage v.type] (.identifier v.name :: text) events state' next := by
  intro stop done rest after hrest
  have hread : (Goal.variableName v.storage v.type).read ⟨.identifier v.name, default⟩ known.state =
      declare known.state v.name v.type v.storage default fun state =>
        .take [] [moreGoal v.storage v.type] (state.countField v.storage) := rfl
  by_cases hnew : v.name ∈ (known.scope v.storage.isClassScope).map (·.name)
  · rw [declare_duplicate hnew] at hread
    refine .misnamed ?_ fun h => h.1 hnew
    rw [List.cons_append, List.cons_append, unplaced_cons, run_refuse_token hread]
    exact ⟨_, v.name, rfl, .inr rfl⟩
  · rw [@declare_fresh _ _ _ (.take [] [moreGoal v.storage v.type]) hnew] at hread
    exact (Reads.take hread h stop done rest after hrest).congr (by simp [hnew]) .rfl

theorem typeName_lexeme (type : TypeName) : typeName? type.lexeme = some type.name := by
  cases type <;> rfl

theorem reads_type (type : TypeName) (storage : Storage) {named fit : Prop} {state state' : State}
    {text : List Lexeme} {events : List Event} {next : List Lexeme → Prop}
    (h : Reads named fit state [.variableName storage type.name] text events state' next) :
    Reads named fit state [.variableType storage] (type.lexeme :: text) events state' next := by
  have hread : (Goal.variableType storage).read ⟨type.lexeme, default⟩ state =
      .take [] [.variableName storage type.name] state := by
    simp only [Goal.read, takeType, typeName_lexeme]
  exact Reads.take hread h

theorem reads_moreNames (known : Known) (storage : Storage) (hs : storage ≠ .argument)
    (type : String) (names : List String) :
    Reads (Fresh (known.scope storage.isClassScope) (names.map fun name => ⟨name, type, storage⟩))
      True known.state [.moreNames storage type] (nameTail names) []
      (known.add storage.isClassScope (names.map fun name => ⟨name, type, storage⟩)).state
      NoComma := by
  induction names generalizing known with
  | nil =>
    have h : Reads True True known.state [.moreNames storage type] [] [] known.state NoComma :=
      .meet_next fun lexeme hlexeme => by
        simp only [bne_iff_ne, ne_eq] at hlexeme
        simp only [Goal.read]
    simpa [nameTail] using h
  | cons name names ih =>
    have hread : (Goal.moreNames storage type).read ⟨.symbol .comma, default⟩ known.state =
        .take [] [.variableName storage type] known.state := rfl
    have hmore := ih (known.add storage.isClassScope [⟨name, type, storage⟩])
    rw [← moreGoal_of_ne hs] at hmore
    have h := Reads.take hread (reads_name known ⟨name, type, storage⟩ hmore)
    simpa [nameTail, fresh_cons] using h

theorem reads_group (known : Known) (storage : Storage) (hs : storage ≠ .argument)
    (group : VariableGroup) :
    Reads (Fresh (known.scope storage.isClassScope) (group.declared storage)) True known.state
      [.variableType storage] group.lexemes []
      (known.add storage.isClassScope (group.declared storage)).state NoComma := by
  have hmore := reads_moreNames
    (known.add storage.isClassScope [⟨group.first, group.type.name, storage⟩]) storage hs
    group.type.name group.more
  rw [← moreGoal_of_ne hs] at hmore
  have h := reads_type group.type storage
    (reads_name known ⟨group.first, group.type.name, storage⟩ hmore)
  simpa [VariableGroup.declared, VariableGroup.lexemes, fresh_cons] using h

/-! ## Variables of a class, and locals -/

/-- What is left of the source does not begin with one of the keywords. -/
def NoKeyword (words : List Keyword) (rest : List Lexeme) : Prop :=
  rest.head?.any fun lexeme => words.all (lexeme != .keyword ·)

theorem reads_classVariables (known : Known) (groups : List ClassVariables) :
    Reads (Fresh (known.scope true) (groups.flatMap (·.declared))) True known.state
      [.classVariables] (groups.flatMap (·.lexemes)) []
      (known.add true (groups.flatMap (·.declared))).state (NoKeyword [.static, .field]) := by
  induction groups generalizing known with
  | nil =>
    have h : Reads True True known.state [.classVariables] [] [] known.state
        (NoKeyword [.static, .field]) :=
      .meet_next fun lexeme hlexeme => by
        simp only [Goal.read]
        split
        · cases hlexeme
        · cases hlexeme
        · rfl
    simpa using h
  | cons declared groups ih =>
    obtain ⟨storage, group⟩ := declared
    have hread : Goal.classVariables.read ⟨.keyword storage.keyword, default⟩ known.state =
        .take [] [.variableType storage.storage, .expect (.symbol .semicolon), .classVariables]
          known.state := by cases storage <;> rfl
    have hclass : storage.storage.isClassScope = true := by cases storage <;> rfl
    have hgroup := reads_group known storage.storage (by cases storage <;> decide) group
    rw [hclass] at hgroup
    have h := Reads.take hread <| hgroup.append
      ((Reads.symbol .semicolon).seq (ih _)) fun _ _ => rfl
    simpa [ClassVariables.declared, ClassVariables.lexemes, fresh_append] using h

/-- The commands before the statements of a subroutine whose variables are all declared. -/
def Known.entry (known : Known) (header : Header) : List Vm.Command :=
  .function (known.state.qualify header.name) (known.state.symbols.count .local) ::
    prologue header.kind known.state.fieldCount

/-- Locals are declared, and then the function begins. -/
theorem reads_locals (known : Known) (header : Header) (groups : List VariableGroup) :
    Reads (Fresh (known.scope false) (groups.flatMap (·.declared .local))) True known.state
      [.localVariables header] (groups.flatMap localLexemes)
      (write ((known.add false (groups.flatMap (·.declared .local))).entry header))
      (known.add false (groups.flatMap (·.declared .local))).state (NoKeyword [.var]) := by
  induction groups generalizing known with
  | nil =>
    have h : Reads True True known.state [.localVariables header] []
        (write (known.entry header)) known.state (NoKeyword [.var]) :=
      .meet_next fun lexeme hlexeme => by
        simp only [List.all_cons, List.all_nil, Bool.and_true, bne_iff_ne, ne_eq] at hlexeme
        simp only [Goal.read]
        rfl
    simpa using h
  | cons group groups ih =>
    have hread : (Goal.localVariables header).read ⟨.keyword .var, default⟩ known.state =
        .take [] [.variableType .local, .expect (.symbol .semicolon), .localVariables header]
          known.state := rfl
    have h := Reads.take hread <| (reads_group known .local (by decide) group).append
      ((Reads.symbol .semicolon).seq (ih _)) fun _ _ => rfl
    simpa [localLexemes, fresh_append, Storage.isClassScope] using h

/-! ## Parameters -/

theorem reads_moreParameters (known : Known) (parameters : List Parameter) :
    Reads (Fresh (known.scope false) (parameters.map (·.declared))) True known.state
      [.moreParameters] (parameterTail parameters) []
      (known.add false (parameters.map (·.declared))).state NoComma := by
  induction parameters generalizing known with
  | nil =>
    have h : Reads True True known.state [.moreParameters] [] [] known.state NoComma :=
      .meet_next fun lexeme hlexeme => by
        simp only [bne_iff_ne, ne_eq] at hlexeme
        simp only [Goal.read]
    simpa [parameterTail] using h
  | cons parameter parameters ih =>
    have hread : Goal.moreParameters.read ⟨.symbol .comma, default⟩ known.state =
        .take [] [.variableType .argument] known.state := rfl
    have h := Reads.take hread <| reads_type parameter.type .argument <|
      reads_name known parameter.declared (ih (known.add false [parameter.declared]))
    simpa [parameterTail, Parameter.lexemes, Storage.isClassScope, fresh_cons] using h

/-- What is left of the source closes a parenthesis. -/
def ClosesList (rest : List Lexeme) : Prop := rest.head? = some (.symbol .rightParen)

theorem reads_parameters (known : Known) (parameters : List Parameter) :
    Reads (Fresh (known.scope false) (parameters.map (·.declared))) True known.state
      [.parameters] (parameterList parameters) []
      (known.add false (parameters.map (·.declared))).state ClosesList := by
  cases parameters with
  | nil =>
    have h : Reads True True known.state [.parameters] [] [] known.state ClosesList :=
      .meet fun stop rest hrest => by
        cases rest with
        | nil => cases hrest
        | cons next rest => cases hrest; rfl
    simpa [parameterList] using h
  | cons parameter parameters =>
    have hread : Goal.parameters.read ⟨parameter.type.lexeme, default⟩ known.state =
        .take [] [.variableName .argument parameter.type.name] known.state := by
      cases parameter.type <;> rfl
    have h := Reads.take hread <| reads_name known parameter.declared
      (reads_moreParameters (known.add false [parameter.declared]) parameters)
    have h : Reads _ _ _ _ _ _ _ ClosesList := h.weaken fun rest hrest => by
      simp only [ClosesList] at hrest
      simp [NoComma, hrest]
    simpa [parameterList, Parameter.lexemes, Storage.isClassScope, fresh_cons] using h

/-! ## Subroutines -/

/-- What is declared where the parameters of a subroutine begin. -/
def atParameters (c : Syntax.Class) (s : Subroutine) : Known :=
  ⟨c.name, c.declared, s.receiver c.name⟩

/-- What is declared where the statements of a subroutine begin. -/
def atBody (c : Syntax.Class) (s : Subroutine) : Known :=
  ⟨c.name, c.declared, s.receiver c.name ++ s.declared⟩

theorem atBody_at (c : Syntax.Class) (s : Subroutine) : (atBody c s).state.At (c.scope s) 0 0 :=
  ⟨⟨rfl, rfl⟩, rfl, rfl⟩

theorem atBody_symbols (c : Syntax.Class) (s : Subroutine) :
    (atBody c s).state.symbols = (c.scope s).symbols := rfl

theorem atParameters_scope (c : Syntax.Class) (s : Subroutine) :
    (atParameters c s).scope false = s.receiver c.name := rfl

/-- A function begins with what is written before the statements of its subroutine. -/
theorem atBody_entry (c : Syntax.Class) (s : Subroutine) :
    (atBody c s).entry s.header = (c.entry s).map (·.wrap) := by
  have hprologue : prologue s.kind (.ofNat c.fieldCount) = (c.prologue s.kind).map (·.wrap) := by
    cases s.kind <;> simp [prologue, Class.prologue]
  have hlocals : (atBody c s).state.symbols.count .local = .ofNat s.localCount := by
    rw [Known.count]
    exact congrArg UInt16.ofNat (s.count_local c.name)
  rw [Known.entry, hlocals, Class.entry, List.map_cons, ← hprologue, Vm.Command.wrap_function,
    ← UInt16.toNat_ofNat']
  rfl

/-- A state between the subroutines of a class. -/
structure InClass (c : Syntax.Class) (state : State) : Prop where
  name : state.className = c.name
  declared : state.symbols.classScope = (numbered c.declared).map (·.declaration)
  fields : state.fieldCount = .ofNat c.fieldCount

/-- The goals of a subroutine after its name. -/
def bodyGoals (header : Header) : List Goal :=
  [.expect (.symbol .leftParen), .parameters, .expect (.symbol .rightParen),
    .expect (.symbol .leftBrace), .localVariables header, .statements, .closeBlock,
    .subroutineDone header]

theorem read_subroutineName (c : Syntax.Class) (s : Subroutine) {state : State}
    (hc : InClass c state) :
    (Goal.subroutineName s.kind (returnName s.returnType)).read ⟨.identifier s.name, default⟩
      state = .take [] (bodyGoals s.header) (atParameters c s).state := by
  have hstate : Known.state ⟨c.name, c.declared, []⟩ =
      { state with symbols := state.symbols.startSubroutine, ifCount := 0, whileCount := 0 } := by
    simp only [SymbolTable.startSubroutine, hc.name, hc.declared, hc.fields]
    rfl
  simp only [Goal.read, takeName, ← hstate]
  rw [hc.name]
  cases hkind : s.kind with
  | method =>
    have hfresh := @declare_fresh ⟨c.name, c.declared, []⟩ ⟨"this", c.name, .argument⟩ default
      (.take [] (bodyGoals ⟨.method, returnName s.returnType, s.name⟩)) List.not_mem_nil
    refine hfresh.trans ?_
    simp [Known.add, Storage.isClassScope, atParameters, Subroutine.receiver, hkind,
      Subroutine.header]
  | _ =>
    simp [atParameters, Subroutine.receiver, hkind, bodyGoals, Subroutine.header]

/-- A subroutine is read from its result type, if what follows its name is. -/
theorem reads_resultType (c : Syntax.Class) (s : Subroutine) {named fit : Prop}
    {state state' : State} {text : List Lexeme} {events : List Event} {next : List Lexeme → Prop}
    (hc : InClass c state)
    (h : Reads named fit (atParameters c s).state (bodyGoals s.header) text events state' next) :
    Reads named fit state [.resultType s.kind]
      (returnLexeme s.returnType :: .identifier s.name :: text) events state' next := by
  have hresult : (Goal.resultType s.kind).read ⟨returnLexeme s.returnType, default⟩ state =
      .take [] [.subroutineName s.kind (returnName s.returnType)] state := by
    cases s.returnType with
    | none => rfl
    | some type => cases type <;> rfl
  exact Reads.take hresult (Reads.take (read_subroutineName c s hc) h)

theorem noVar_statements (body : Statements) {rest : List Lexeme} (hrest : Closes rest) :
    NoKeyword [.var] (body.lexemes ++ rest) := statements_head rfl (by decide) body hrest

theorem reads_body (c : Syntax.Class) (s : Subroutine) :
    Reads (c.Scoped s) (AllFit (stringConstants s.body.terms)) (atParameters c s).state
      (bodyGoals s.header) s.signatureAndBody (write (c.written s) ++ [c.notice s])
      ((atBody c s).state.past s.body.ifs s.body.whiles) anything := by
  have hbody : ((atParameters c s).add false (s.parameters.map (·.declared))).add false
      (s.locals.flatMap (·.declared .local)) = atBody c s := by
    simp [atParameters, atBody, Known.add, Subroutine.declared]
  have hdone : Reads True True ((atBody c s).state.past s.body.ifs s.body.whiles)
      [.subroutineDone s.header] [] [c.notice s]
      ((atBody c s).state.past s.body.ifs s.body.whiles) anything :=
    .meet fun stop rest _ => by cases h : ahead stop (unplaced rest) <;> rfl
  have hstatements := (Statements.reads s.body (atBody_at c s)).append
    (Reads.closeBlock.seq hdone) fun _ _ => rfl
  have hlocals := reads_locals ((atParameters c s).add false (s.parameters.map (·.declared)))
    s.header s.locals
  rw [hbody, atBody_entry] at hlocals
  have hblock := hlocals.append hstatements fun rest _ => by
    rw [List.append_assoc]
    exact noVar_statements s.body rfl
  have hparameters := (reads_parameters (atParameters c s) s.parameters).append
    ((Reads.symbol .rightParen).seq ((Reads.symbol .leftBrace).seq hblock)) fun _ _ => rfl
  refine ((Reads.symbol .leftParen).seq hparameters).of_eq ?named ?fit ?text ?events
  case named =>
    rw [Class.scoped_iff]
    simp [Subroutine.declared, Statements.names, fresh_append, and_assoc, atParameters_scope,
      atBody_symbols]
  case fit => simp
  case text => simp [Subroutine.signatureAndBody]
  case events =>
    rw [Class.written, Class.function, List.map_append, write_append]
    simp [emitted]

theorem reads_subroutine (c : Syntax.Class) (s : Subroutine) {named fit : Prop}
    {state state' : State} {text : List Lexeme} {events : List Event} {next : List Lexeme → Prop}
    (hc : InClass c state)
    (h : Reads named fit ((atBody c s).state.past s.body.ifs s.body.whiles) [.subroutines] text
      events state' next) :
    Reads (c.Scoped s ∧ named)
      (AllFit (stringConstants s.body.terms) ∧ fit) state [.subroutines] (s.lexemes ++ text)
      (write (c.written s) ++ c.notice s :: events) state' next := by
  have hkeyword : Goal.subroutines.read ⟨.keyword (subroutineKeyword s.kind), default⟩ state =
      .take [] [.resultType s.kind, .subroutines] state := by
    cases s.kind <;> rfl
  have h := Reads.take hkeyword <|
    (reads_resultType c s hc (reads_body c s)).seq h
  simpa [Subroutine.lexemes] using h

/-! ## Classes -/

theorem inClass_past (c : Syntax.Class) (s : Subroutine) (ifs whiles : Nat) :
    InClass c ((atBody c s).state.past ifs whiles) := ⟨rfl, rfl, rfl⟩

theorem reads_subroutines (c : Syntax.Class) (subroutines : List Subroutine) {state : State}
    (hc : InClass c state) : ∃ state', InClass c state' ∧
      Reads (∀ s ∈ subroutines, c.Scoped s)
        (∀ s ∈ subroutines, AllFit (stringConstants s.body.terms)) state [.subroutines]
        (subroutines.flatMap (·.lexemes) ++ [.symbol .rightBrace])
        (subroutines.flatMap (fun s => write (c.written s) ++ [c.notice s]) ++
          [.classDone c.name (.ofNat c.fieldCount)]) state' anything := by
  induction subroutines generalizing state with
  | nil =>
    have hread : Goal.subroutines.read ⟨.symbol .rightBrace, default⟩ state =
        .take [.classDone c.name (.ofNat c.fieldCount)] [] state := by
      rw [← hc.name, ← hc.fields]
      rfl
    exact ⟨state, hc, by simpa using Reads.take hread .nil⟩
  | cons s subroutines ih =>
    obtain ⟨state', hc', h⟩ := ih (inClass_past c s s.body.ifs s.body.whiles)
    exact ⟨state', hc', by simpa using reads_subroutine c s hc h⟩

theorem noKeyword_subroutines (subroutines : List Subroutine) {r : List Lexeme} (hr : Closes r) :
    NoKeyword [.static, .field] (subroutines.flatMap (·.lexemes) ++ r) := by
  cases subroutines with
  | nil =>
    simp only [Closes] at hr
    simp [NoKeyword, hr]
  | cons s subroutines =>
    cases hkind : s.kind <;> simp [Subroutine.lexemes, hkind, subroutineKeyword, NoKeyword]

theorem reads_class (c : Syntax.Class) : ∃ state, InClass c state ∧
    Reads c.Named c.Fit {} classGoals c.lexemes c.events state anything := by
  have hname : Goal.className.read ⟨.identifier c.name, default⟩ {} =
      .take [] [] (Known.state ⟨c.name, [], []⟩) := rfl
  have hgroups := reads_classVariables ⟨c.name, [], []⟩ c.groups
  obtain ⟨state, hc, hsubroutines⟩ := reads_subroutines c c.subroutines
    (show InClass c ((Known.mk c.name [] []).add true c.declared).state from ⟨rfl, rfl, rfl⟩)
  have hinside := hgroups.append hsubroutines fun rest _ => by
    rw [List.append_assoc]
    exact noKeyword_subroutines c.subroutines rfl
  have h := (Reads.keyword .class).seq
    ((Reads.take hname .nil).seq ((Reads.symbol .leftBrace).seq hinside))
  refine ⟨state, hc, h.of_eq ?named ?fit ?text ?events⟩
  case named => simp [Known.scope, fresh_of_nil, Class.named_iff, Class.declared]
  case fit => simp [Class.Fit]
  case text => simp [Class.lexemes]
  case events => simp [Class.events]

/-- The run over the lexemes of a class tells what the class does and comes to its end, if its names
are in order and its string constants can be built. -/
theorem run_class (c : Syntax.Class) (span : Span) : ∃ state, InClass c state ∧
    GoesOn c.Named c.Fit (run (.ok ⟨.endOfFile, span⟩) [] (unplaced c.lexemes) program {})
      (c.events.reverse, .ok state) := by
  obtain ⟨state, hc, h⟩ := reads_class c
  have h := h (.ok ⟨.endOfFile, span⟩) [] [] [.endOfFile] trivial
  have hend : run (.ok ⟨.endOfFile, span⟩) (c.events.reverse ++ []) (unplaced []) [.endOfFile]
      state = (c.events.reverse, .ok state) := by
    have hmeet : Goal.endOfFile.step (ahead (.ok ⟨.endOfFile, span⟩) []) state =
        .meet [] state := rfl
    rw [unplaced_nil, run_meet hmeet, run_nil, List.append_nil]
    rfl
  rw [hend, List.append_nil] at h
  exact ⟨state, hc, h⟩

end JackCompiler.Compile
