import JackCompiler.Proofs.Following
/-!
# Each procedure meets its goals

The body of every procedure meets the goals that the procedure is called for (`body_does`), if the
procedures it calls do so (`Calls`). The proofs go along the bodies, one action after another.
-/

namespace JackCompiler.Descent

open Compile

/-- What is left, when a procedure is done, of the credit for the last token it takes, or of what it
costs if it takes none. -/
def Routine.gain : Routine → Nat
  | term | subroutineCall | block => 4
  | classVariables | localVariables => 1
  | _ => 0

/-- The goals that a procedure is called for, and those that it leaves to its caller. -/
inductive Serves : {α : Type} → Procedure α → List Goal → (α → State → List Goal) → Prop
  | classVariables : Serves .classVariables [.classVariables] fun _ _ => []
  | names {storage : Storage} {type : String} (h : storage ≠ .argument) :
    Serves (.names storage type) [.variableName storage type] fun _ _ => []
  | subroutines : Serves .subroutines [.subroutines] fun _ _ => []
  | parameterList : Serves .parameterList [.parameters] fun _ _ => []
  | parameter : Serves .parameter [.variableType .argument] fun _ _ => []
  | localVariables (header : Header) :
    Serves .localVariables [.localVariables header] fun _ state =>
      [.emit (.function (state.qualify header.name) (state.symbols.count .local) ::
        prologue header.kind state.fieldCount)]
  | statements : Serves .statements [.statements] fun _ _ => []
  | block : Serves .block [.expect (.symbol .leftBrace), .statements, .closeBlock] fun _ _ => []
  | expression : Serves .expression Compile.expression fun _ _ => []
  | operators {pending : List Symbol} {commands : List Vm.Command}
    (h : pending.map binaryCommand? = commands.map some) :
    Serves (.operators pending) [.operators commands] fun _ _ => []
  | term : Serves .term [.term] fun _ _ => []
  | subroutineCall (name : String) (span : Span) :
    Serves (.subroutineCall name span) [.callRest name] fun _ _ => []
  | expressionList (callee : String) (receivers : UInt16) :
    Serves .expressionList [.callArguments callee receivers] fun count _ =>
      [.expect (.symbol .rightParen), .emit [.call callee (count + receivers : UInt16)]]
  | argument (callee : String) (receivers count : UInt16) :
    Serves (.argument count)
      (Compile.expression ++ [.moreArguments callee (count + 1 + receivers)]) fun count _ =>
      [.expect (.symbol .rightParen), .emit [.call callee (count + receivers : UInt16)]]

/-- An action meets goals. -/
def Does (course : Course) (credit gain : Nat) {α : Type} (action : Action α) (before : List Goal)
    (after : α → State → List Goal) : Prop :=
  ∀ {goals : List Goal} {reader : Reader} {Q : α → Reader → Prop},
    course.At credit (before ++ goals) reader →
    (∀ a next, course.At gain (after a next.state ++ goals) next → Q a next) →
    course.Meets action Q reader

/-- What is called meets the goals that it is called for. -/
def Calls (course : Course) (call : {α : Type} → Procedure α → Action α) : Prop :=
  ∀ {α : Type} {procedure : Procedure α} {before : List Goal} {after : α → State → List Goal},
    Serves procedure before after →
    Does course procedure.routine.cost procedure.routine.gain (call procedure) before after

attribute [local simp] Procedure.routine Routine.cost

section

variable {course : Course} {call : {α : Type} → Procedure α → Action α} (hcall : Calls course call)
  {reader : Reader} {goal : Goal} {goals more : List Goal} {credit : Nat} {token : Token}

include hcall

theorem Calls.meets {α : Type} {procedure : Procedure α} {before : List Goal}
    {after : α → State → List Goal} {Q : α → Reader → Prop} (h : Serves procedure before after)
    (hat : course.At credit (before ++ goals) reader) (hcost : procedure.routine.cost ≤ credit)
    (hnext : ∀ a next, course.At procedure.routine.gain (after a next.state ++ goals) next →
      Q a next) : course.Meets (call procedure) Q reader :=
  hcall h (hat.weaken hcost) hnext

/-! ## Declarations -/

/-- A goal that takes a type, or `void` if it allows that. -/
structure TakesType (goal : Goal) (allowVoid : Bool) (next : String → Goal) : Prop where
  asks : Course.Asks goal
  type : ∀ {token type} (state : State), typeName? token.lexeme = some type →
    goal.read token state = .take [] [next type] state
  void : ∀ {token} (state : State), allowVoid = true → token.lexeme = .keyword .void →
    goal.read token state = .take [] [next "void"] state
  none : ∀ {token} (state : State), typeName? token.lexeme = none →
    (allowVoid = true → token.lexeme ≠ .keyword .void) → goal.read token state =
      .refuse (token.unexpected (if allowVoid then "'void' or a type" else "a type"))

omit hcall in
theorem takesType_variable (storage : Storage) :
    TakesType (.variableType storage) false (.variableName storage) where
  asks _ _ := rfl
  type _ htype := by simp only [Goal.read, takeType, htype]
  void _ hvoid := by cases hvoid
  none _ hnone _ := by simp [Goal.read, takeType, hnone]

omit hcall in
theorem takesType_result (kind : SubroutineKind) :
    TakesType (.resultType kind) true (.subroutineName kind) where
  asks _ _ := rfl
  type _ htype := by
    simp only [Goal.read, htype]
    split
    case h_1 hvoid =>
      rw [hvoid] at htype
      cases htype
    case h_2 hsome _ =>
      cases hsome
      rfl
    case h_3 hnone _ => cases hnone
  void _ _ hvoid := by simp only [Goal.read, hvoid]
  none _ hnone hvoid := by
    have hvoid := hvoid rfl
    simp only [Goal.read, hnone, if_true]

omit hcall in
theorem typeName_meets {allowVoid : Bool} {next : String → Goal} {Q : String → Reader → Prop}
    (htakes : TakesType goal allowVoid next) (h : course.At credit (goal :: goals) reader)
    (hnext : ∀ type after, course.At (credit + 4) (next type :: goals) after → Q type after) :
    course.Meets (typeName allowVoid) Q reader := by
  refine .bind (h.peek htakes.asks fun token after h hahead => ?_)
  have hword {word : Keyword} (hkind : token.kind = .keyword word)
      (htype : typeName? (.keyword word) = some word.spelling) :
      course.Meets (do advance; return (← keyword).spelling) Q after := by
    have hlexeme := kind_keyword.mp hkind
    refine .bind (h.advance hahead (by simp [hlexeme]) fun after htook h => ?_)
    rw [htakes.type _ (hlexeme ▸ htype)] at h
    exact .bind (htook.keyword hkind (.pure (hnext _ after h)))
  split
  case h_1 hkind => exact hword hkind rfl
  case h_2 hkind => exact hword hkind rfl
  case h_3 hkind => exact hword hkind rfl
  case h_4 hkind =>
    have hlexeme := kind_keyword.mp hkind
    refine .bind (h.advance hahead (by simp [hlexeme]) fun after _ h => .pure (hnext _ after ?_))
    rw [htakes.void _ rfl hlexeme] at h
    exact h
  case h_5 hkind =>
    obtain ⟨name, hlexeme⟩ := kind_identifier.mp hkind
    have hread (state : State) : goal.read token state =
        takeName token "type" fun name => .take [] [next name] state := by
      rw [htakes.type state (by rw [hlexeme]; rfl), takeName, hlexeme]
    exact .bind (h.identifier_ahead hahead hread fun name after _ h => .pure (hnext name after h))
  case h_6 hint hchar hboolean hidentifier hvoid =>
    refine .unexpected (h.refuse hahead (htakes.none _ ?_ ?_)) (Course.Due.met h hahead)
    · unfold typeName?
      split
      case h_1 hlexeme => exact (hint (kind_keyword.mpr hlexeme)).elim
      case h_2 hlexeme => exact (hchar (kind_keyword.mpr hlexeme)).elim
      case h_3 hlexeme => exact (hboolean (kind_keyword.mpr hlexeme)).elim
      case h_4 name hlexeme => exact (hidentifier (kind_identifier.mpr ⟨name, hlexeme⟩)).elim
      case h_5 => rfl
    · exact fun hallow hlexeme => hvoid (kind_keyword.mpr hlexeme) hallow

theorem names_does {storage : Storage} (hstorage : storage ≠ .argument) (type : String) :
    Does course 0 0 (names call storage type) [.variableName storage type] fun _ _ => [] := by
  intro goals reader Q h hQ
  have hread (token : Token) (state : State) :
      (Goal.variableName storage type).read token state =
        takeName token "variable name" fun name =>
          Compile.declare state name type storage token.span fun state =>
            .take [] [.moreNames storage type] (state.countField storage) := by
    simp [Goal.read, hstorage]
  refine .bind (h.define (fun _ _ => rfl) hread fun after h => ?_)
  refine .bind (.getState (.bind (.setState ?_)))
  have h := Course.Due.setState h
  refine .bind (h.matchKind (fun _ _ => rfl) (by decide) (fun token after hcomma h => ?_)
    fun token after hcomma hahead h => ?_)
  · rw [Goal.read, kind_symbol.mp hcomma] at h
    exact hcall.meets (.names hstorage) h (by simp) hQ
  · rw [ne_eq, kind_symbol] at hcomma
    refine .pure (hQ () _ ((h.met hahead ?_).weaken (by simp)))
    simp only [Goal.read]

/-- Variables of a type, when their keyword has been taken. -/
theorem variableGroup_meets {storage : Storage} {Q : Unit → Reader → Prop}
    (hstorage : storage ≠ .argument)
    (h : course.At credit (.variableType storage :: .expect (.symbol .semicolon) :: goals) reader)
    (hnext : ∀ after, course.At 4 goals after → Q () after) :
    course.Meets (variableGroup call storage) Q reader := by
  refine .bind (typeName_meets (takesType_variable storage) h fun type after h => ?_)
  refine .bind (hcall.meets (.names hstorage) h (by simp) fun _ after h => ?_)
  exact h.expect (by decide) hnext

theorem classVariable_meets {word : Keyword} {Q : Unit → Reader → Prop}
    (h : course.At credit (goal :: goals) reader) (hahead : reader.ahead = .ok token)
    (hkind : token.kind = .keyword word)
    (hread : ∀ state, goal.read token state = .take []
      [.variableType (classStorage word), .expect (.symbol .semicolon), goal] state)
    (hnext : ∀ after, course.At 4 (goal :: goals) after → Q () after) :
    course.Meets (classVariable call) Q reader := by
  have hstorage : classStorage word ≠ .argument := by
    unfold classStorage
    split <;> decide
  refine .bind (h.advance hahead (by simp [kind_keyword.mp hkind]) fun after htook h => ?_)
  refine .bind (htook.keyword hkind ?_)
  rw [hread] at h
  exact variableGroup_meets hcall hstorage h hnext

theorem classVariables_does :
    Does course 1 1 (classVariables call) [.classVariables] fun _ _ => [] := by
  intro goals reader Q h hQ
  refine .bind (h.peek (fun _ _ => rfl) fun token after h hahead => ?_)
  have hmore (after : Reader) (h : course.At 4 (.classVariables :: goals) after) :
      course.Meets (call .classVariables) Q after := hcall.meets .classVariables h (by simp) hQ
  split
  case h_1 hkind =>
    exact .bind (classVariable_meets hcall h hahead hkind
      (fun state => by rw [Goal.read, kind_keyword.mp hkind]; rfl) hmore)
  case h_2 hkind =>
    exact .bind (classVariable_meets hcall h hahead hkind
      (fun state => by rw [Goal.read, kind_keyword.mp hkind]; rfl) hmore)
  case h_3 hstatic hfield =>
    rw [imp_false, kind_keyword] at hstatic hfield
    exact .pure (hQ () _ (h.met hahead (by simp only [Goal.read])))

theorem localVariables_does (header : Header) :
    Does course 1 1 (localVariables call) [.localVariables header] fun _ state =>
      [.emit (.function (state.qualify header.name) (state.symbols.count .local) ::
        prologue header.kind state.fieldCount)] := by
  intro goals reader Q h hQ
  refine .bind (h.peek (fun _ _ => rfl) fun token after h hahead => ?_)
  split
  case h_1 hkind =>
    refine .bind (h.consume_seen hahead hkind (by decide) fun after h => ?_)
    rw [Goal.read, kind_keyword.mp hkind] at h
    refine .bind (variableGroup_meets hcall (by decide) h fun after h => ?_)
    exact hcall.meets (.localVariables header) h (by simp) hQ
  case h_2 hvar =>
    rw [imp_false, kind_keyword] at hvar
    refine .pure (hQ () _ (h.swap hahead ?_))
    simp only [Goal.read]

theorem parameter_does :
    Does course 0 0 (parameter call) [.variableType .argument] fun _ _ => [] := by
  intro goals reader Q h hQ
  refine .bind (typeName_meets (takesType_variable .argument) h fun type after h => ?_)
  refine .bind (h.define (fun _ _ => rfl) (fun _ _ => rfl) fun after h => ?_)
  have h : course.At 8 (.moreParameters :: goals) after := h
  refine .bind (h.matchKind (fun _ _ => rfl) (by decide) (fun token after hcomma h => ?_)
    fun token after hcomma hahead h => ?_)
  · rw [Goal.read, kind_symbol.mp hcomma] at h
    exact hcall.meets .parameter h (by simp) hQ
  · rw [ne_eq, kind_symbol] at hcomma
    refine .pure (hQ () _ ((h.met hahead ?_).weaken (by simp)))
    simp only [Goal.read]

theorem parameterList_does :
    Does course 1 0 (parameterList call) [.parameters] fun _ _ => [] := by
  intro goals reader Q h hQ
  refine .bind (h.peek (fun _ _ => rfl) fun token after h hahead => ?_)
  split
  case h_1 hkind =>
    have hread : Goal.parameters.read token after.state = .meet [] after.state := by
      rw [Goal.read, kind_symbol.mp hkind]
    exact .pure (hQ () _ ((h.met hahead hread).weaken (by simp)))
  case h_2 hparen =>
    rw [imp_false, kind_symbol] at hparen
    refine hcall.meets .parameter (h.swap hahead ?_) (by simp) hQ
    simp only [Goal.read]

omit hcall in
theorem closeBlock_meets {Q : Unit → Reader → Prop}
    (h : course.At credit (.closeBlock :: goals) reader)
    (hnext : ∀ after, course.At (credit + 4) goals after → Q () after) :
    course.Meets closeBlock Q reader := by
  refine .bind (h.peek (fun _ _ => rfl) fun token after h hahead => ?_)
  split
  case h_1 hkind =>
    have hlexeme := kind_symbol.mp hkind
    refine h.advance hahead (by simp [hlexeme]) fun after _ h => hnext after ?_
    rw [Goal.read, hlexeme] at h
    exact h
  case h_2 hbrace =>
    rw [imp_false, kind_symbol] at hbrace
    exact .unexpected (h.refuse hahead (by simp only [Goal.read])) (Course.Due.met h hahead)

/-! ## Subroutines -/

omit hcall in
/-- The receiver of a method is the first name in its scope, so it can be declared. -/
theorem define_receiver (table : SymbolTable) (className : String) : ∃ index after,
    table.startSubroutine.define "this" className .argument = .ok (index, after) := ⟨_, _, rfl⟩

omit hcall in
/-- When the name of a subroutine has been taken, its parameters are next. -/
theorem startSubroutine_meets {kind : SubroutineKind} {span : Span} {Q : Unit → Reader → Prop}
    {fresh : State}
    (hfresh : { reader.state with
      symbols := reader.state.symbols.startSubroutine, ifCount := 0, whileCount := 0 } = fresh)
    (h : course.Pending credit
      (match kind with
        | .method => Compile.declare fresh "this" reader.state.className .argument span
            fun state => .take [] more state
        | _ => .take [] more fresh) goals reader)
    (hnext : ∀ after, course.At credit (more ++ goals) after → Q () after) :
    course.Meets (startSubroutine kind) Q reader := by
  subst hfresh
  refine .bind (.getState (.bind (.setState ?_)))
  cases kind with
  | method =>
    obtain ⟨index, symbols, hdefine⟩ :=
      define_receiver reader.state.symbols reader.state.className
    dsimp only at h
    rw [Compile.declare, hdefine] at h
    have h : course.Due credit (more ++ goals)
        { reader.state with symbols, ifCount := 0, whileCount := 0 } reader := h
    exact .bind (.getState (.bind (.unlocated hdefine (.setState (hnext _ h.setState)))))
  | constructor | function => exact .pure (hnext _ (Course.Due.setState h))

/-- What follows the head of a subroutine. -/
theorem subroutineBody_meets {header : Header} {Q : Unit → Reader → Prop}
    (h : course.At credit (.expect (.symbol .leftBrace) :: .localVariables header :: .statements ::
      .closeBlock :: .subroutineDone header :: goals) reader)
    (hnext : ∀ after, course.At 4 goals after → Q () after) :
    course.Meets (subroutineBody call header) Q reader := by
  have hpops (name : String) (locals : Nat) (fields : UInt16) :
      (.function name locals :: prologue header.kind fields).any popsConstant = false := by
    cases header.kind <;> rfl
  refine .bind (h.expect (by decide) fun after h => ?_)
  refine .bind (hcall.meets (.localVariables header) h (by simp) fun _ after h => ?_)
  refine .bind (.getState (.bind (.emit (hpops ..) h fun after h => ?_)))
  refine .bind (hcall.meets .statements h (by simp [Routine.gain]) fun _ after h => ?_)
  refine .bind (closeBlock_meets h fun after h => ?_)
  refine .bind (.getState (.tell (hnext _ (Course.Due.meet h ?_))))
  cases after.ahead <;> rfl

theorem subroutine_meets {word : Keyword} {Q : Unit → Reader → Prop}
    (h : course.At credit (goal :: goals) reader) (hahead : reader.ahead = .ok token)
    (hkind : token.kind = .keyword word)
    (hread : ∀ state, goal.read token state =
      .take [] [.resultType (subroutineKind word), goal] state)
    (hnext : ∀ after, course.At 4 (goal :: goals) after → Q () after) :
    course.Meets (subroutine call) Q reader := by
  refine .bind (h.advance hahead (by simp [kind_keyword.mp hkind]) fun after htook h => ?_)
  refine .bind (htook.keyword hkind ?_)
  rw [hread] at h
  refine .bind (typeName_meets (takesType_result _) h fun returnType after h => ?_)
  refine .bind (h.identifier (fun _ _ => rfl) (fun _ _ => rfl) fun token name after _ h => ?_)
  refine .bind (startSubroutine_meets rfl h fun after h => ?_)
  refine .bind (h.expect (by decide) fun after h => ?_)
  refine .bind (hcall.meets .parameterList h (by simp) fun _ after h => ?_)
  refine .bind (h.expect (by decide) fun after h => ?_)
  exact subroutineBody_meets hcall h hnext

theorem subroutines_does :
    Does course 0 0 (subroutines call) [.subroutines] fun _ _ => [] := by
  intro goals reader Q h hQ
  refine .bind (h.peek (fun _ _ => rfl) fun token after h hahead => ?_)
  have hmore (after : Reader) (h : course.At 4 (.subroutines :: goals) after) :
      course.Meets (call .subroutines) Q after := hcall.meets .subroutines h (by simp) hQ
  split
  case h_1 hkind =>
    exact .bind (subroutine_meets hcall h hahead hkind
      (fun state => by rw [Goal.read, kind_keyword.mp hkind]; rfl) hmore)
  case h_2 hkind =>
    exact .bind (subroutine_meets hcall h hahead hkind
      (fun state => by rw [Goal.read, kind_keyword.mp hkind]; rfl) hmore)
  case h_3 hkind =>
    exact .bind (subroutine_meets hcall h hahead hkind
      (fun state => by rw [Goal.read, kind_keyword.mp hkind]; rfl) hmore)
  case h_4 hkind =>
    have hlexeme := kind_symbol.mp hkind
    refine .bind (h.advance hahead (by simp [hlexeme]) fun after _ h => ?_)
    rw [Goal.read, hlexeme] at h
    exact .bind (.getState (.tell (hQ () _ (Course.Due.weaken h (by simp)))))
  case h_5 hconstructor hfunction hmethod hbrace =>
    rw [imp_false, kind_keyword] at hconstructor hfunction hmethod
    rw [imp_false, kind_symbol] at hbrace
    exact .unexpected (h.refuse hahead (by simp only [Goal.read])) (Course.Due.met h hahead)

/-! ## Statements -/

theorem block_does :
    Does course 0 4 (block call)
      [.expect (.symbol .leftBrace), .statements, .closeBlock] fun _ _ => [] := by
  intro goals reader Q h hQ
  refine .bind (h.expect (by decide) fun after h => ?_)
  refine .bind (hcall.meets .statements h (by simp) fun _ after h => ?_)
  exact closeBlock_meets h fun after h => hQ () after h

theorem condition_meets {Q : Unit → Reader → Prop}
    (h : course.At credit (.expect (.symbol .leftParen) :: (Compile.expression ++
      .expect (.symbol .rightParen) :: goals)) reader)
    (hnext : ∀ after, course.At 4 goals after → Q () after) :
    course.Meets (condition call) Q reader := by
  refine .bind (h.expect (by decide) fun after h => ?_)
  refine .bind (hcall.meets .expression h (by simp) fun _ after h => ?_)
  exact h.expect (by decide) fun after h => hnext after h

omit hcall in
/-- No variable is in the constant segment. -/
theorem popsConstant_pop (declared : Declaration) : [declared.pop].any popsConstant = false := by
  obtain ⟨name, type, storage, index⟩ := declared
  cases storage <;> rfl

theorem assignment_meets {target : Declaration} {Q : Unit → Reader → Prop}
    (h : course.At (credit + 4) (.assignment target :: goals) reader)
    (hnext : ∀ after, course.At 0 (.expect (.symbol .semicolon) :: goals) after → Q () after) :
    course.Meets (assignment call target.storage.segment target.index) Q reader := by
  refine .bind (h.matchKind (fun _ _ => rfl) (by decide) (fun token after hbracket h => ?_)
    fun token after hbracket hahead h => ?_)
  · rw [Goal.read, kind_symbol.mp hbracket] at h
    refine .bind (.emit rfl h.written fun after h => ?_)
    refine .bind (hcall.meets .expression h (by simp) fun _ after h => ?_)
    refine .bind (h.expect (by decide) fun after h => .bind (.emit rfl h fun after h => ?_))
    refine .bind (h.expect (by decide) fun after h => ?_)
    refine .bind (hcall.meets .expression h (by simp) fun _ after h => ?_)
    exact .emit rfl h fun after h => hnext after h
  · rw [ne_eq, kind_symbol] at hbracket
    refine .bind (h.consume_ahead hahead (by decide) (fun hequal state => ?_)
      fun after hequal h => ?_)
    · rw [ne_eq, kind_symbol] at hequal
      simp only [Goal.read]
    · rw [Goal.read, kind_symbol.mp hequal] at h
      refine .bind (hcall.meets .expression h (by simp) fun _ after h => ?_)
      exact .emit (popsConstant_pop target) h fun after h => hnext after h

theorem letStatement_meets {Q : Unit → Reader → Prop}
    (h : course.At credit (.statements :: goals) reader) (hahead : reader.ahead = .ok token)
    (hkind : token.kind = .keyword .let)
    (hnext : ∀ after, course.At 4 (.statements :: goals) after → Q () after) :
    course.Meets (letStatement call) Q reader := by
  refine .bind (h.consume_seen hahead hkind (by decide) fun after h => ?_)
  rw [Goal.read, kind_keyword.mp hkind] at h
  have h : course.At (credit + 4) (.target :: .statements :: goals) after := h
  refine .bind (h.identifier (fun _ _ => rfl) (fun _ _ => rfl) fun token name after hinside h => ?_)
  refine .bind (h.place hinside fun declared h => ?_)
  refine .bind (assignment_meets hcall h fun after h => ?_)
  exact h.expect (by decide) fun after h => hnext after h

theorem elseBranch_meets {number : UInt16} {Q : Unit → Reader → Prop}
    (h : course.At 4 (.elseBranch number :: goals) reader)
    (hnext : ∀ after, course.At 4 goals after → Q () after) :
    course.Meets (elseBranch call number) Q reader := by
  refine .bind (h.matchKind (fun _ _ => rfl) (by decide) (fun token after helse h => ?_)
    fun token after helse hahead h => ?_)
  · rw [Goal.read, kind_keyword.mp helse] at h
    refine .bind (.emit rfl h.written fun after h => ?_)
    refine .bind (hcall.meets .block h (by simp) fun _ after h => ?_)
    exact .emit rfl h fun after h => hnext after h
  · rw [ne_eq, kind_keyword] at helse
    have h : course.At 4 (.emit [.label (ifFalse number)] :: goals) after :=
      h.swap hahead (by simp only [Goal.read])
    exact .emit rfl h fun after h => hnext after h

theorem ifStatement_meets {Q : Unit → Reader → Prop}
    (h : course.At credit (.statements :: goals) reader) (hahead : reader.ahead = .ok token)
    (hkind : token.kind = .keyword .if)
    (hnext : ∀ after, course.At 4 (.statements :: goals) after → Q () after) :
    course.Meets (ifStatement call) Q reader := by
  refine .bind (h.consume_seen hahead hkind (by decide) fun after h => ?_)
  rw [Goal.read, kind_keyword.mp hkind] at h
  refine .bind (.nextIf ?_)
  have h := Course.Due.setState h
  refine .bind (condition_meets hcall h fun after h => .bind (.emit rfl h fun after h => ?_))
  refine .bind (hcall.meets .block h (by simp) fun _ after h => ?_)
  exact elseBranch_meets hcall h fun after h => hnext after h

theorem whileStatement_meets {Q : Unit → Reader → Prop}
    (h : course.At credit (.statements :: goals) reader) (hahead : reader.ahead = .ok token)
    (hkind : token.kind = .keyword .while)
    (hnext : ∀ after, course.At 4 (.statements :: goals) after → Q () after) :
    course.Meets (whileStatement call) Q reader := by
  refine .bind (h.consume_seen hahead hkind (by decide) fun after h => ?_)
  rw [Goal.read, kind_keyword.mp hkind] at h
  refine .bind (.nextWhile ?_)
  refine .bind (.emit rfl (Course.Due.setState h.written) fun after h => ?_)
  refine .bind (condition_meets hcall h fun after h => .bind (.emit rfl h fun after h => ?_))
  refine .bind (hcall.meets .block h (by simp) fun _ after h => ?_)
  exact .emit rfl h fun after h => hnext after h

theorem doStatement_meets {Q : Unit → Reader → Prop}
    (h : course.At credit (.statements :: goals) reader) (hahead : reader.ahead = .ok token)
    (hkind : token.kind = .keyword .do)
    (hnext : ∀ after, course.At 4 (.statements :: goals) after → Q () after) :
    course.Meets (doStatement call) Q reader := by
  refine .bind (h.consume_seen hahead hkind (by decide) fun after h => ?_)
  rw [Goal.read, kind_keyword.mp hkind] at h
  have h : course.At (credit + 4) (.doCall :: .statements :: goals) after := h
  refine .bind (h.identifier (fun _ _ => rfl) (fun _ _ => rfl) fun token name after _ h => ?_)
  refine .bind (hcall.meets (.subroutineCall name token.span) h (by simp) fun _ after h => ?_)
  refine .bind (h.expect (by decide) fun after h => ?_)
  exact .emit rfl h fun after h => hnext after (Course.Due.weaken h (by simp))

/-- What a `return` gives back is zero where it has no expression. The goal takes the semicolon
itself, and the procedure leaves it to the statement. -/
theorem returnValue_meets {Q : Unit → Reader → Prop}
    (h : course.At (credit + 4) (.returnValue :: goals) reader)
    (hnext : ∀ after, course.At 0 (.expect (.symbol .semicolon) :: .emit [.return] :: goals) after →
      Q () after) : course.Meets (returnValue call) Q reader := by
  refine .bind (h.peek (fun _ _ => rfl) fun token after h hahead => ?_)
  split
  case h_1 hkind =>
    have hlexeme := kind_symbol.mp hkind
    have hread : Goal.returnValue.read token after.state =
        .take (write [.push .constant 0] ++ write [.return]) [] after.state := by
      rw [Goal.read, hlexeme]
      rfl
    have h : course.At (credit + 4) (.emit [.push .constant 0] :: .expect token.kind ::
        .emit [.return] :: goals) after :=
      Course.Due.apart h hahead (by simp [hlexeme]) hread fun _ _ => run_meet (step_emit ..)
    rw [hkind] at h
    exact .emit rfl h fun after h => hnext after (Course.Due.weaken h (by simp))
  case h_2 hsemicolon =>
    rw [imp_false, kind_symbol] at hsemicolon
    have h : course.At (credit + 4) (.term :: ([.operators [], .expect (.symbol .semicolon),
        .emit [.return]] ++ goals)) after := h.term hahead (by simp only [Goal.read])
    exact hcall.meets .expression h (by simp) fun _ after h => hnext after h

theorem returnStatement_meets {Q : Unit → Reader → Prop}
    (h : course.At credit (.statements :: goals) reader) (hahead : reader.ahead = .ok token)
    (hkind : token.kind = .keyword .return)
    (hnext : ∀ after, course.At 4 (.statements :: goals) after → Q () after) :
    course.Meets (returnStatement call) Q reader := by
  refine .bind (h.consume_seen hahead hkind (by decide) fun after h => ?_)
  rw [Goal.read, kind_keyword.mp hkind] at h
  refine .bind (returnValue_meets hcall h fun after h => ?_)
  refine .bind (h.expect (by decide) fun after h => ?_)
  exact .emit rfl h fun after h => hnext after h

theorem statements_does : Does course 0 0 (statements call) [.statements] fun _ _ => [] := by
  intro goals reader Q h hQ
  refine .bind (h.peek (fun _ _ => rfl) fun token after h hahead => ?_)
  have hmore (after : Reader) (h : course.At 4 (.statements :: goals) after) :
      course.Meets (call .statements) Q after := hcall.meets .statements h (by simp) hQ
  split
  case h_1 hkind => exact .bind (letStatement_meets hcall h hahead hkind hmore)
  case h_2 hkind => exact .bind (doStatement_meets hcall h hahead hkind hmore)
  case h_3 hkind => exact .bind (ifStatement_meets hcall h hahead hkind hmore)
  case h_4 hkind => exact .bind (whileStatement_meets hcall h hahead hkind hmore)
  case h_5 hkind => exact .bind (returnStatement_meets hcall h hahead hkind hmore)
  case h_6 hlet hdo hif hwhile hreturn =>
    rw [imp_false, kind_keyword] at hlet hdo hif hwhile hreturn
    exact .pure (hQ () _ (h.met hahead (by simp only [Goal.read])))

/-! ## Expressions -/

theorem expression_does :
    Does course 1 0 (expression call) Compile.expression fun _ _ => [] := by
  intro goals reader Q h hQ
  refine .bind (hcall.meets .term h (by simp) fun _ after h => ?_)
  exact hcall.meets (.operators rfl) h (by simp [Routine.gain]) hQ

theorem operators_does {pending : List Symbol} {commands : List Vm.Command}
    (hcommands : pending.map binaryCommand? = commands.map some) :
    Does course 0 0 (operators call pending) [.operators commands] fun _ _ => [] := by
  intro goals reader Q h hQ
  refine .bind (h.peek (fun _ _ => rfl) fun token after h hahead => ?_)
  have hdone (hread : (Goal.operators commands).read token after.state =
      (Goal.emit commands).read token after.state) : course.Meets (drain pending) Q after :=
    Course.drain_meets hcommands (h.swap hahead hread) (hQ ())
  split
  case h_1 s hkind =>
    have hlexeme := kind_symbol.mp hkind
    rw [← isSome_binaryCommand? s]
    cases hcommand : binaryCommand? s with
    | some command =>
      refine .bind (h.advance hahead (by simp [hlexeme]) fun after htook h => ?_)
      refine .bind (htook.symbol hkind ?_)
      simp only [Goal.read, hlexeme, hcommand] at h
      refine .bind (hcall.meets .term h (by simp) fun _ after h => ?_)
      have hmore : (s :: pending).map binaryCommand? = (command :: commands).map some := by
        rw [List.map_cons, List.map_cons, hcommand, hcommands]
      exact hcall.meets (.operators hmore) h (by simp [Routine.gain]) hQ
    | none => exact hdone (by simp only [Goal.read, hlexeme, hcommand])
  case h_2 hsymbol =>
    have hsymbol (s : Symbol) : token.lexeme ≠ .symbol s := fun h => hsymbol s (kind_symbol.mpr h)
    exact hdone (by simp only [Goal.read])

/-- What may follow a name: an index, the rest of a call, or nothing. The address of an element is
pushed before the bracket is taken. -/
theorem afterName_meets {name : String} {span : Span} {Q : Unit → Reader → Prop}
    (hinside : span.Inside course.source) (h : course.At 4 (.afterName name span :: goals) reader)
    (hnext : ∀ after, course.At 4 goals after → Q () after) :
    course.Meets (afterName call name span) Q reader := by
  refine .bind (h.peek (fun _ _ => rfl) fun token after h hahead => ?_)
  have hcalled (hread : (Goal.afterName name span).read token after.state =
      takeCall token name after.state) : course.Meets (call (.subroutineCall name span)) Q after :=
    hcall.meets (.subroutineCall name span) (h.swap hahead hread) (by simp) fun _ => hnext
  split
  case h_1 hkind =>
    have hlexeme := kind_symbol.mp hkind
    refine .bind (.place (fun declared hresolve => ?_) (fun fault hresolve => ?_) hinside)
    · have hread : (Goal.afterName name span).read token after.state =
          .take (write [declared.push] ++ []) (Compile.expression ++
            [.expect (.symbol .rightBracket), .emit readElement]) after.state := by
        simp only [Goal.read, hlexeme, withVariable, hresolve, List.append_nil]
      have h : course.At 4 (.expect token.kind :: (Compile.expression ++
          .expect (.symbol .rightBracket) :: .emit readElement :: goals))
          (after.told (write [declared.push])) :=
        Course.Due.emit (Course.Due.apart h hahead (by simp [hlexeme]) hread fun _ _ => rfl)
      refine .bind (.emitted rfl (.bind (h.advance hahead (by simp [hlexeme]) fun after _ h => ?_)))
      rw [Goal.read, if_pos rfl] at h
      refine .bind (hcall.meets .expression h (by simp) fun _ after h => ?_)
      exact .bind (h.expect (by decide) fun after h => .emit rfl h hnext)
    · exact h.refuse hahead (by simp only [Goal.read, hlexeme, withVariable, hresolve])
  case h_2 hkind => exact hcalled (by rw [Goal.read, kind_symbol.mp hkind])
  case h_3 hkind => exact hcalled (by rw [Goal.read, kind_symbol.mp hkind])
  case h_4 hbracket hdot hparen =>
    rw [imp_false, kind_symbol] at hbracket hdot hparen
    refine .bind (.place (fun declared hresolve => ?_) (fun fault hresolve => ?_) hinside)
    · have h : course.At 4 (.emit [declared.push] :: goals) after :=
        h.swap hahead (by simp only [Goal.read, withVariable, hresolve])
      exact .emit rfl h hnext
    · exact h.refuse hahead (by simp only [Goal.read, withVariable, hresolve])

omit hcall in
theorem popsConstant_constants {word : Keyword} {commands : List Vm.Command}
    (h : constantCommands? word = some commands) : commands.any popsConstant = false := by
  cases word <;> cases h <;> rfl

omit hcall in
theorem popsConstant_unary {s : Symbol} {command : Vm.Command}
    (h : unaryCommand? s = some command) : [command].any popsConstant = false := by
  cases s <;> cases h <;> rfl

omit hcall in
theorem popsConstant_string {contents : String} {commands : List Vm.Command}
    (h : stringCommands? contents = some commands) : commands.any popsConstant = false := by
  unfold stringCommands? at h
  dsimp only at h
  split at h <;> cases h
  simp [popsConstant]

theorem term_does : Does course 0 4 (term call) [.term] fun _ _ => [] := by
  intro goals reader Q h hQ
  refine .bind (h.peek (fun _ _ => rfl) fun token after h hahead => ?_)
  have hmet := Course.Due.met h hahead
  split
  case h_1 hkind =>
    obtain ⟨digits, hlexeme⟩ := kind_integer.mp hkind
    refine .bind (h.advance hahead (by simp [hlexeme]) fun after htook h => ?_)
    refine .bind (htook.integerValue hlexeme ?_)
    simp only [Goal.read, takeTerm, hlexeme] at h
    exact .emit rfl h.written (hQ ())
  case h_2 hkind =>
    obtain ⟨contents, hlexeme⟩ := kind_string.mp hkind
    refine .bind (h.advance hahead (by simp [hlexeme]) fun after htook h => ?_)
    refine .bind (htook.stringValue hlexeme ?_)
    simp only [Goal.read, takeTerm, hlexeme] at h
    unfold emitString
    cases hcommands : stringCommands? contents with
    | some commands =>
      rw [hcommands] at h
      exact .emit (popsConstant_string hcommands) h.written (hQ ())
    | none =>
      rw [hcommands] at h
      exact .unexpected h hmet
  case h_3 word hkind =>
    have hlexeme := kind_keyword.mp hkind
    cases hcommands : constantCommands? word with
    | some commands =>
      refine .bind (h.advance hahead (by simp [hlexeme]) fun after _ h => ?_)
      simp only [Goal.read, takeTerm, hlexeme, hcommands] at h
      exact .emit (popsConstant_constants hcommands) h.written (hQ ())
    | none =>
      exact .unexpected
        (h.refuse hahead (by simp only [Goal.read, takeTerm, hlexeme, hcommands])) hmet
  case h_4 hkind =>
    have hlexeme := kind_symbol.mp hkind
    refine .bind (h.advance hahead (by simp [hlexeme]) fun after _ h => ?_)
    simp only [Goal.read, takeTerm, hlexeme] at h
    refine .bind (hcall.meets .expression h (by simp) fun _ after h => ?_)
    exact h.expect (by decide) (hQ ())
  case h_5 s hparen hkind =>
    have hlexeme := kind_symbol.mp hkind
    cases hcommand : unaryCommand? s with
    | some command =>
      refine .bind (h.advance hahead (by simp [hlexeme]) fun after _ h => ?_)
      simp only [Goal.read, takeTerm, hlexeme, hcommand] at h
      refine .bind (hcall.meets .term h (by simp) fun _ after h => ?_)
      exact .emit (popsConstant_unary hcommand) h (hQ ())
    | none =>
      exact .unexpected
        (h.refuse hahead (by simp only [Goal.read, takeTerm, hlexeme, hcommand])) hmet
  case h_6 hkind =>
    obtain ⟨name, hlexeme⟩ := kind_identifier.mp hkind
    have hread (state : State) : Goal.term.read token state =
        takeName token "variable name" fun name => .take [] [.afterName name token.span] state := by
      simp only [Goal.read, takeTerm, takeName, hlexeme]
    exact .bind (h.identifier_ahead hahead hread fun name after hinside h =>
      afterName_meets hcall hinside h (hQ ()))
  case h_7 hkind =>
    have hlexeme := kind_endOfFile.mp hkind
    exact .unexpected (h.refuse hahead (by simp only [Goal.read, takeTerm, hlexeme])) hmet

/-- The arguments of a call, and the call. -/
theorem arguments_meets {callee : String} {receivers : UInt16} {Q : Unit → Reader → Prop}
    (h : course.At credit (.expect (.symbol .leftParen) :: .callArguments callee receivers :: goals)
      reader) (hnext : ∀ after, course.At 4 goals after → Q () after) :
    course.Meets (arguments call callee receivers) Q reader := by
  refine .bind (h.expect (by decide) fun after h => ?_)
  refine .bind (hcall.meets (.expressionList callee receivers) h (by simp) fun _ after h => ?_)
  exact .bind (h.expect (by decide) fun after h => .emit rfl h hnext)

/-- A call of a method of a variable finds the variable again by its name. -/
theorem subroutineCall_does (name : String) (span : Span) :
    Does course 0 4 (subroutineCall call name span) [.callRest name] fun _ _ => [] := by
  intro goals reader Q h hQ
  refine .bind (h.peek (fun _ _ => rfl) fun token after h hahead => ?_)
  split
  case h_1 hkind =>
    have hlexeme := kind_symbol.mp hkind
    refine .bind (h.advance hahead (by simp [hlexeme]) fun after _ h => ?_)
    simp only [Goal.read, takeCall, hlexeme] at h
    have h : course.At 4 (.methodName name :: goals) after := h
    refine .bind (h.identifier (fun _ _ => rfl) (fun _ _ => rfl)
      fun token method after _ h => .bind (.getState ?_))
    cases hlookup : after.state.symbols.lookup? name with
    | some declared =>
      have hresolve : after.state.symbols.resolve name = .ok declared := by
        rw [SymbolTable.resolve, hlookup]
      simp only [hlookup] at h
      rw [SymbolTable.storageOf?, hlookup, SymbolTable.indexOf, SymbolTable.typeOf, hresolve]
      refine .bind (.pure (.bind (.pure (.bind (.emit rfl h.written fun after h => ?_)))))
      exact arguments_meets hcall h (hQ ())
    | none =>
      simp only [hlookup] at h
      rw [SymbolTable.storageOf?, hlookup]
      exact arguments_meets hcall h (hQ ())
  case h_2 hkind =>
    have hlexeme := kind_symbol.mp hkind
    have hread : (Goal.callRest name).read token after.state =
        .take (write [.push .pointer 0] ++ []) [.callArguments (after.state.qualify name) 1]
          after.state := by
      simp only [Goal.read, takeCall, hlexeme, List.append_nil]
    have h := Course.Due.emit
      (Course.Due.apart h hahead (by simp [hlexeme]) hread fun _ _ => rfl)
    rw [hkind] at h
    exact .bind (.emitted rfl (.bind (.getState (arguments_meets hcall h (hQ ())))))
  case h_3 hdot hparen =>
    rw [imp_false, kind_symbol] at hdot hparen
    exact .unexpected (h.refuse hahead (by simp only [Goal.read, takeCall]))
      (Course.Due.met h hahead)

/-- An argument list that ends leaves its parenthesis, and the call behind it, to the caller. -/
theorem expressionList_does (callee : String) (receivers : UInt16) :
    Does course 3 0 (expressionList call) [.callArguments callee receivers] fun count _ =>
      [.expect (.symbol .rightParen), .emit [.call callee (count + receivers : UInt16)]] := by
  intro goals reader Q h hQ
  refine .bind (h.peek (fun _ _ => rfl) fun token after h hahead => ?_)
  split
  case h_1 hkind =>
    have hlexeme := kind_symbol.mp hkind
    have hread : (Goal.callArguments callee receivers).read token after.state =
        .take (write [] ++ write [.call callee receivers]) [] after.state := by
      rw [Goal.read, hlexeme]
      rfl
    have h : course.At 3 (.expect token.kind :: .emit [.call callee receivers] :: goals) after :=
      Course.Due.emit (Course.Due.apart h hahead (by simp [hlexeme]) hread
        fun _ _ => run_meet (step_emit ..))
    rw [hkind, ← UInt16.zero_add receivers] at h
    exact .pure (hQ 0 _ (Course.Due.weaken h (by simp)))
  case h_2 hparen =>
    rw [imp_false, kind_symbol] at hparen
    have h : course.At 3 (.term :: ([.operators [], .moreArguments callee (receivers + 1)] ++
      goals)) after := h.term hahead (by simp only [Goal.read])
    rw [← UInt16.zero_add (receivers + 1), UInt16.add_comm receivers, ← UInt16.add_assoc] at h
    exact hcall.meets (.argument callee receivers 0) h (by simp) hQ

theorem argument_does (callee : String) (receivers count : UInt16) :
    Does course 2 0 (argument call count)
      (Compile.expression ++ [.moreArguments callee (count + 1 + receivers)]) fun count _ =>
      [.expect (.symbol .rightParen), .emit [.call callee (count + receivers : UInt16)]] := by
  intro goals reader Q h hQ
  refine .bind (hcall.meets .expression h (by simp) fun _ after h => ?_)
  have h : course.At 0 (.moreArguments callee (count + 1 + receivers) :: goals) after := h
  refine .bind (h.matchKind (fun _ _ => rfl) (by decide) (fun token after hcomma h => ?_)
    fun token after hcomma hahead h => ?_)
  · have hcount : count + 1 + receivers + 1 = count + 1 + 1 + receivers := by
      rw [UInt16.add_assoc, UInt16.add_comm receivers, ← UInt16.add_assoc]
    rw [Goal.read, kind_symbol.mp hcomma, hcount] at h
    exact hcall.meets (.argument callee receivers (count + 1)) h (by simp) hQ
  · rw [ne_eq, kind_symbol] at hcomma
    refine .pure (hQ (count + 1) _ ?_)
    by_cases hparen : token.kind = .symbol .rightParen
    · have hlexeme := kind_symbol.mp hparen
      have hread : (Goal.moreArguments callee (count + 1 + receivers)).read token after.state =
          .take (write [] ++ write [.call callee (count + 1 + receivers : UInt16)]) []
            after.state := by
        rw [Goal.read, hlexeme]
        rfl
      have h : course.At 0 (.expect token.kind ::
          .emit [.call callee (count + 1 + receivers : UInt16)] :: goals) after :=
        Course.Due.emit (Course.Due.apart h hahead (by simp [hlexeme]) hread
          fun _ _ => run_meet (step_emit ..))
      rw [hparen] at h
      exact h
    · have hother := kind_symbol.not.mp hparen
      refine h.refuses hahead ?_ (if_neg hparen)
      simp only [Goal.read]

/-! ## All of them -/

/-- What a procedure does, when a call of it has been paid for. -/
theorem body_does {α : Type} {procedure : Procedure α} {before : List Goal}
    {after : α → State → List Goal} (h : Serves procedure before after) :
    Does course (procedure.routine.cost - 1) procedure.routine.gain (body call procedure) before
      after := by
  cases h with
  | classVariables => exact classVariables_does hcall
  | names hstorage => exact names_does hcall hstorage _
  | subroutines => exact subroutines_does hcall
  | parameterList => exact parameterList_does hcall
  | parameter => exact parameter_does hcall
  | localVariables header => exact localVariables_does hcall header
  | statements => exact statements_does hcall
  | block => exact block_does hcall
  | expression => exact expression_does hcall
  | operators hcommands => exact operators_does hcall hcommands
  | term => exact term_does hcall
  | subroutineCall name span => exact subroutineCall_does hcall name span
  | expressionList callee receivers => exact expressionList_does hcall callee receivers
  | argument callee receivers count => exact argument_does hcall callee receivers count

end

end JackCompiler.Descent
