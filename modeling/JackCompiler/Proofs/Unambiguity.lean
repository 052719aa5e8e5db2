import JackCompiler.Proofs.Recognition.Declarations
/-!
# A text has one tree

No two classes print the same lexemes (`Class.lexemes_injective`). Each construct is determined by
the lexemes it begins with, as long as what follows it is not something it could go on with; the
proofs strip the constructs of two equal texts from the left.
-/

namespace JackCompiler.Syntax

open Compile (EndsTerm EndsExpression endsTerm isNoTerm NoElse NoComma NoKeyword Closes ClosesList)

/-! ## Words -/

theorem BinaryOperator.symbol_injective {a b : BinaryOperator} (h : a.symbol = b.symbol) :
    a = b := by
  cases a <;> cases b <;> first | rfl | cases h

theorem UnaryOperator.symbol_injective {a b : UnaryOperator} (h : a.symbol = b.symbol) : a = b := by
  cases a <;> cases b <;> first | rfl | cases h

theorem Constant.keyword_injective {a b : Constant} (h : a.keyword = b.keyword) : a = b := by
  cases a <;> cases b <;> first | rfl | cases h

/-! ## Expressions -/

/-- A name of a term is a variable, the base of an element, or the first name of a call, by what
follows it. -/
theorem afterName_cons (call : Call) : ∃ lexeme rest, call.afterName = lexeme :: rest ∧
    endsTerm lexeme = false ∧ lexeme ≠ .symbol .leftBracket := by
  cases call <;> exact ⟨_, _, rfl, rfl, by simp⟩

theorem EndsTerm.ne_cons {lexeme : Lexeme} {rest : List Lexeme} (h : EndsTerm (lexeme :: rest)) :
    endsTerm lexeme = true := h

section

variable {name array : String} {index : Expression} {call : Call} {r r' : List Lexeme}

theorem Term.var_ne_element (hr : EndsTerm r) :
    (Term.var name).lexemes ++ r ≠ (Term.element array index).lexemes ++ r' := by
  intro h
  simp only [Term.lexemes, List.cons_append, List.nil_append, List.append_assoc,
    List.cons.injEq, Lexeme.identifier.injEq] at h
  obtain ⟨-, rfl⟩ := h
  cases hr

theorem Term.var_ne_call (hr : EndsTerm r) :
    (Term.var name).lexemes ++ r ≠ (Term.call call).lexemes ++ r' := by
  obtain ⟨lexeme, rest, hafter, hlexeme, -⟩ := afterName_cons call
  intro h
  simp only [Term.lexemes, Call.lexemes_eq, hafter, List.cons_append, List.nil_append,
    List.cons.injEq, Lexeme.identifier.injEq] at h
  obtain ⟨-, rfl⟩ := h
  exact absurd (EndsTerm.ne_cons hr) (by simp [hlexeme])

theorem Term.element_ne_call :
    (Term.element array index).lexemes ++ r ≠ (Term.call call).lexemes ++ r' := by
  obtain ⟨lexeme, rest, hafter, -, hlexeme⟩ := afterName_cons call
  simp [Term.lexemes, Call.lexemes_eq, hafter, hlexeme.symm]

theorem Expression.ne_noTerm (e : Expression) {lexeme : Lexeme} (h : isNoTerm lexeme = true) :
    e.lexemes ++ r ≠ lexeme :: r' := by
  obtain ⟨first, text, htext, hfirst⟩ := Compile.expression_lexemes_cons e
  rw [htext, List.cons_append]
  intro heq
  rw [(List.cons.inj heq).1, h] at hfirst
  cases hfirst

end

mutual

theorem Expression.unique (e e' : Expression) {r r' : List Lexeme} (hr : EndsExpression r)
    (hr' : EndsExpression r') (h : e.lexemes ++ r = e'.lexemes ++ r') : e = e' ∧ r = r' := by
  cases e with
  | mk first rest =>
    cases e' with
    | mk first' rest' =>
      rw [Expression.lexemes, Expression.lexemes, List.append_assoc, List.append_assoc] at h
      obtain ⟨rfl, hrest⟩ := Term.unique first first' (hr.endsTerm.operations rest)
        (hr'.endsTerm.operations rest') h
      obtain ⟨rfl, hend⟩ := Operations.unique rest rest' hr hr' hrest
      exact ⟨rfl, hend⟩
termination_by structural e

theorem Operations.unique (o o' : Operations) {r r' : List Lexeme} (hr : EndsExpression r)
    (hr' : EndsExpression r') (h : o.lexemes ++ r = o'.lexemes ++ r') : o = o' ∧ r = r' := by
  cases o with
  | nil =>
    cases o' with
    | nil => exact ⟨rfl, h⟩
    | cons op operand rest =>
      rw [Operations.lexemes, List.nil_append] at h
      subst h
      cases op <;> cases hr
  | cons op operand rest =>
    cases o' with
    | nil =>
      rw [Operations.lexemes, Operations.lexemes, List.nil_append] at h
      subst h
      cases op <;> cases hr'
    | cons op' operand' rest' =>
      simp only [Operations.lexemes, List.cons_append, List.append_assoc, List.cons.injEq,
        Lexeme.symbol.injEq] at h
      obtain ⟨hop, h⟩ := h
      obtain rfl := BinaryOperator.symbol_injective hop
      obtain ⟨rfl, hrest⟩ := Term.unique operand operand' (hr.endsTerm.operations rest)
        (hr'.endsTerm.operations rest') h
      obtain ⟨rfl, hend⟩ := Operations.unique rest rest' hr hr' hrest
      exact ⟨rfl, hend⟩
termination_by structural o

theorem Term.unique (t t' : Term) {r r' : List Lexeme} (hr : EndsTerm r) (hr' : EndsTerm r')
    (h : t.lexemes ++ r = t'.lexemes ++ r') : t = t' ∧ r = r' := by
  cases t with
  | integer digits =>
    cases t' <;> simp [Term.lexemes, Call.lexemes_eq] at h ⊢
    exact h
  | string contents =>
    cases t' <;> simp [Term.lexemes, Call.lexemes_eq] at h ⊢
    exact h
  | constant value =>
    cases t' <;> simp [Term.lexemes, Call.lexemes_eq] at h ⊢
    exact ⟨Constant.keyword_injective h.1, h.2⟩
  | var name =>
    cases t' with
    | var name' => simpa [Term.lexemes] using h
    | element array index => exact absurd h (Term.var_ne_element hr)
    | call call => exact absurd h (Term.var_ne_call hr)
    | _ => simp [Term.lexemes] at h
  | element array index =>
    cases t' with
    | var name' => exact absurd h.symm (Term.var_ne_element hr')
    | element array' index' =>
      simp only [Term.lexemes, List.cons_append, List.nil_append, List.append_assoc,
        List.cons.injEq, true_and, Lexeme.identifier.injEq] at h
      obtain ⟨rfl, h⟩ := h
      obtain ⟨rfl, hend⟩ := Expression.unique index index' (by rfl) (by rfl) h
      simpa using hend
    | call call => exact absurd h Term.element_ne_call
    | _ => simp [Term.lexemes] at h
  | call call =>
    cases t' with
    | var name' => exact absurd h.symm (Term.var_ne_call hr')
    | element array' index' => exact absurd h.symm Term.element_ne_call
    | call call' =>
      obtain ⟨rfl, hend⟩ := Call.unique call call' h
      exact ⟨rfl, hend⟩
    | _ => simp [Term.lexemes, Call.lexemes_eq] at h
  | group inner =>
    cases t' with
    | group inner' =>
      simp only [Term.lexemes, List.cons_append, List.nil_append, List.append_assoc,
        List.cons.injEq, true_and] at h
      obtain ⟨rfl, hend⟩ := Expression.unique inner inner' (by rfl) (by rfl) h
      simpa using hend
    | unary op operand => cases op <;> simp [Term.lexemes, UnaryOperator.symbol] at h
    | _ => simp [Term.lexemes, Call.lexemes_eq] at h
  | unary op operand =>
    cases t' with
    | group inner' => cases op <;> simp [Term.lexemes, UnaryOperator.symbol] at h
    | unary op' operand' =>
      simp only [Term.lexemes, List.cons_append, List.cons.injEq, Lexeme.symbol.injEq] at h
      obtain ⟨hop, h⟩ := h
      obtain rfl := UnaryOperator.symbol_injective hop
      obtain ⟨rfl, hend⟩ := Term.unique operand operand' hr hr' h
      exact ⟨rfl, hend⟩
    | _ => simp [Term.lexemes, Call.lexemes_eq] at h
termination_by structural t

theorem Call.unique (call call' : Call) {r r' : List Lexeme}
    (h : call.lexemes ++ r = call'.lexemes ++ r') : call = call' ∧ r = r' := by
  cases call with
  | own name arguments =>
    cases call' with
    | own name' arguments' =>
      simp only [Call.lexemes, List.cons_append, List.nil_append, List.append_assoc,
        List.cons.injEq, true_and, Lexeme.identifier.injEq] at h
      obtain ⟨rfl, h⟩ := h
      obtain ⟨rfl, hend⟩ := Arguments.unique arguments arguments' h
      exact ⟨rfl, hend⟩
    | dotted => simp [Call.lexemes] at h
  | dotted receiver name arguments =>
    cases call' with
    | own => simp [Call.lexemes] at h
    | dotted receiver' name' arguments' =>
      simp only [Call.lexemes, List.cons_append, List.nil_append, List.append_assoc,
        List.cons.injEq, true_and, Lexeme.identifier.injEq] at h
      obtain ⟨rfl, rfl, h⟩ := h
      obtain ⟨rfl, hend⟩ := Arguments.unique arguments arguments' h
      exact ⟨rfl, hend⟩
termination_by structural call

theorem Arguments.unique (a a' : Arguments) {r r' : List Lexeme}
    (h : a.lexemes ++ .symbol .rightParen :: r = a'.lexemes ++ .symbol .rightParen :: r') :
    a = a' ∧ r = r' := by
  cases a with
  | nil =>
    cases a' with
    | nil => simpa [Arguments.lexemes] using h
    | cons first rest =>
      rw [Arguments.lexemes, Arguments.lexemes, List.nil_append, List.append_assoc] at h
      exact absurd h.symm (first.ne_noTerm rfl)
  | cons first rest =>
    cases a' with
    | nil =>
      rw [Arguments.lexemes, Arguments.lexemes, List.nil_append, List.append_assoc] at h
      exact absurd h (first.ne_noTerm rfl)
    | cons first' rest' =>
      rw [Arguments.lexemes, Arguments.lexemes, List.append_assoc, List.append_assoc] at h
      obtain ⟨rfl, hrest⟩ := Expression.unique first first' (by cases rest <;> rfl)
        (by cases rest' <;> rfl) h
      obtain ⟨rfl, hend⟩ := Arguments.unique_more rest rest' hrest
      exact ⟨rfl, hend⟩
termination_by structural a

theorem Arguments.unique_more (a a' : Arguments) {r r' : List Lexeme}
    (h : a.moreLexemes ++ .symbol .rightParen :: r = a'.moreLexemes ++ .symbol .rightParen :: r') :
    a = a' ∧ r = r' := by
  cases a with
  | nil =>
    cases a' with
    | nil => simpa [Arguments.moreLexemes] using h
    | cons first rest => simp [Arguments.moreLexemes] at h
  | cons first rest =>
    cases a' with
    | nil => simp [Arguments.moreLexemes] at h
    | cons first' rest' =>
      simp only [Arguments.moreLexemes, List.cons_append, List.append_assoc, List.cons.injEq,
        true_and] at h
      obtain ⟨rfl, hrest⟩ := Expression.unique first first' (by cases rest <;> rfl)
        (by cases rest' <;> rfl) h
      obtain ⟨rfl, hend⟩ := Arguments.unique_more rest rest' hrest
      exact ⟨rfl, hend⟩
termination_by structural a

end

/-! ## Statements -/

/-- A condition and a block after it, if the block is unique. -/
theorem conditional_unique {condition condition' : Expression} {body body' : Statements}
    (hbody : ∀ {r r' : List Lexeme}, body.lexemes ++ .symbol .rightBrace :: r =
      body'.lexemes ++ .symbol .rightBrace :: r' → body = body' ∧ r = r') {r r' : List Lexeme}
    (h : condition.lexemes ++ .symbol .rightParen :: .symbol .leftBrace ::
        (body.lexemes ++ .symbol .rightBrace :: r) =
      condition'.lexemes ++ .symbol .rightParen :: .symbol .leftBrace ::
        (body'.lexemes ++ .symbol .rightBrace :: r')) :
    (condition = condition' ∧ body = body') ∧ r = r' := by
  obtain ⟨rfl, hblock⟩ := Expression.unique condition condition' (by rfl) (by rfl) h
  simp only [List.cons.injEq, true_and] at hblock
  obtain ⟨rfl, hend⟩ := hbody hblock
  exact ⟨⟨rfl, rfl⟩, hend⟩

mutual

theorem Statement.unique (s s' : Statement) {r r' : List Lexeme} (hr : NoElse r) (hr' : NoElse r')
    (h : s.lexemes ++ r = s'.lexemes ++ r') : s = s' ∧ r = r' := by
  cases s with
  | letVar name value =>
    cases s' with
    | letVar name' value' =>
      simp only [Statement.lexemes, List.cons_append, List.append_assoc, List.cons.injEq, true_and,
        Lexeme.identifier.injEq] at h
      obtain ⟨rfl, h⟩ := h
      obtain ⟨rfl, hend⟩ := Expression.unique value value' (by rfl) (by rfl) h
      simpa using hend
    | _ => simp [Statement.lexemes] at h
  | letElement array index value =>
    cases s' with
    | letElement array' index' value' =>
      simp only [Statement.lexemes, List.cons_append, List.append_assoc, List.cons.injEq, true_and,
        Lexeme.identifier.injEq] at h
      obtain ⟨rfl, h⟩ := h
      obtain ⟨rfl, hvalue⟩ := Expression.unique index index' (by rfl) (by rfl) h
      simp only [List.cons.injEq, true_and] at hvalue
      obtain ⟨rfl, hend⟩ := Expression.unique value value' (by rfl) (by rfl) hvalue
      simpa using hend
    | _ => simp [Statement.lexemes] at h
  | ifThen condition body =>
    cases s' with
    | ifThen condition' body' =>
      simp only [Statement.lexemes, List.cons_append, List.append_assoc, List.cons.injEq, true_and]
        at h
      obtain ⟨⟨rfl, rfl⟩, hend⟩ := conditional_unique (Statements.unique body body') h
      exact ⟨rfl, hend⟩
    | ifElse condition' body' alternative =>
      simp only [Statement.lexemes, List.cons_append, List.append_assoc, List.cons.injEq, true_and]
        at h
      obtain ⟨⟨rfl, rfl⟩, hend⟩ := conditional_unique (Statements.unique body body') h
      rw [List.nil_append] at hend
      subst hend
      cases hr
    | _ => simp [Statement.lexemes] at h
  | ifElse condition body alternative =>
    cases s' with
    | ifThen condition' body' =>
      simp only [Statement.lexemes, List.cons_append, List.append_assoc, List.cons.injEq, true_and]
        at h
      obtain ⟨⟨rfl, rfl⟩, hend⟩ := conditional_unique (Statements.unique body body') h
      rw [List.nil_append] at hend
      subst hend
      cases hr'
    | ifElse condition' body' alternative' =>
      simp only [Statement.lexemes, List.cons_append, List.append_assoc, List.cons.injEq, true_and]
        at h
      obtain ⟨⟨rfl, rfl⟩, halternative⟩ := conditional_unique (Statements.unique body body') h
      simp only [List.cons.injEq, true_and] at halternative
      obtain ⟨rfl, hend⟩ := Statements.unique alternative alternative' halternative
      exact ⟨rfl, hend⟩
    | _ => simp [Statement.lexemes] at h
  | whileLoop condition body =>
    cases s' with
    | whileLoop condition' body' =>
      simp only [Statement.lexemes, List.cons_append, List.append_assoc, List.cons.injEq, true_and]
        at h
      obtain ⟨⟨rfl, rfl⟩, hend⟩ := conditional_unique (Statements.unique body body') h
      exact ⟨rfl, hend⟩
    | _ => simp [Statement.lexemes] at h
  | doCall call =>
    cases s' with
    | doCall call' =>
      simp only [Statement.lexemes, List.cons_append, List.append_assoc, List.cons.injEq, true_and]
        at h
      obtain ⟨rfl, hend⟩ := Call.unique call call' h
      simpa using hend
    | _ => simp [Statement.lexemes] at h
  | returnNothing =>
    cases s' with
    | returnNothing => simpa [Statement.lexemes] using h
    | returnValue value =>
      simp only [Statement.lexemes, List.cons_append, List.nil_append, List.append_assoc,
        List.cons.injEq, true_and] at h
      exact absurd h.symm (value.ne_noTerm rfl)
    | _ => simp [Statement.lexemes] at h
  | returnValue value =>
    cases s' with
    | returnNothing =>
      simp only [Statement.lexemes, List.cons_append, List.nil_append, List.append_assoc,
        List.cons.injEq, true_and] at h
      exact absurd h (value.ne_noTerm rfl)
    | returnValue value' =>
      simp only [Statement.lexemes, List.cons_append, List.append_assoc, List.cons.injEq, true_and]
        at h
      obtain ⟨rfl, hend⟩ := Expression.unique value value' (by rfl) (by rfl) h
      simpa using hend
    | _ => simp [Statement.lexemes] at h

theorem Statements.unique (b b' : Statements) {r r' : List Lexeme}
    (h : b.lexemes ++ .symbol .rightBrace :: r = b'.lexemes ++ .symbol .rightBrace :: r') :
    b = b' ∧ r = r' := by
  cases b with
  | nil =>
    cases b' with
    | nil => simpa [Statements.lexemes] using h
    | cons first rest => cases first <;> simp [Statements.lexemes, Statement.lexemes] at h
  | cons first rest =>
    cases b' with
    | nil => cases first <;> simp [Statements.lexemes, Statement.lexemes] at h
    | cons first' rest' =>
      rw [Statements.lexemes, Statements.lexemes, List.append_assoc, List.append_assoc] at h
      obtain ⟨rfl, hrest⟩ := Statement.unique first first' (Compile.noElse_statements rest (by rfl))
        (Compile.noElse_statements rest' (by rfl)) h
      obtain ⟨rfl, hend⟩ := Statements.unique rest rest' hrest
      exact ⟨rfl, hend⟩

end

/-! ## Declarations -/

theorem TypeName.lexeme_injective {a b : TypeName} (h : a.lexeme = b.lexeme) : a = b := by
  cases a <;> cases b <;> simp_all [TypeName.lexeme]

theorem returnLexeme_injective {a b : Option TypeName} (h : returnLexeme a = returnLexeme b) :
    a = b := by
  cases a with
  | none =>
    cases b with
    | none => rfl
    | some b => cases b <;> cases h
  | some a =>
    cases b with
    | none => cases a <;> cases h
    | some b => rw [TypeName.lexeme_injective h]

theorem subroutineKeyword_injective {a b : Compile.SubroutineKind}
    (h : subroutineKeyword a = subroutineKeyword b) : a = b := by
  cases a <;> cases b <;> first | rfl | cases h

/-- A list of constructs, each of which is unique, up to something that begins none of them. -/
theorem flatMap_unique {α : Type} {f : α → List Lexeme} {Stops : List Lexeme → Prop}
    (hbegin : ∀ a r, ¬Stops (f a ++ r))
    (hone : ∀ a a' r r', f a ++ r = f a' ++ r' → a = a' ∧ r = r') (as as' : List α)
    {r r' : List Lexeme} (hr : Stops r) (hr' : Stops r')
    (h : as.flatMap f ++ r = as'.flatMap f ++ r') : as = as' ∧ r = r' := by
  induction as generalizing as' with
  | nil =>
    cases as' with
    | nil => exact ⟨rfl, h⟩
    | cons a' as' =>
      rw [List.flatMap_nil, List.nil_append, List.flatMap_cons, List.append_assoc] at h
      exact absurd (h ▸ hr) (hbegin a' _)
  | cons a as ih =>
    cases as' with
    | nil =>
      rw [List.flatMap_nil, List.nil_append, List.flatMap_cons, List.append_assoc] at h
      exact absurd (h ▸ hr') (hbegin a _)
    | cons a' as' =>
      rw [List.flatMap_cons, List.flatMap_cons, List.append_assoc, List.append_assoc] at h
      obtain ⟨rfl, hrest⟩ := hone a a' _ _ h
      obtain ⟨rfl, hend⟩ := ih as' hrest
      exact ⟨rfl, hend⟩

theorem VariableGroup.unique (g g' : VariableGroup) {r r' : List Lexeme} (hr : NoComma r)
    (hr' : NoComma r') (h : g.lexemes ++ r = g'.lexemes ++ r') : g = g' ∧ r = r' := by
  obtain ⟨type, first, more⟩ := g
  obtain ⟨type', first', more'⟩ := g'
  simp only [VariableGroup.lexemes, List.cons_append, List.cons.injEq, Lexeme.identifier.injEq] at h
  obtain ⟨htype, rfl, hmore⟩ := h
  obtain rfl := TypeName.lexeme_injective htype
  have htail : more = more' ∧ r = r' := by
    refine flatMap_unique (fun a r h => ?_) (fun a a' r r' h => ?_) more more' hr hr' hmore
    · cases h
    · simpa using h
  obtain ⟨rfl, hend⟩ := htail
  exact ⟨rfl, hend⟩

theorem classVariables_unique (groups groups' : List ClassVariables) {r r' : List Lexeme}
    (hr : NoKeyword [.static, .field] r) (hr' : NoKeyword [.static, .field] r')
    (h : groups.flatMap (·.lexemes) ++ r = groups'.flatMap (·.lexemes) ++ r') :
    groups = groups' ∧ r = r' := by
  refine flatMap_unique (fun a r h => ?_) (fun a a' r r' h => ?_) groups groups' hr hr' h
  · obtain ⟨storage, group⟩ := a
    cases storage <;> cases h
  · obtain ⟨storage, group⟩ := a
    obtain ⟨storage', group'⟩ := a'
    simp only [ClassVariables.lexemes, List.cons_append, List.append_assoc, List.cons.injEq,
      Lexeme.keyword.injEq] at h
    obtain ⟨hstorage, hgroup⟩ := h
    have hstorage : storage = storage' := by
      cases storage <;> cases storage' <;> first | rfl | cases hstorage
    obtain ⟨rfl, hend⟩ := group.unique group' (by rfl) (by rfl) hgroup
    subst hstorage
    simpa using hend

theorem locals_unique (groups groups' : List VariableGroup) {r r' : List Lexeme}
    (hr : NoKeyword [.var] r) (hr' : NoKeyword [.var] r')
    (h : groups.flatMap localLexemes ++ r = groups'.flatMap localLexemes ++ r') :
    groups = groups' ∧ r = r' := by
  refine flatMap_unique (fun a r h => by cases h) (fun a a' r r' h => ?_) groups groups' hr hr' h
  simp only [localLexemes, List.cons_append, List.append_assoc, List.cons.injEq, true_and] at h
  obtain ⟨rfl, hend⟩ := a.unique a' (by rfl) (by rfl) h
  simpa using hend

theorem parameterTail_unique (parameters parameters' : List Parameter) {r r' : List Lexeme}
    (hr : NoComma r) (hr' : NoComma r')
    (h : parameterTail parameters ++ r = parameterTail parameters' ++ r') :
    parameters = parameters' ∧ r = r' := by
  refine flatMap_unique (fun a r h => by cases h) (fun a a' r r' h => ?_) parameters parameters'
    hr hr' h
  obtain ⟨type, name⟩ := a
  obtain ⟨type', name'⟩ := a'
  simp only [Parameter.lexemes, List.cons_append, List.nil_append, List.cons.injEq, true_and,
    Lexeme.identifier.injEq] at h
  obtain ⟨htype, rfl, hend⟩ := h
  obtain rfl := TypeName.lexeme_injective htype
  exact ⟨rfl, hend⟩

theorem parameterList_unique (parameters parameters' : List Parameter) {r r' : List Lexeme}
    (h : parameterList parameters ++ .symbol .rightParen :: r =
      parameterList parameters' ++ .symbol .rightParen :: r') :
    parameters = parameters' ∧ r = r' := by
  cases parameters with
  | nil =>
    cases parameters' with
    | nil => simpa [parameterList] using h
    | cons first rest =>
      cases htype : first.type <;>
        simp [parameterList, Parameter.lexemes, htype, TypeName.lexeme] at h
  | cons first rest =>
    cases parameters' with
    | nil =>
      cases htype : first.type <;>
        simp [parameterList, Parameter.lexemes, htype, TypeName.lexeme] at h
    | cons first' rest' =>
      have h : parameterTail (first :: rest) ++ .symbol .rightParen :: r =
          parameterTail (first' :: rest') ++ .symbol .rightParen :: r' :=
        congrArg (Lexeme.symbol .comma :: ·) h
      obtain ⟨heq, hend⟩ := parameterTail_unique _ _ (by rfl) (by rfl) h
      exact ⟨heq, by simpa using hend⟩

/-! ## Classes -/

theorem Subroutine.unique (s s' : Subroutine) {r r' : List Lexeme}
    (h : s.lexemes ++ r = s'.lexemes ++ r') : s = s' ∧ r = r' := by
  obtain ⟨kind, returnType, name, parameters, locals, body⟩ := s
  obtain ⟨kind', returnType', name', parameters', locals', body'⟩ := s'
  simp only [Subroutine.lexemes, Subroutine.signatureAndBody, List.cons_append, List.append_assoc,
    List.cons.injEq, Lexeme.keyword.injEq, Lexeme.identifier.injEq, true_and] at h
  obtain ⟨hkind, hreturn, rfl, hparameters⟩ := h
  obtain rfl := subroutineKeyword_injective hkind
  obtain rfl := returnLexeme_injective hreturn
  obtain ⟨rfl, hlocals⟩ := parameterList_unique parameters parameters' hparameters
  simp only [List.cons.injEq, true_and] at hlocals
  obtain ⟨rfl, hbody⟩ := locals_unique locals locals' (Compile.noVar_statements body (by rfl))
    (Compile.noVar_statements body' (by rfl)) hlocals
  obtain ⟨rfl, hend⟩ := Statements.unique body body' hbody
  exact ⟨rfl, by simpa using hend⟩

/-- A list of lexemes is the text of at most one class. -/
theorem Class.lexemes_injective {c c' : Class} (h : c.lexemes = c'.lexemes) : c = c' := by
  obtain ⟨name, groups, subroutines⟩ := c
  obtain ⟨name', groups', subroutines'⟩ := c'
  simp only [Class.lexemes, List.cons_append, List.append_assoc, List.cons.injEq, true_and,
    Lexeme.identifier.injEq] at h
  obtain ⟨rfl, hgroups⟩ := h
  obtain ⟨rfl, hsubroutines⟩ := classVariables_unique groups groups'
    (Compile.noKeyword_subroutines subroutines (by rfl))
    (Compile.noKeyword_subroutines subroutines' (by rfl))
    hgroups
  have hbegin (s : Subroutine) (r : List Lexeme) : ¬Closes (s.lexemes ++ r) := by
    cases hkind : s.kind <;> simp [Subroutine.lexemes, hkind, Closes]
  obtain ⟨rfl, -⟩ := flatMap_unique hbegin (fun s s' _ _ => s.unique s') subroutines subroutines'
    (by rfl) (by rfl) hsubroutines
  rfl

end JackCompiler.Syntax
