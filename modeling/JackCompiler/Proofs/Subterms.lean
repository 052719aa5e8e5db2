import JackCompiler.Proofs.Scope
/-!
# The text of a term in the text around it

Every term of an expression or a statement list, at any depth, stands in its text with all of its
own lexemes. What the terms of a tree have to do with lexemes, as string constants and the names of
variables do, is so a matter of one term each.
-/

namespace JackCompiler.Syntax

mutual

theorem Expression.terms_subset (e : Expression) {t : Term} (h : t ∈ e.terms) :
    t.lexemes ⊆ e.lexemes := by
  cases e with
  | mk first rest =>
    rw [Expression.terms, List.mem_append] at h
    rw [Expression.lexemes]
    rcases h with h | h
    · exact List.subset_append_of_subset_left _ (Term.terms_subset first h)
    · exact List.subset_append_of_subset_right _ (Operations.terms_subset rest h)

theorem Operations.terms_subset (operations : Operations) {t : Term} (h : t ∈ operations.terms) :
    t.lexemes ⊆ operations.lexemes := by
  cases operations with
  | nil => cases h
  | cons op operand rest =>
    rw [Operations.terms, List.mem_append] at h
    rw [Operations.lexemes]
    apply List.subset_cons_of_subset
    rcases h with h | h
    · exact List.subset_append_of_subset_left _ (Term.terms_subset operand h)
    · exact List.subset_append_of_subset_right _ (Operations.terms_subset rest h)

theorem Term.terms_subset (outer : Term) {t : Term} (h : t ∈ outer.terms) :
    t.lexemes ⊆ outer.lexemes := by
  cases outer with
  | integer | string | constant | var =>
    rw [List.mem_singleton.mp h]
    exact List.Subset.refl _
  | element array index =>
    rcases List.mem_cons.mp h with rfl | h
    · exact List.Subset.refl _
    · rw [Term.lexemes]
      refine List.subset_cons_of_subset _ (List.subset_cons_of_subset _ ?_)
      exact List.subset_append_of_subset_left _ (Expression.terms_subset index h)
  | call call =>
    rcases List.mem_cons.mp h with rfl | h
    · exact List.Subset.refl _
    · exact Call.terms_subset call h
  | group inner =>
    rcases List.mem_cons.mp h with rfl | h
    · exact List.Subset.refl _
    · rw [Term.lexemes]
      apply List.subset_cons_of_subset
      exact List.subset_append_of_subset_left _ (Expression.terms_subset inner h)
  | unary op operand =>
    rcases List.mem_cons.mp h with rfl | h
    · exact List.Subset.refl _
    · exact List.subset_cons_of_subset _ (Term.terms_subset operand h)

theorem Call.terms_subset (call : Call) {t : Term} (h : t ∈ call.terms) :
    t.lexemes ⊆ call.lexemes := by
  cases call with
  | own name arguments =>
    rw [Call.lexemes]
    refine List.subset_cons_of_subset _ (List.subset_cons_of_subset _ ?_)
    exact List.subset_append_of_subset_left _ (Arguments.terms_subset arguments h)
  | dotted receiver name arguments =>
    rw [Call.lexemes]
    refine List.subset_cons_of_subset _ (List.subset_cons_of_subset _ ?_)
    refine List.subset_cons_of_subset _ (List.subset_cons_of_subset _ ?_)
    exact List.subset_append_of_subset_left _ (Arguments.terms_subset arguments h)

theorem Arguments.terms_subset (arguments : Arguments) {t : Term} (h : t ∈ arguments.terms) :
    t.lexemes ⊆ arguments.lexemes := by
  cases arguments with
  | nil => cases h
  | cons first rest =>
    rw [Arguments.terms, List.mem_append] at h
    rw [Arguments.lexemes]
    rcases h with h | h
    · exact List.subset_append_of_subset_left _ (Expression.terms_subset first h)
    · exact List.subset_append_of_subset_right _ (Arguments.terms_subset_more rest h)

theorem Arguments.terms_subset_more (arguments : Arguments) {t : Term} (h : t ∈ arguments.terms) :
    t.lexemes ⊆ arguments.moreLexemes := by
  cases arguments with
  | nil => cases h
  | cons first rest =>
    rw [Arguments.terms, List.mem_append] at h
    rw [Arguments.moreLexemes]
    apply List.subset_cons_of_subset
    rcases h with h | h
    · exact List.subset_append_of_subset_left _ (Expression.terms_subset first h)
    · exact List.subset_append_of_subset_right _ (Arguments.terms_subset_more rest h)

end

mutual

theorem Statement.terms_subset (s : Statement) {t : Term} (h : t ∈ s.terms) :
    t.lexemes ⊆ s.lexemes := by
  cases s with
  | letVar name value =>
    have hvalue := value.terms_subset h
    intro lexeme hlexeme
    simp [Statement.lexemes, hvalue hlexeme]
  | letElement array index value =>
    intro lexeme hlexeme
    rcases List.mem_append.mp h with h | h
    · simp [Statement.lexemes, index.terms_subset h hlexeme]
    · simp [Statement.lexemes, value.terms_subset h hlexeme]
  | ifThen condition body | whileLoop condition body =>
    intro lexeme hlexeme
    rcases List.mem_append.mp h with h | h
    · simp [Statement.lexemes, condition.terms_subset h hlexeme]
    · simp [Statement.lexemes, Statements.terms_subset body h hlexeme]
  | ifElse condition body alternative =>
    intro lexeme hlexeme
    rw [Statement.terms, List.mem_append, List.mem_append] at h
    rcases h with (h | h) | h
    · simp [Statement.lexemes, condition.terms_subset h hlexeme]
    · simp [Statement.lexemes, Statements.terms_subset body h hlexeme]
    · simp [Statement.lexemes, Statements.terms_subset alternative h hlexeme]
  | doCall call =>
    intro lexeme hlexeme
    simp [Statement.lexemes, call.terms_subset h hlexeme]
  | returnNothing => cases h
  | returnValue value =>
    intro lexeme hlexeme
    simp [Statement.lexemes, value.terms_subset h hlexeme]

theorem Statements.terms_subset (body : Statements) {t : Term} (h : t ∈ body.terms) :
    t.lexemes ⊆ body.lexemes := by
  cases body with
  | nil => cases h
  | cons first rest =>
    rw [Statements.terms, List.mem_append] at h
    rw [Statements.lexemes]
    rcases h with h | h
    · exact List.subset_append_of_subset_left _ (Statement.terms_subset first h)
    · exact List.subset_append_of_subset_right _ (Statements.terms_subset rest h)

end

end JackCompiler.Syntax
