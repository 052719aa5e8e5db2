import JackCompiler.Proofs.Translation
/-!
# Expressions at any depth

The expressions of a statement list: those its statements are made of, and those inside their terms.
Wherever an expression stands, its code stands in the code of the whole in one piece, and its terms
are terms of the whole.
-/

namespace JackCompiler.Syntax

mutual

/-- The expression itself and the expressions in it. -/
def Expression.expressions : Expression → List Expression
  | .mk first rest => .mk first rest :: (first.expressions ++ rest.expressions)

def Operations.expressions : Operations → List Expression
  | .nil => []
  | .cons _ operand rest => operand.expressions ++ rest.expressions

def Term.expressions : Term → List Expression
  | .element _ index => index.expressions
  | .call call => call.expressions
  | .group inner => inner.expressions
  | .unary _ operand => operand.expressions
  | .integer _ | .string _ | .constant _ | .var _ => []

def Call.expressions : Call → List Expression
  | .own _ arguments => arguments.expressions
  | .dotted _ _ arguments => arguments.expressions

def Arguments.expressions : Arguments → List Expression
  | .nil => []
  | .cons first rest => first.expressions ++ rest.expressions

end

mutual

def Statement.expressions : Statement → List Expression
  | .letVar _ value => value.expressions
  | .letElement _ index value => index.expressions ++ value.expressions
  | .ifThen condition body => condition.expressions ++ body.expressions
  | .ifElse condition body alternative =>
    condition.expressions ++ body.expressions ++ alternative.expressions
  | .whileLoop condition body => condition.expressions ++ body.expressions
  | .doCall call => call.expressions
  | .returnNothing => []
  | .returnValue value => value.expressions

def Statements.expressions : Statements → List Expression
  | .nil => []
  | .cons first rest => first.expressions ++ rest.expressions

end

/-- The code of an expression stands in code, and its terms among terms. -/
structure Expression.Occurs (e : Expression) (scope : Scope) (code : List Vm.Command)
    (terms : List Term) : Prop where
  code : e.code scope <:+: code
  terms : e.terms ⊆ terms

namespace Expression.Occurs

variable {e : Expression} {scope : Scope} {code : List Vm.Command} {terms : List Term}

theorem left (h : e.Occurs scope code terms) (more : List Vm.Command) (others : List Term) :
    e.Occurs scope (code ++ more) (terms ++ others) :=
  ⟨List.infix_append_of_infix_left h.code, List.subset_append_of_subset_left _ h.terms⟩

theorem right (h : e.Occurs scope code terms) (before : List Vm.Command) (others : List Term) :
    e.Occurs scope (before ++ code) (others ++ terms) :=
  ⟨List.infix_append_of_infix_right h.code, List.subset_append_of_subset_right _ h.terms⟩

/-- Code before and after makes no difference. -/
theorem between (h : e.Occurs scope code terms) (before after : List Vm.Command) :
    e.Occurs scope (before ++ code ++ after) terms :=
  ⟨List.infix_append_of_infix_left (List.infix_append_of_infix_right h.code), h.terms⟩

theorem widen (h : e.Occurs scope code terms) {others : List Term} (hterms : terms ⊆ others) :
    e.Occurs scope code others := ⟨h.code, List.Subset.trans h.terms hterms⟩

end Expression.Occurs

variable {scope : Scope} {e : Expression}

mutual

theorem Expression.occurs (whole : Expression) (h : e ∈ whole.expressions) :
    e.Occurs scope (whole.code scope) whole.terms := by
  cases whole with
  | mk first rest =>
    simp only [Expression.expressions, List.mem_cons, List.mem_append] at h
    rcases h with rfl | h | h
    · exact ⟨List.infix_refl _, List.Subset.refl _⟩
    · exact (Term.occurs first h).left _ _
    · exact (Operations.occurs rest h).right _ _

theorem Operations.occurs (operations : Operations) (h : e ∈ operations.expressions) :
    e.Occurs scope (operations.code scope) operations.terms := by
  cases operations with
  | nil => cases h
  | cons op operand rest =>
    rw [Operations.code, List.append_assoc]
    rcases List.mem_append.mp h with h | h
    · exact (Term.occurs operand h).left _ _
    · exact ((Operations.occurs rest h).between [] [op.command]).right _ _

theorem Term.occurs (t : Term) (h : e ∈ t.expressions) :
    e.Occurs scope (t.code scope) t.terms := by
  cases t with
  | integer | string | constant | var => cases h
  | element array index =>
    exact ((Expression.occurs index h).between (scope.read array) _).right [] [.element array index]
  | call call => exact (Call.occurs call h).right [] [.call call]
  | group inner => exact (Expression.occurs inner h).right [] [.group inner]
  | unary op operand =>
    exact ((Term.occurs operand h).between [] [op.command]).right [] [.unary op operand]

theorem Call.occurs (call : Call) (h : e ∈ call.expressions) :
    e.Occurs scope (call.code scope) call.terms := by
  cases call with
  | own name arguments => exact (Arguments.occurs arguments h).between [.push .pointer 0] _
  | dotted receiver name arguments =>
    rw [Call.code]
    split
    · exact (Arguments.occurs arguments h).between [_] _
    · exact (Arguments.occurs arguments h).between [] _

theorem Arguments.occurs (arguments : Arguments) (h : e ∈ arguments.expressions) :
    e.Occurs scope (arguments.code scope) arguments.terms := by
  cases arguments with
  | nil => cases h
  | cons first rest =>
    rcases List.mem_append.mp h with h | h
    · exact (Expression.occurs first h).left _ _
    · exact (Arguments.occurs rest h).right _ _

end

mutual

theorem Statement.occurs (s : Statement) (i w : Nat) (h : e ∈ s.expressions) :
    e.Occurs scope (s.code scope i w) s.terms := by
  cases s with
  | letVar name value => exact (Expression.occurs value h).between [] _
  | letElement array index value =>
    rcases List.mem_append.mp h with h | h
    · exact ((((Expression.occurs index h).between (scope.read array) _).between [] _).between []
        _).widen (List.subset_append_left _ _)
    · exact ((Expression.occurs value h).between _ _).widen (List.subset_append_right _ _)
  | ifThen condition body =>
    rcases List.mem_append.mp h with h | h
    · exact ((((Expression.occurs condition h).between [] _).between [] _).between []
        _).widen (List.subset_append_left _ _)
    · exact ((Statements.occurs body _ _ h).between _ _).widen (List.subset_append_right _ _)
  | ifElse condition body alternative =>
    rcases List.mem_append.mp h with h | h
    · rcases List.mem_append.mp h with h | h
      · exact ((((((Expression.occurs condition h).between [] _).between [] _).between []
          _).between [] _).between [] _).widen fun t ht => by simp [Statement.terms, ht]
      · exact ((((Statements.occurs body _ _ h).between _ _).between [] _).between []
          _).widen fun t ht => by simp [Statement.terms, ht]
    · exact ((Statements.occurs alternative _ _ h).between _ _).widen (List.subset_append_right _ _)
  | whileLoop condition body =>
    rcases List.mem_append.mp h with h | h
    · exact ((((Expression.occurs condition h).between [_] _).between [] _).between []
        _).widen (List.subset_append_left _ _)
    · exact ((Statements.occurs body _ _ h).between _ _).widen (List.subset_append_right _ _)
  | doCall call => exact (Call.occurs call h).between [] _
  | returnNothing => cases h
  | returnValue value => exact (Expression.occurs value h).between [] _

theorem Statements.occurs (body : Statements) (i w : Nat) (h : e ∈ body.expressions) :
    e.Occurs scope (body.code scope i w) body.terms := by
  cases body with
  | nil => cases h
  | cons first rest =>
    rcases List.mem_append.mp h with h | h
    · exact (Statement.occurs first i w h).left _ _
    · exact (Statements.occurs rest _ _ h).right _ _

end

end JackCompiler.Syntax
