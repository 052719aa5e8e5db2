import JackCompiler.Proofs.Translation
/-!
# Statements at any depth

The statements of a list and those inside their blocks, and the place of each in the code of the
list: the code before it, and its own (`Statements.placed`).
-/

namespace JackCompiler.Syntax

open Vm (Command)

mutual

/-- The statements in the blocks of a statement, at any depth. -/
def Statement.inner : Statement → List Statement
  | .ifThen _ body => body.all
  | .ifElse _ body alternative => body.all ++ alternative.all
  | .whileLoop _ body => body.all
  | .letVar _ _ | .letElement _ _ _ | .doCall _ | .returnNothing | .returnValue _ => []

/-- The statements of a list at any depth, in the order of the source. -/
def Statements.all : Statements → List Statement
  | .nil => []
  | .cons first rest => first :: first.inner ++ rest.all

end

/-- A statement with the code before it, and the numbers of its first `if` and `while`. -/
structure Placed where
  statement : Statement
  before : List Command
  ifNumber : Nat
  whileNumber : Nat

namespace Placed

def code (scope : Scope) (p : Placed) : List Command :=
  p.statement.code scope p.ifNumber p.whileNumber

/-- The same statement with more code before it. -/
def behind (more : List Command) (p : Placed) : Placed := { p with before := more ++ p.before }

@[simp]
theorem behind_statement (more : List Command) (p : Placed) :
    (p.behind more).statement = p.statement := rfl

@[simp]
theorem behind_before (more : List Command) (p : Placed) :
    (p.behind more).before = more ++ p.before := rfl

@[simp]
theorem behind_code (scope : Scope) (more : List Command) (p : Placed) :
    (p.behind more).code scope = p.code scope := rfl

end Placed

section

variable (scope : Scope)

mutual

/-- The statements in the blocks of a statement, placed in its code. -/
def Statement.placed (i w : Nat) : Statement → List Placed
  | .ifThen condition body =>
    (body.placed (i + 1) w).map (·.behind (condition.code scope ++ Compile.branch (.ofNat i)))
  | .ifElse condition body alternative =>
    (body.placed (i + 1) w).map (·.behind (condition.code scope ++ Compile.branch (.ofNat i))) ++
      (alternative.placed (i + 1 + body.ifs) (w + body.whiles)).map
        (·.behind (condition.code scope ++ Compile.branch (.ofNat i) ++ body.code scope (i + 1) w ++
          Compile.alternative (.ofNat i)))
  | .whileLoop condition body =>
    (body.placed i (w + 1)).map
      (·.behind ([.label (Compile.whileStart (.ofNat w))] ++ condition.code scope ++
        Compile.leaveLoop (.ofNat w)))
  | .letVar _ _ | .letElement _ _ _ | .doCall _ | .returnNothing | .returnValue _ => []

/-- The statements of a list at any depth, placed in its code. -/
def Statements.placed (i w : Nat) : Statements → List Placed
  | .nil => []
  | .cons first rest =>
    ⟨first, [], i, w⟩ :: first.placed i w ++
      (rest.placed (i + first.ifs) (w + first.whiles)).map (·.behind (first.code scope i w))

end

end

/-- The code of a placed statement stands in other code at its place. -/
def Placed.Stands (scope : Scope) (p : Placed) (code : List Command) : Prop :=
  p.before ++ p.code scope <+: code

namespace Placed.Stands

variable {scope : Scope} {p : Placed} {code : List Command}

theorem behind (h : p.Stands scope code) (more : List Command) :
    (p.behind more).Stands scope (more ++ code) := by
  rw [Placed.Stands, behind_before, behind_code, List.append_assoc, List.prefix_append_right_inj]
  exact h

theorem append (h : p.Stands scope code) (after : List Command) :
    p.Stands scope (code ++ after) :=
  List.IsPrefix.trans h (List.prefix_append code after)

end Placed.Stands

mutual

theorem Statement.placed_stands (scope : Scope) (s : Statement) (i w : Nat) :
    ∀ p ∈ s.placed scope i w, p.Stands scope (s.code scope i w) := by
  intro p hp
  cases s with
  | letVar | letElement | doCall | returnNothing | returnValue => cases hp
  | ifThen condition body =>
    obtain ⟨q, hq, rfl⟩ := List.mem_map.mp hp
    exact ((Statements.placed_stands scope body (i + 1) w q hq).behind _).append _
  | ifElse condition body alternative =>
    rcases List.mem_append.mp hp with hp | hp
    · obtain ⟨q, hq, rfl⟩ := List.mem_map.mp hp
      have hbody := (Statements.placed_stands scope body (i + 1) w q hq).behind
        (condition.code scope ++ Compile.branch (.ofNat i))
      exact ((hbody.append (Compile.alternative (.ofNat i))).append _).append _
    · obtain ⟨q, hq, rfl⟩ := List.mem_map.mp hp
      exact ((Statements.placed_stands scope alternative _ _ q hq).behind _).append _
  | whileLoop condition body =>
    obtain ⟨q, hq, rfl⟩ := List.mem_map.mp hp
    exact ((Statements.placed_stands scope body i (w + 1) q hq).behind _).append _

theorem Statements.placed_stands (scope : Scope) (body : Statements) (i w : Nat) :
    ∀ p ∈ body.placed scope i w, p.Stands scope (body.code scope i w) := by
  intro p hp
  cases body with
  | nil => cases hp
  | cons first rest =>
    rcases List.mem_append.mp hp with hp | hp
    · rcases List.mem_cons.mp hp with rfl | hp
      · exact List.prefix_append _ _
      · exact (Statement.placed_stands scope first i w p hp).append _
    · obtain ⟨q, hq, rfl⟩ := List.mem_map.mp hp
      exact (Statements.placed_stands scope rest _ _ q hq).behind _

end

theorem map_behind (more : List Command) (ps : List Placed) :
    (ps.map (·.behind more)).map (·.statement) = ps.map (·.statement) := by
  rw [List.map_map]
  rfl

mutual

theorem Statement.placed_statements (scope : Scope) (s : Statement) (i w : Nat) :
    (s.placed scope i w).map (·.statement) = s.inner := by
  cases s with
  | ifThen condition body | whileLoop condition body =>
    rw [Statement.placed, map_behind, Statements.placed_statements scope body, Statement.inner]
  | ifElse condition body alternative =>
    rw [Statement.placed, List.map_append, map_behind, map_behind,
      Statements.placed_statements scope body, Statements.placed_statements scope alternative,
      Statement.inner]
  | _ => rfl

/-- Every statement has a place. -/
theorem Statements.placed_statements (scope : Scope) (body : Statements) (i w : Nat) :
    (body.placed scope i w).map (·.statement) = body.all := by
  cases body with
  | nil => rfl
  | cons first rest =>
    rw [Statements.placed, List.map_append, List.map_cons, map_behind,
      Statement.placed_statements scope first, Statements.placed_statements scope rest,
      Statements.all]

end

end JackCompiler.Syntax
