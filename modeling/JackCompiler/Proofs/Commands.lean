import JackCompiler.Proofs.Translation
/-!
# What commands code is made of

Every command in the code of an expression is one of a few kinds, and so is every command in the
code of statements (`Expression.commands`, `Statements.commands`). What is to hold of each command
of some code is a case analysis over these kinds, and does not look at the code again.
-/

namespace JackCompiler.Syntax

open Vm (Command)

/-- The numbers that the code of a term pushes for the term itself. -/
def Term.numbers : Term → List Nat
  | .integer digits => [decimalValue digits.toList]
  | .string contents => contents.length :: contents.toList.map Char.toNat
  | .constant .true => [1]
  | .constant .false | .constant .null => [0]
  | _ => []

/-- A command in the code of expressions, where `terms` are their terms at any depth. -/
inductive ValueCommand (scope : Scope) (terms : List Term) : Command → Prop
  | number {t : Term} {n : Nat} (ht : t ∈ terms) (hn : n ∈ t.numbers) :
    ValueCommand scope terms (.push .constant n)
  | object : ValueCommand scope terms (.push .pointer 0)
  | read {name : String} {slot : Slot} (h : scope.lookup? name = some slot) :
    ValueCommand scope terms slot.push
  | address : ValueCommand scope terms (.pop .pointer 1)
  | element : ValueCommand scope terms (.push .that 0)
  | operation (op : Vm.Operation) : ValueCommand scope terms (.operation op)
  | call (name : String) (count : Nat) : ValueCommand scope terms (.call name count)

/-- A command in the code of statements, where `terms` are their terms at any depth. -/
inductive BodyCommand (scope : Scope) (terms : List Term) : Command → Prop
  | value {command : Command} (h : ValueCommand scope terms command) :
    BodyCommand scope terms command
  | assign {name : String} {slot : Slot} (h : scope.lookup? name = some slot) :
    BodyCommand scope terms slot.pop
  | keep : BodyCommand scope terms (.pop .temp 0)
  | restore : BodyCommand scope terms (.push .temp 0)
  | store : BodyCommand scope terms (.pop .that 0)
  | nothing : BodyCommand scope terms (.push .constant 0)
  | label (name : String) : BodyCommand scope terms (.label name)
  | goto (name : String) : BodyCommand scope terms (.goto name)
  | ifGoto (name : String) : BodyCommand scope terms (.ifGoto name)
  | return : BodyCommand scope terms .return

variable {scope : Scope} {terms : List Term}

/-! ## Expressions -/

theorem read_commands (name : String) :
    ∀ command ∈ scope.read name, ValueCommand scope terms command := by
  intro command h
  obtain ⟨slot, hslot, rfl⟩ := List.mem_map.mp h
  exact .read (Option.mem_toList.mp hslot)

theorem assign_commands (name : String) :
    ∀ command ∈ scope.assign name, BodyCommand scope terms command := by
  intro command h
  obtain ⟨slot, hslot, rfl⟩ := List.mem_map.mp h
  exact .assign (Option.mem_toList.mp hslot)

theorem string_commands {contents : String} (ht : .string contents ∈ terms) :
    ∀ command ∈ stringCode contents, ValueCommand scope terms command := by
  intro command h
  simp only [stringCode, List.mem_cons, List.mem_flatMap, List.not_mem_nil, or_false] at h
  rcases h with rfl | rfl | ⟨c, hc, rfl | rfl⟩
  · exact .number ht List.mem_cons_self
  · exact .call _ _
  · exact .number ht (List.mem_cons_of_mem _ (List.mem_map_of_mem hc))
  · exact .call _ _

theorem constant_commands {value : Constant} (ht : .constant value ∈ terms) :
    ∀ command ∈ value.code, ValueCommand scope terms command := by
  cases value with
  | true =>
    intro command h
    simp only [Constant.code, List.mem_cons, List.not_mem_nil, or_false] at h
    rcases h with rfl | rfl
    · exact .number ht List.mem_cons_self
    · exact .operation _
  | false | null =>
    intro command h
    obtain rfl := List.mem_singleton.mp h
    exact .number ht List.mem_cons_self
  | this =>
    intro command h
    obtain rfl := List.mem_singleton.mp h
    exact .object

theorem BinaryOperator.value_command (op : BinaryOperator) :
    ValueCommand scope terms op.command := by
  cases op <;> constructor

theorem UnaryOperator.value_command (op : UnaryOperator) :
    ValueCommand scope terms op.command := by
  cases op <;> constructor

mutual

theorem Expression.commands (e : Expression) (h : e.terms ⊆ terms) :
    ∀ command ∈ e.code scope, ValueCommand scope terms command := by
  cases e with
  | mk first rest =>
    rw [Expression.terms, List.append_subset] at h
    rw [Expression.code, List.forall_mem_append]
    exact ⟨Term.commands first h.1, Operations.commands rest h.2⟩

theorem Operations.commands (operations : Operations) (h : operations.terms ⊆ terms) :
    ∀ command ∈ operations.code scope, ValueCommand scope terms command := by
  cases operations with
  | nil => exact List.forall_mem_nil _
  | cons op operand rest =>
    rw [Operations.terms, List.append_subset] at h
    rw [Operations.code, List.forall_mem_append, List.forall_mem_append, List.forall_mem_singleton]
    exact ⟨⟨Term.commands operand h.1, Operations.commands rest h.2⟩, op.value_command⟩

theorem Term.commands (t : Term) (h : t.terms ⊆ terms) :
    ∀ command ∈ t.code scope, ValueCommand scope terms command := by
  cases t with
  | integer digits =>
    rw [Term.code, List.forall_mem_singleton]
    exact .number (h List.mem_cons_self) List.mem_cons_self
  | string contents => exact string_commands (h List.mem_cons_self)
  | constant value => exact constant_commands (h List.mem_cons_self)
  | var name => exact read_commands name
  | element array index =>
    rw [Term.terms, List.cons_subset] at h
    rw [Term.code, List.forall_mem_append, List.forall_mem_append]
    refine ⟨⟨read_commands array, Expression.commands index h.2⟩, ?_⟩
    simp only [List.forall_mem_cons]
    exact ⟨.operation _, .address, .element, List.forall_mem_nil _⟩
  | call call => exact Call.commands call (List.cons_subset.mp h).2
  | group inner => exact Expression.commands inner (List.cons_subset.mp h).2
  | unary op operand =>
    rw [Term.code, List.forall_mem_append, List.forall_mem_singleton]
    exact ⟨Term.commands operand (List.cons_subset.mp h).2, op.value_command⟩

theorem Call.commands (call : Call) (h : call.terms ⊆ terms) :
    ∀ command ∈ call.code scope, ValueCommand scope terms command := by
  cases call with
  | own name arguments =>
    rw [Call.code, List.forall_mem_append, List.forall_mem_cons, List.forall_mem_singleton]
    exact ⟨⟨.object, Arguments.commands arguments h⟩, .call _ _⟩
  | dotted receiver name arguments =>
    rw [Call.code]
    split
    case h_1 slot hslot =>
      rw [List.forall_mem_append, List.forall_mem_cons, List.forall_mem_singleton]
      exact ⟨⟨.read hslot, Arguments.commands arguments h⟩, .call _ _⟩
    case h_2 =>
      rw [List.forall_mem_append, List.forall_mem_singleton]
      exact ⟨Arguments.commands arguments h, .call _ _⟩

theorem Arguments.commands (arguments : Arguments) (h : arguments.terms ⊆ terms) :
    ∀ command ∈ arguments.code scope, ValueCommand scope terms command := by
  cases arguments with
  | nil => exact List.forall_mem_nil _
  | cons first rest =>
    rw [Arguments.terms, List.append_subset] at h
    rw [Arguments.code, List.forall_mem_append]
    exact ⟨Expression.commands first h.1, Arguments.commands rest h.2⟩

end

/-! ## Statements -/

/-- Commands of expressions may stand in the code of statements. -/
theorem Expression.body_commands (e : Expression) (h : e.terms ⊆ terms) :
    ∀ command ∈ e.code scope, BodyCommand scope terms command :=
  fun command hmem => .value (e.commands h command hmem)

mutual

theorem Statement.commands (s : Statement) (i w : Nat) (h : s.terms ⊆ terms) :
    ∀ command ∈ s.code scope i w, BodyCommand scope terms command := by
  cases s with
  | letVar name value =>
    rw [Statement.code, List.forall_mem_append]
    exact ⟨value.body_commands h, assign_commands name⟩
  | letElement array index value =>
    rw [Statement.terms, List.append_subset] at h
    simp only [Statement.code, List.forall_mem_append, List.forall_mem_cons]
    refine ⟨⟨⟨⟨?_, index.body_commands h.1⟩, ?_⟩, value.body_commands h.2⟩, ?_⟩
    · exact fun command hmem => .value (read_commands array command hmem)
    · exact ⟨.value (.operation _), List.forall_mem_nil _⟩
    · exact ⟨.keep, .value .address, .restore, .store, List.forall_mem_nil _⟩
  | ifThen condition body =>
    rw [Statement.terms, List.append_subset] at h
    simp only [Statement.code, List.forall_mem_append, List.forall_mem_cons]
    refine ⟨⟨⟨condition.body_commands h.1, ?_⟩, Statements.commands body _ _ h.2⟩, ?_⟩
    · exact ⟨.ifGoto _, .goto _, .label _, List.forall_mem_nil _⟩
    · exact ⟨.label _, List.forall_mem_nil _⟩
  | ifElse condition body alternative =>
    rw [Statement.terms, List.append_subset, List.append_subset] at h
    simp only [Statement.code, List.forall_mem_append, List.forall_mem_cons]
    refine ⟨⟨⟨⟨⟨condition.body_commands h.1.1, ?_⟩, Statements.commands body _ _ h.1.2⟩, ?_⟩,
      Statements.commands alternative _ _ h.2⟩, ?_⟩
    · exact ⟨.ifGoto _, .goto _, .label _, List.forall_mem_nil _⟩
    · exact ⟨.goto _, .label _, List.forall_mem_nil _⟩
    · exact ⟨.label _, List.forall_mem_nil _⟩
  | whileLoop condition body =>
    rw [Statement.terms, List.append_subset] at h
    simp only [Statement.code, List.forall_mem_append, List.forall_mem_cons]
    refine ⟨⟨⟨⟨?_, condition.body_commands h.1⟩, ?_⟩, Statements.commands body _ _ h.2⟩, ?_⟩
    · exact ⟨.label _, List.forall_mem_nil _⟩
    · exact ⟨.value (.operation _), .ifGoto _, List.forall_mem_nil _⟩
    · exact ⟨.goto _, .label _, List.forall_mem_nil _⟩
  | doCall call =>
    rw [Statement.code, List.forall_mem_append, List.forall_mem_singleton]
    exact ⟨fun command hmem => .value (call.commands h command hmem), .keep⟩
  | returnNothing =>
    simp only [Statement.code, List.forall_mem_cons]
    exact ⟨.nothing, .return, List.forall_mem_nil _⟩
  | returnValue value =>
    rw [Statement.code, List.forall_mem_append, List.forall_mem_singleton]
    exact ⟨value.body_commands h, .return⟩

theorem Statements.commands (body : Statements) (i w : Nat) (h : body.terms ⊆ terms) :
    ∀ command ∈ body.code scope i w, BodyCommand scope terms command := by
  cases body with
  | nil => exact List.forall_mem_nil _
  | cons first rest =>
    rw [Statements.terms, List.append_subset] at h
    rw [Statements.code, List.forall_mem_append]
    exact ⟨Statement.commands first i w h.1, Statements.commands rest _ _ h.2⟩

end

end JackCompiler.Syntax
