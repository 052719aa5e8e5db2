import JackCompiler.Proofs.Constants
import JackCompiler.Proofs.Symbols
/-!
# Names in code

The names of labels and functions in the code of an expression or a statement list come from a few
places: its own identifiers, the types of variables, the class, the system and the numbers of `if`
and `while` statements (`Expression.named`, `Statements.named`). So every name in the code of a
source is made of letters, digits, underscores and dots (`names_of_compile`).
-/

namespace JackCompiler

open Vm (Command)

/-- The name a command carries, of a label or of a function. -/
def Vm.Command.name? : Command → Option String
  | label name | goto name | ifGoto name | call name _ | function name _ => some name
  | push _ _ | pop _ _ | operation _ | «return» => none

@[simp]
theorem Vm.Command.wrap_name? (command : Command) : command.wrap.name? = command.name? := by
  cases command <;> rfl

namespace Syntax

open Compile (ifTrue ifFalse ifEnd whileStart whileEnd)

/-! ## Where names come from -/

/-- The functions of the system that code calls. -/
def systemNames : List String :=
  ["Math.multiply", "Math.divide", "String.new", "String.appendChar", "Memory.alloc"]

/-- What labels begin with, before their numbers. -/
def labelStems : List String := ["IF_TRUE", "IF_FALSE", "IF_END", "WHILE_EXP", "WHILE_END"]

/-- A name that code in a scope can have, where `lexemes` are those it is the code of. -/
inductive NameOf (scope : Scope) (lexemes : List Lexeme) : String → Prop
  | system {name : String} (h : name ∈ systemNames) : NameOf scope lexemes name
  | label {stem : String} (h : stem ∈ labelStems) (number : Nat) :
    NameOf scope lexemes (stem ++ toString number)
  | own {name : String} (h : .identifier name ∈ lexemes) :
    NameOf scope lexemes (scope.className ++ "." ++ name)
  | method {receiver name : String} {slot : Slot}
    (hslot : scope.lookup? receiver = some slot) (h : .identifier name ∈ lexemes) :
    NameOf scope lexemes (slot.type ++ "." ++ name)
  | function {receiver name : String} (hreceiver : .identifier receiver ∈ lexemes)
    (h : .identifier name ∈ lexemes) : NameOf scope lexemes (receiver ++ "." ++ name)

/-- A command without a name, or with one that code can have. -/
def NamedIn (scope : Scope) (lexemes : List Lexeme) (command : Command) : Prop :=
  ∀ name ∈ command.name?, NameOf scope lexemes name

variable {scope : Scope} {lexemes : List Lexeme}

theorem named_of_none {command : Command} (h : command.name? = none) :
    NamedIn scope lexemes command := by
  intro name hname
  rw [h] at hname
  cases hname

theorem named_of_some {command : Command} {name : String} (h : command.name? = some name)
    (hname : NameOf scope lexemes name) : NamedIn scope lexemes command := by
  intro other hother
  rw [h] at hother
  cases hother
  exact hname

theorem read_named (name : String) : ∀ command ∈ scope.read name, NamedIn scope lexemes command := by
  intro command h
  obtain ⟨declared, -, rfl⟩ := List.mem_map.mp h
  exact named_of_none rfl

theorem assign_named (name : String) :
    ∀ command ∈ scope.assign name, NamedIn scope lexemes command := by
  intro command h
  obtain ⟨declared, -, rfl⟩ := List.mem_map.mp h
  exact named_of_none rfl

theorem string_named (contents : String) :
    ∀ command ∈ stringCode contents, NamedIn scope lexemes command := by
  intro command h
  simp only [stringCode, List.mem_cons, List.mem_flatMap, List.not_mem_nil, or_false] at h
  rcases h with rfl | rfl | ⟨c, -, rfl | rfl⟩
  · exact named_of_none rfl
  · exact named_of_some rfl (.system (by simp [systemNames]))
  · exact named_of_none rfl
  · exact named_of_some rfl (.system (by simp [systemNames]))

theorem constant_named (value : Constant) :
    ∀ command ∈ value.code, NamedIn scope lexemes command := by
  cases value with
  | true =>
    simp only [Constant.code, List.forall_mem_cons]
    exact ⟨named_of_none rfl, named_of_none rfl, List.forall_mem_nil _⟩
  | false | null | this => exact List.forall_mem_singleton.mpr (named_of_none rfl)

theorem BinaryOperator.named (op : BinaryOperator) : NamedIn scope lexemes op.command := by
  cases op with
  | multiply | divide => exact named_of_some rfl (.system (by simp [systemNames]))
  | _ => exact named_of_none rfl

theorem UnaryOperator.named (op : UnaryOperator) : NamedIn scope lexemes op.command := by
  cases op <;> exact named_of_none rfl

mutual

theorem Expression.named (e : Expression) (h : e.lexemes ⊆ lexemes) :
    ∀ command ∈ e.code scope, NamedIn scope lexemes command := by
  cases e with
  | mk first rest =>
    rw [Expression.lexemes, List.append_subset] at h
    rw [Expression.code, List.forall_mem_append]
    exact ⟨Term.named first h.1, Operations.named rest h.2⟩

theorem Operations.named (operations : Operations) (h : operations.lexemes ⊆ lexemes) :
    ∀ command ∈ operations.code scope, NamedIn scope lexemes command := by
  cases operations with
  | nil => exact List.forall_mem_nil _
  | cons op operand rest =>
    rw [Operations.lexemes, List.append_subset, List.cons_subset] at h
    rw [Operations.code, List.forall_mem_append, List.forall_mem_append, List.forall_mem_singleton]
    exact ⟨⟨Term.named operand h.1.2, Operations.named rest h.2⟩, op.named⟩

theorem Term.named (t : Term) (h : t.lexemes ⊆ lexemes) :
    ∀ command ∈ t.code scope, NamedIn scope lexemes command := by
  cases t with
  | integer digits => exact List.forall_mem_singleton.mpr (named_of_none rfl)
  | string contents => exact string_named contents
  | constant value => exact constant_named value
  | var name => exact read_named name
  | element array index =>
    simp only [Term.lexemes, List.append_subset, List.cons_append, List.cons_subset] at h
    simp only [Term.code, List.forall_mem_append, List.forall_mem_cons]
    refine ⟨⟨read_named array, Expression.named index h.2.2.1⟩, ?_⟩
    exact ⟨named_of_none rfl, named_of_none rfl, named_of_none rfl, List.forall_mem_nil _⟩
  | call call => exact Call.named call h
  | group inner =>
    rw [Term.lexemes, List.append_subset, List.cons_subset] at h
    exact Expression.named inner h.1.2
  | unary op operand =>
    rw [Term.code, List.forall_mem_append, List.forall_mem_singleton]
    exact ⟨Term.named operand (List.cons_subset.mp h).2, op.named⟩

theorem Call.named (call : Call) (h : call.lexemes ⊆ lexemes) :
    ∀ command ∈ call.code scope, NamedIn scope lexemes command := by
  cases call with
  | own name arguments =>
    simp only [Call.lexemes, List.append_subset, List.cons_append, List.cons_subset] at h
    obtain ⟨hname, -, harguments, -⟩ := h
    rw [Call.code, List.forall_mem_append, List.forall_mem_cons, List.forall_mem_singleton]
    exact ⟨⟨named_of_none rfl, Arguments.named arguments harguments⟩,
      named_of_some rfl (.own hname)⟩
  | dotted receiver name arguments =>
    simp only [Call.lexemes, List.append_subset, List.cons_append, List.cons_subset] at h
    obtain ⟨hreceiver, -, hname, -, harguments, -⟩ := h
    rw [Call.code]
    split
    case h_1 slot hslot =>
      rw [List.forall_mem_append, List.forall_mem_cons, List.forall_mem_singleton]
      exact ⟨⟨named_of_none rfl, Arguments.named arguments harguments⟩,
        named_of_some rfl (.method hslot hname)⟩
    case h_2 =>
      rw [List.forall_mem_append, List.forall_mem_singleton]
      exact ⟨Arguments.named arguments harguments, named_of_some rfl (.function hreceiver hname)⟩

theorem Arguments.named (arguments : Arguments) (h : arguments.lexemes ⊆ lexemes) :
    ∀ command ∈ arguments.code scope, NamedIn scope lexemes command := by
  cases arguments with
  | nil => exact List.forall_mem_nil _
  | cons first rest =>
    rw [Arguments.lexemes, List.append_subset] at h
    rw [Arguments.code, List.forall_mem_append]
    exact ⟨Expression.named first h.1, Arguments.named_more rest h.2⟩

theorem Arguments.named_more (arguments : Arguments) (h : arguments.moreLexemes ⊆ lexemes) :
    ∀ command ∈ arguments.code scope, NamedIn scope lexemes command := by
  cases arguments with
  | nil => exact List.forall_mem_nil _
  | cons first rest =>
    rw [Arguments.moreLexemes, List.append_subset, List.cons_subset] at h
    rw [Arguments.code, List.forall_mem_append]
    exact ⟨Expression.named first h.1.2, Arguments.named_more rest h.2⟩

end

theorem label_named {command : Command} {stem : String} {number : Nat} (hstem : stem ∈ labelStems)
    (h : command.name? = some (stem ++ toString number)) : NamedIn scope lexemes command :=
  named_of_some h (.label hstem number)

theorem branch_named (i : Nat) :
    ∀ command ∈
        [.ifGoto (ifTrue (.ofNat i)), .goto (ifFalse (.ofNat i)), .label (ifTrue (.ofNat i))],
      NamedIn scope lexemes command := by
  simp only [List.forall_mem_cons]
  exact ⟨label_named (by simp [labelStems]) rfl, label_named (by simp [labelStems]) rfl,
    label_named (by simp [labelStems]) rfl, List.forall_mem_nil _⟩

mutual

theorem Statement.named (s : Statement) (i w : Nat) (h : s.lexemes ⊆ lexemes) :
    ∀ command ∈ s.code scope i w, NamedIn scope lexemes command := by
  cases s with
  | letVar name value =>
    simp only [Statement.lexemes, List.append_subset, List.cons_append, List.cons_subset] at h
    rw [Statement.code, List.forall_mem_append]
    exact ⟨value.named h.2.2.2.1, assign_named name⟩
  | letElement array index value =>
    simp only [Statement.lexemes, List.append_subset, List.cons_append, List.cons_subset] at h
    obtain ⟨-, -, -, ⟨hindex, -, -, hvalue⟩, -⟩ := h
    simp only [Statement.code, List.forall_mem_append, List.forall_mem_cons]
    refine ⟨⟨⟨⟨read_named array, index.named hindex⟩, ?_⟩, value.named hvalue⟩, ?_⟩
    · exact ⟨named_of_none rfl, List.forall_mem_nil _⟩
    · exact ⟨named_of_none rfl, named_of_none rfl, named_of_none rfl, named_of_none rfl,
        List.forall_mem_nil _⟩
  | ifThen condition body =>
    simp only [Statement.lexemes, List.append_subset, List.cons_append, List.cons_subset] at h
    obtain ⟨-, -, ⟨hcondition, -, -, hbody⟩, -⟩ := h
    rw [Statement.code, List.forall_mem_append, List.forall_mem_append, List.forall_mem_append,
      List.forall_mem_singleton]
    exact ⟨⟨⟨condition.named hcondition, branch_named i⟩, Statements.named body _ _ hbody⟩,
      label_named (by simp [labelStems]) rfl⟩
  | ifElse condition body alternative =>
    simp only [Statement.lexemes, List.append_subset, List.cons_append, List.cons_subset] at h
    obtain ⟨-, -, ⟨⟨hcondition, -, -, hbody⟩, -, -, -, halternative⟩, -⟩ := h
    simp only [Statement.code, List.forall_mem_append]
    refine ⟨⟨⟨⟨⟨condition.named hcondition, branch_named i⟩, Statements.named body _ _ hbody⟩, ?_⟩,
      Statements.named alternative _ _ halternative⟩, ?_⟩
    · rw [List.forall_mem_cons, List.forall_mem_singleton]
      exact ⟨label_named (by simp [labelStems]) rfl, label_named (by simp [labelStems]) rfl⟩
    · exact List.forall_mem_singleton.mpr (label_named (by simp [labelStems]) rfl)
  | whileLoop condition body =>
    simp only [Statement.lexemes, List.append_subset, List.cons_append, List.cons_subset] at h
    obtain ⟨-, -, ⟨hcondition, -, -, hbody⟩, -⟩ := h
    simp only [Statement.code, List.forall_mem_append, List.forall_mem_cons]
    refine ⟨⟨⟨⟨?_, condition.named hcondition⟩, ?_⟩, Statements.named body _ _ hbody⟩, ?_⟩
    · exact ⟨label_named (by simp [labelStems]) rfl, List.forall_mem_nil _⟩
    · exact ⟨named_of_none rfl, label_named (by simp [labelStems]) rfl, List.forall_mem_nil _⟩
    · exact ⟨label_named (by simp [labelStems]) rfl, label_named (by simp [labelStems]) rfl,
        List.forall_mem_nil _⟩
  | doCall call =>
    simp only [Statement.lexemes, List.append_subset, List.cons_append, List.cons_subset] at h
    rw [Statement.code, List.forall_mem_append, List.forall_mem_singleton]
    exact ⟨call.named h.2.1, named_of_none rfl⟩
  | returnNothing =>
    simp only [Statement.code, List.forall_mem_cons]
    exact ⟨named_of_none rfl, named_of_none rfl, List.forall_mem_nil _⟩
  | returnValue value =>
    simp only [Statement.lexemes, List.append_subset, List.cons_append, List.cons_subset] at h
    rw [Statement.code, List.forall_mem_append, List.forall_mem_singleton]
    exact ⟨value.named h.2.1, named_of_none rfl⟩

theorem Statements.named (body : Statements) (i w : Nat) (h : body.lexemes ⊆ lexemes) :
    ∀ command ∈ body.code scope i w, NamedIn scope lexemes command := by
  cases body with
  | nil => exact List.forall_mem_nil _
  | cons first rest =>
    rw [Statements.lexemes, List.append_subset] at h
    rw [Statements.code, List.forall_mem_append]
    exact ⟨Statement.named first i w h.1, Statements.named rest _ _ h.2⟩

end

variable {c : Class} {s : Subroutine}

theorem Class.prologue_named (c : Class) (kind : Compile.SubroutineKind) :
    ∀ command ∈ c.prologue kind, NamedIn scope lexemes command := by
  cases kind with
  | constructor =>
    simp only [Class.prologue, List.forall_mem_cons]
    exact ⟨named_of_none rfl, named_of_some rfl (.system (by simp [systemNames])),
      named_of_none rfl, List.forall_mem_nil _⟩
  | method =>
    simp only [Class.prologue, List.forall_mem_cons]
    exact ⟨named_of_none rfl, named_of_none rfl, List.forall_mem_nil _⟩
  | function => exact List.forall_mem_nil _

theorem Class.function_named (hs : s ∈ c.subroutines) :
    ∀ command ∈ c.function s, NamedIn (c.scope s) c.lexemes command := by
  have hlexemes : s.lexemes ⊆ c.lexemes := fun lexeme => Class.subroutine_mem hs
  have hname : .identifier s.name ∈ c.lexemes := hlexemes (by simp [Subroutine.lexemes])
  have hbody : s.body.lexemes ⊆ c.lexemes := by
    intro lexeme h
    exact hlexemes (by simp [Subroutine.lexemes, Subroutine.signatureAndBody, h])
  rw [Class.function, Class.entry, List.forall_mem_append, List.forall_mem_cons]
  exact ⟨⟨named_of_some rfl (.own hname), c.prologue_named s.kind⟩, s.body.named 0 0 hbody⟩

end Syntax

/-! ## What names are made of -/

/-- A name in which a line of code is never cut. -/
def IsName (name : String) : Prop := ∀ c ∈ name.toList, isWordCharacter c ∨ c = '.'

theorem IsName.not_mem {name : String} (h : IsName name) :
    ' ' ∉ name.toList ∧ '\n' ∉ name.toList := by
  constructor <;> exact fun hmem => absurd (h _ hmem) (by decide)

theorem isName_append {a b : String} (ha : IsName a) (hb : IsName b) : IsName (a ++ b) := by
  intro c hc
  rw [String.toList_append, List.mem_append] at hc
  exact hc.elim (ha c) (hb c)

theorem isName_dotted {a b : String} (ha : IsName a) (hb : IsName b) : IsName (a ++ "." ++ b) := by
  have hdot : IsName "." := by simp [IsName]
  exact isName_append (isName_append ha hdot) hb

theorem isName_toString (n : Nat) : IsName (toString n) := by
  intro c hc
  rw [Nat.toString_eq_ofList_toDigits, String.toList_ofList] at hc
  exact .inl (isWordCharacter_of_isDigit (isDigit_of_mem_toDigits hc))

theorem isName_identifier {name : String} (h : (Lexeme.identifier name).WellFormed) :
    IsName name := fun c hc => .inl (h.1.characters c hc)

namespace Syntax

theorem TypeName.isName {type : TypeName} (h : type.lexeme.WellFormed) : IsName type.name := by
  cases type with
  | int | char | boolean => simp [TypeName.name, IsName]; decide
  | ofClass name => exact isName_identifier h

variable {scope : Scope} {lexemes : List Lexeme} {c : Class} {s : Subroutine}

theorem isName_system : ∀ name ∈ systemNames, IsName name := by
  simp [systemNames, IsName, isWordCharacter, isLetter]

theorem isName_stem : ∀ stem ∈ labelStems, IsName stem := by
  simp [labelStems, IsName, isWordCharacter, isLetter]

theorem NameOf.isName {name : String} (h : NameOf scope lexemes name)
    (hlexemes : ∀ lexeme ∈ lexemes, lexeme.WellFormed) (hclass : IsName scope.className)
    (htypes : ∀ receiver slot, scope.lookup? receiver = some slot → IsName slot.type) :
    IsName name := by
  cases h with
  | system h => exact isName_system _ h
  | label h number => exact isName_append (isName_stem _ h) (isName_toString number)
  | own h => exact isName_dotted hclass (isName_identifier (hlexemes _ h))
  | method hslot h =>
    exact isName_dotted (htypes _ _ hslot) (isName_identifier (hlexemes _ h))
  | function hreceiver h =>
    exact isName_dotted (isName_identifier (hlexemes _ hreceiver)) (isName_identifier (hlexemes _ h))

/-- A numbered variable has the type it is declared with. -/
theorem numbered_type {vs : List Variable} {slot : Slot} (h : slot ∈ numbered vs) :
    ∃ v ∈ vs, v.type = slot.type := by
  have hvs := numberedAfter_variables [] vs
  exact ⟨⟨slot.name, slot.type, slot.storage⟩, hvs ▸ List.mem_map_of_mem h, rfl⟩

theorem VariableGroup.isName_type {group : VariableGroup} {storage : Storage} {v : Variable}
    (hformed : ∀ lexeme ∈ group.lexemes, lexeme.WellFormed) (hv : v ∈ group.declared storage) :
    IsName v.type := by
  obtain ⟨name, -, rfl⟩ := List.mem_map.mp hv
  exact TypeName.isName (hformed _ List.mem_cons_self)

theorem Subroutine.isName_type (hformed : ∀ lexeme ∈ s.lexemes, lexeme.WellFormed) :
    ∀ v ∈ s.declared, IsName v.type := by
  intro v hv
  rcases List.mem_append.mp hv with hv | hv
  · obtain ⟨parameter, hparameter, rfl⟩ := List.mem_map.mp hv
    have htype : parameter.type.lexeme ∈ parameterList s.parameters :=
      parameterList_subset hparameter List.mem_cons_self
    exact TypeName.isName (hformed _ (by simp [Subroutine.lexemes, signatureAndBody, htype]))
  · obtain ⟨group, hgroup, hv⟩ := List.mem_flatMap.mp hv
    refine VariableGroup.isName_type (fun lexeme hlexeme => hformed lexeme ?_) hv
    have hlocals : lexeme ∈ s.locals.flatMap localLexemes :=
      List.mem_flatMap.mpr ⟨group, hgroup, by simp [localLexemes, hlexeme]⟩
    simp [Subroutine.lexemes, signatureAndBody, hlocals]

/-- What a variable is declared as is a name, and so is the class of the receiver. -/
theorem Class.isName_type (hformed : ∀ lexeme ∈ c.lexemes, lexeme.WellFormed)
    (hs : s ∈ c.subroutines) (receiver : String) (slot : Slot)
    (h : (c.scope s).lookup? receiver = some slot) : IsName slot.type := by
  have hclass : ∀ v ∈ c.declared, IsName v.type := by
    intro v hv
    obtain ⟨group, hgroup, hv⟩ := List.mem_flatMap.mp hv
    refine VariableGroup.isName_type (fun lexeme hlexeme => hformed lexeme ?_) hv
    have hmem : lexeme ∈ c.groups.flatMap (·.lexemes) :=
      List.mem_flatMap.mpr ⟨group, hgroup, by simp [ClassVariables.lexemes, hlexeme]⟩
    simp only [Class.lexemes, List.mem_append, List.mem_cons]
    tauto
  have hreceiver : ∀ v ∈ s.receiver c.name, IsName v.type := by
    intro v hv
    unfold Subroutine.receiver at hv
    split at hv
    · rw [List.mem_singleton.mp hv]
      exact isName_identifier (hformed _ (by simp [Class.lexemes]))
    · cases hv
  have hinner : ∀ v ∈ s.receiver c.name ++ s.declared, IsName v.type := by
    rw [List.forall_mem_append]
    exact ⟨hreceiver, s.isName_type fun lexeme hlexeme =>
      hformed lexeme (Class.subroutine_mem hs hlexeme)⟩
  unfold Scope.lookup? Class.scope at h
  rcases Option.or_eq_some_iff.mp h with h | ⟨-, h⟩
  · obtain ⟨v, hv, htype⟩ := numbered_type (List.mem_of_find?_eq_some h)
    exact htype ▸ hinner v hv
  · obtain ⟨v, hv, htype⟩ := numbered_type (List.mem_of_find?_eq_some h)
    exact htype ▸ hclass v hv

end Syntax

/-- Every name in the code of a source is made of letters, digits, underscores and dots. -/
theorem names_of_compile {source : String} {compiled : CompiledClass}
    (h : compile source = .ok compiled) :
    ∀ command ∈ compiled.program, ∀ name ∈ command.name?, IsName name := by
  obtain ⟨c, hlex⟩ := lexes_of_compile h
  obtain ⟨-, rfl⟩ := (compile_of_lexes hlex).mp h
  have hformed := hlex.wellFormed
  have hclass : (Lexeme.identifier c.name).WellFormed := hformed _ (by simp [Syntax.Class.lexemes])
  intro command hcommand name hname
  obtain ⟨s, hs, hcommand⟩ := List.mem_flatMap.mp hcommand
  obtain ⟨wide, hwide, rfl⟩ := List.mem_map.mp hcommand
  rw [Vm.Command.wrap_name?] at hname
  have hnamed := Syntax.Class.function_named hs wide hwide name hname
  exact hnamed.isName hformed (isName_identifier hclass) (Syntax.Class.isName_type hformed hs)

end JackCompiler
