import JackCompiler.Proofs.Syntax
/-!
# What a class declares and uses

Variables in the order of their declaration, their numbers, and what names mean inside a
subroutine; the terms of a statement list at any depth, the names they use as variables and the
string constants among them.
-/

namespace JackCompiler.Syntax

/-! ## Declared variables -/

def ClassStorage.storage : ClassStorage → Storage
  | static => .static
  | field => .field

/-- A variable as it is declared, without a number. -/
structure Variable where
  name : String
  type : String
  storage : Storage
  deriving DecidableEq, Repr

def VariableGroup.declared (group : VariableGroup) (storage : Storage) : List Variable :=
  (group.first :: group.more).map fun name => ⟨name, group.type.name, storage⟩

def ClassVariables.declared (declared : ClassVariables) : List Variable :=
  declared.group.declared declared.storage.storage

/-- The statics and fields of a class. -/
def Class.declared (c : Class) : List Variable := c.groups.flatMap (·.declared)

def Parameter.declared (parameter : Parameter) : Variable :=
  ⟨parameter.name, parameter.type.name, .argument⟩

@[simp]
theorem Parameter.declared_name (parameter : Parameter) :
    parameter.declared.name = parameter.name := rfl

@[simp]
theorem Parameter.declared_type (parameter : Parameter) :
    parameter.declared.type = parameter.type.name := rfl

@[simp]
theorem Parameter.declared_storage (parameter : Parameter) :
    parameter.declared.storage = .argument := rfl

/-- The parameters and locals of a subroutine. -/
def Subroutine.declared (s : Subroutine) : List Variable :=
  s.parameters.map (·.declared) ++ s.locals.flatMap (·.declared .local)

/-- The argument a method has before its parameters. -/
def Subroutine.receiver (s : Subroutine) (className : String) : List Variable :=
  if s.kind = .method then [⟨"this", className, .argument⟩] else []

/-- A declared variable with its number, whatever its size. -/
structure Slot where
  name : String
  type : String
  storage : Storage
  index : Nat
  deriving DecidableEq, Repr

/-- What the symbol table holds for the variable: 16 bits of its number. -/
def Slot.declaration (slot : Slot) : Declaration :=
  ⟨slot.name, slot.type, slot.storage, .ofNat slot.index⟩

@[simp]
theorem Slot.declaration_name (slot : Slot) : slot.declaration.name = slot.name := rfl

@[simp]
theorem Slot.declaration_type (slot : Slot) : slot.declaration.type = slot.type := rfl

@[simp]
theorem Slot.declaration_storage (slot : Slot) : slot.declaration.storage = slot.storage := rfl

/-- Variables with their numbers: each is numbered by the variables of its storage before it;
`earlier` are already declared. -/
def numberedAfter (earlier : List Variable) : List Variable → List Slot
  | [] => []
  | v :: rest =>
    ⟨v.name, v.type, v.storage, earlier.countP (·.storage = v.storage)⟩ ::
      numberedAfter (earlier ++ [v]) rest

def numbered (vs : List Variable) : List Slot := numberedAfter [] vs

theorem numberedAfter_append (earlier us vs : List Variable) :
    numberedAfter earlier (us ++ vs) =
      numberedAfter earlier us ++ numberedAfter (earlier ++ us) vs := by
  induction us generalizing earlier with
  | nil => simp [numberedAfter]
  | cons u us ih => simp [numberedAfter, ih]

theorem numbered_append (us vs : List Variable) :
    numbered (us ++ vs) = numbered us ++ numberedAfter us vs := by
  simp [numbered, numberedAfter_append]

@[simp]
theorem numberedAfter_names (earlier vs : List Variable) :
    (numberedAfter earlier vs).map (·.name) = vs.map (·.name) := by
  induction vs generalizing earlier with
  | nil => rfl
  | cons v vs ih => simp [numberedAfter, ih]

@[simp]
theorem numberedAfter_countP (earlier vs : List Variable) (storage : Storage) :
    (numberedAfter earlier vs).countP (·.storage = storage) = vs.countP (·.storage = storage) := by
  induction vs generalizing earlier with
  | nil => rfl
  | cons v vs ih => simp [numberedAfter, List.countP_cons, ih]

theorem find?_numbered_none {vs : List Variable} {name : String} (h : name ∉ vs.map (·.name)) :
    (numbered vs).find? (·.name = name) = none := by
  rw [← numberedAfter_names [] vs] at h
  refine List.find?_eq_none.mpr fun slot hslot hname => h ?_
  exact of_decide_eq_true hname ▸ List.mem_map_of_mem hslot

/-- The first variable of a name has the number of those of its storage before it. -/
theorem find?_numbered {us ws : List Variable} {v : Variable} (h : v.name ∉ us.map (·.name)) :
    (numbered (us ++ v :: ws)).find? (·.name = v.name) =
      some ⟨v.name, v.type, v.storage, us.countP (·.storage = v.storage)⟩ := by
  rw [numbered_append, List.find?_append, find?_numbered_none h, numberedAfter, Option.none_or,
    List.find?_cons_of_pos (by simp)]

/-- More variables may be declared in a scope: their names are new there and no two are the
same. -/
def Fresh (earlier more : List Variable) : Prop :=
  (more.map (·.name)).Nodup ∧ (earlier.map (·.name)).Disjoint (more.map (·.name))

@[simp]
theorem fresh_nil (earlier : List Variable) : Fresh earlier [] := by simp [Fresh]

theorem fresh_append (earlier as bs : List Variable) :
    Fresh earlier (as ++ bs) ↔ Fresh earlier as ∧ Fresh (earlier ++ as) bs := by
  simp only [Fresh, List.map_append, List.nodup_append', List.disjoint_append_left,
    List.disjoint_append_right]
  tauto

theorem fresh_singleton (earlier : List Variable) (v : Variable) :
    Fresh earlier [v] ↔ v.name ∉ earlier.map (·.name) := by
  simp [Fresh]

theorem fresh_cons (earlier : List Variable) (v : Variable) (more : List Variable) :
    Fresh earlier (v :: more) ↔
      v.name ∉ earlier.map (·.name) ∧ Fresh (earlier ++ [v]) more := by
  rw [← fresh_singleton, ← fresh_append, List.singleton_append]

theorem fresh_of_nil (more : List Variable) : Fresh [] more ↔ (more.map (·.name)).Nodup := by
  simp [Fresh]

/-! ## Scopes -/

/-- What names mean at some place of a class. -/
structure Scope where
  className : String
  ofClass : List Slot
  ofSubroutine : List Slot
  deriving DecidableEq, Repr

namespace Scope

/-- What a name means: its variable in the subroutine if it has one there, else in the class. -/
def lookup? (scope : Scope) (name : String) : Option Slot :=
  (scope.ofSubroutine.find? (·.name = name)).or (scope.ofClass.find? (·.name = name))

/-- The symbol table of the scope. -/
def symbols (scope : Scope) : SymbolTable :=
  ⟨scope.ofClass.map (·.declaration), scope.ofSubroutine.map (·.declaration)⟩

theorem symbols_lookup? (scope : Scope) (name : String) :
    scope.symbols.lookup? name = (scope.lookup? name).map (·.declaration) := by
  simp only [SymbolTable.lookup?, symbols, lookup?, List.find?_map, Option.map_or]
  rfl

theorem exists_slot {scope : Scope} {name : String}
    (h : (scope.symbols.lookup? name).isSome) : ∃ slot, scope.lookup? name = some slot := by
  rw [symbols_lookup?, Option.isSome_map] at h
  exact Option.isSome_iff_exists.mp h

end Scope

/-- The scope of a subroutine's body. -/
def Class.scope (c : Class) (s : Subroutine) : Scope where
  className := c.name
  ofClass := numbered c.declared
  ofSubroutine := numbered (s.receiver c.name ++ s.declared)

/-- How many fields an object of the class has. -/
def Class.fieldCount (c : Class) : Nat := c.declared.countP (·.storage = .field)

/-- How many statics a class has. -/
def Class.staticCount (c : Class) : Nat := c.declared.countP (·.storage = .static)

/-- How many arguments a subroutine takes: its parameters, and the receiver of a method. -/
def Subroutine.argumentCount (s : Subroutine) : Nat :=
  s.parameters.length + if s.kind = .method then 1 else 0

/-- How many locals a subroutine declares. -/
def Subroutine.localCount (s : Subroutine) : Nat := s.declared.countP (·.storage = .local)

/-- The receiver of a method is no local. -/
theorem Subroutine.count_local (s : Subroutine) (className : String) :
    (s.receiver className ++ s.declared).countP (·.storage = .local) = s.localCount := by
  have hreceiver : (s.receiver className).countP (·.storage = .local) = 0 := by
    simp only [Subroutine.receiver]
    split <;> rfl
  rw [List.countP_append, hreceiver, Nat.zero_add, Subroutine.localCount]

/-- Every one of the names is declared. -/
def Resolved (symbols : SymbolTable) (names : List String) : Prop :=
  ∀ name ∈ names, (symbols.lookup? name).isSome

@[simp]
theorem resolved_nil (symbols : SymbolTable) : Resolved symbols [] := by simp [Resolved]

@[simp]
theorem resolved_cons (symbols : SymbolTable) (name : String) (names : List String) :
    Resolved symbols (name :: names) ↔
      (symbols.lookup? name).isSome ∧ Resolved symbols names := by simp [Resolved]

@[simp]
theorem resolved_append (symbols : SymbolTable) (as bs : List String) :
    Resolved symbols (as ++ bs) ↔ Resolved symbols as ∧ Resolved symbols bs := by
  simp [Resolved, or_imp, forall_and]

/-- A name is declared when some variable of either scope has it. -/
theorem lookup_isSome (table : SymbolTable) (name : String) :
    (table.lookup? name).isSome ↔
      name ∈ table.subroutineScope.map (·.name) ∨ name ∈ table.classScope.map (·.name) := by
  simp [SymbolTable.lookup?]

/-! ## Terms at any depth -/

mutual

def Expression.terms : Expression → List Term
  | .mk first rest => first.terms ++ rest.terms

def Operations.terms : Operations → List Term
  | .nil => []
  | .cons _ operand rest => operand.terms ++ rest.terms

/-- The term itself and the terms in it. -/
def Term.terms : Term → List Term
  | .element array index => .element array index :: index.terms
  | .call call => .call call :: call.terms
  | .group inner => .group inner :: inner.terms
  | .unary op operand => .unary op operand :: operand.terms
  | .integer digits => [.integer digits]
  | .string contents => [.string contents]
  | .constant value => [.constant value]
  | .var name => [.var name]

def Call.terms : Call → List Term
  | .own _ arguments => arguments.terms
  | .dotted _ _ arguments => arguments.terms

def Arguments.terms : Arguments → List Term
  | .nil => []
  | .cons first rest => first.terms ++ rest.terms

end

mutual

def Statement.terms : Statement → List Term
  | .letVar _ value => value.terms
  | .letElement _ index value => index.terms ++ value.terms
  | .ifThen condition body => condition.terms ++ body.terms
  | .ifElse condition body alternative => condition.terms ++ body.terms ++ alternative.terms
  | .whileLoop condition body => condition.terms ++ body.terms
  | .doCall call => call.terms
  | .returnNothing => []
  | .returnValue value => value.terms

def Statements.terms : Statements → List Term
  | .nil => []
  | .cons first rest => first.terms ++ rest.terms

end

mutual

/-- The variables of the `let` statements. -/
def Statement.targets : Statement → List String
  | .letVar name _ => [name]
  | .letElement array _ _ => [array]
  | .ifThen _ body => body.targets
  | .ifElse _ body alternative => body.targets ++ alternative.targets
  | .whileLoop _ body => body.targets
  | .doCall _ | .returnNothing | .returnValue _ => []

def Statements.targets : Statements → List String
  | .nil => []
  | .cons first rest => first.targets ++ rest.targets

end

/-- The name a term uses as a variable: a plain variable, or the base of an array element. -/
@[simp]
def Term.variable? : Term → Option String
  | .var name => some name
  | .element array _ => some array
  | _ => none

@[simp]
def Term.string? : Term → Option String
  | .string contents => some contents
  | _ => none

/-- The names that terms use as variables. -/
def usedNames (terms : List Term) : List String := terms.filterMap Term.variable?

/-- The string constants among terms. -/
def stringConstants (terms : List Term) : List String := terms.filterMap Term.string?

@[simp]
theorem usedNames_nil : usedNames [] = [] := rfl

@[simp]
theorem usedNames_cons (t : Term) (ts : List Term) :
    usedNames (t :: ts) = t.variable?.toList ++ usedNames ts := by
  cases t <;> rfl

@[simp]
theorem usedNames_append (as bs : List Term) :
    usedNames (as ++ bs) = usedNames as ++ usedNames bs := List.filterMap_append

@[simp]
theorem stringConstants_nil : stringConstants [] = [] := rfl

@[simp]
theorem stringConstants_cons (t : Term) (ts : List Term) :
    stringConstants (t :: ts) = t.string?.toList ++ stringConstants ts := by
  cases t <;> rfl

@[simp]
theorem stringConstants_append (as bs : List Term) :
    stringConstants (as ++ bs) = stringConstants as ++ stringConstants bs := List.filterMap_append

/-- The names a statement list uses as variables: targets of `let`, and names in its terms. -/
def Statements.names (body : Statements) : List String := body.targets ++ usedNames body.terms

section

variable {symbols : SymbolTable} {condition : Expression} {body alternative : Statements}

theorem resolved_condition
    (h : Resolved symbols (body.targets ++ usedNames (condition.terms ++ body.terms))) :
    Resolved symbols (usedNames condition.terms) ∧ Resolved symbols body.names := by
  simp only [usedNames_append, resolved_append, Statements.names] at h ⊢
  exact ⟨h.2.1, h.1, h.2.2⟩

theorem resolved_conditions
    (h : Resolved symbols ((Statement.ifElse condition body alternative).targets ++
      usedNames (Statement.ifElse condition body alternative).terms)) :
    Resolved symbols (usedNames condition.terms) ∧ Resolved symbols body.names ∧
      Resolved symbols alternative.names := by
  simp only [Statement.targets, Statement.terms, usedNames_append, resolved_append,
    Statements.names] at h ⊢
  tauto

theorem resolved_cons_statements {first : Statement} {rest : Statements}
    (h : Resolved symbols (Statements.cons first rest).names) :
    Resolved symbols (first.targets ++ usedNames first.terms) ∧ Resolved symbols rest.names := by
  simp only [Statements.names, Statements.targets, Statements.terms, usedNames_append,
    resolved_append] at h ⊢
  tauto

end

/-- A string constant that can be built: its length and the codes of its characters are positive
words. -/
def Fits (contents : String) : Prop :=
  contents.length ≤ 32767 ∧ ∀ c ∈ contents.toList, c.toNat < 0x8000

instance (contents : String) : Decidable (Fits contents) :=
  inferInstanceAs
    (Decidable (contents.length ≤ 32767 ∧ ∀ c ∈ contents.toList, c.toNat < 0x8000))

/-- Every one of the string constants can be built. -/
def AllFit (strings : List String) : Prop := ∀ contents ∈ strings, Fits contents

@[simp]
theorem allFit_nil : AllFit [] := by simp [AllFit]

@[simp]
theorem allFit_cons (contents : String) (strings : List String) :
    AllFit (contents :: strings) ↔ Fits contents ∧ AllFit strings := by simp [AllFit]

@[simp]
theorem allFit_append (as bs : List String) :
    AllFit (as ++ bs) ↔ AllFit as ∧ AllFit bs := by
  simp [AllFit, or_imp, forall_and]

/-! ## Classes in order -/

/-- The names of a subroutine are in order: those it declares are new beside the receiver and no two
are the same, and those it uses as variables are declared. -/
@[mk_iff]
structure Class.Scoped (c : Class) (s : Subroutine) : Prop where
  fresh : Fresh (s.receiver c.name) s.declared
  resolved : Resolved (c.scope s).symbols s.body.names

/-- The names of a class are in order. -/
@[mk_iff]
structure Class.Named (c : Class) : Prop where
  distinct : (c.declared.map (·.name)).Nodup
  subroutines : ∀ s ∈ c.subroutines, c.Scoped s

/-- The string constants of a class can be built. -/
def Class.Fit (c : Class) : Prop := ∀ s ∈ c.subroutines, AllFit (stringConstants s.body.terms)

end JackCompiler.Syntax
