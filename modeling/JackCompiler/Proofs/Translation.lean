import JackCompiler.Proofs.Scope
/-!
# The commands a syntax tree stands for

The meaning of each construct as commands of the stack machine, by recursion on the tree. Nothing
here is read in the order of the source or kept between constructs: a name means what it is declared
as in the scope, and an `if` or `while` is numbered by those that begin before it in its subroutine.

Variables, arguments and fields are numbered here without bound, and `Class.program` is what is left
of the commands in 16 bits. The two are the same for a subroutine whose counts fit (`Class.Narrow`).
A label is written with 16 bits of its number in either.
-/

namespace JackCompiler

namespace Vm

/-- The number in a command, if it has one. -/
def Command.number : Command → Nat
  | .push _ index | .pop _ index => index
  | .call _ count | .function _ count => count
  | .operation _ | .label _ | .goto _ | .ifGoto _ | .return => 0

/-- What is left of a command when its number has 16 bits. -/
def Command.wrap : Command → Command
  | .push segment index => .push segment (index % 65536)
  | .pop segment index => .pop segment (index % 65536)
  | .call name count => .call name (count % 65536)
  | .function name count => .function name (count % 65536)
  | .operation op => .operation op
  | .label name => .label name
  | .goto name => .goto name
  | .ifGoto name => .ifGoto name
  | .return => .return

section

variable (segment : Segment) (n : Nat) (op : Operation) (name : String)

@[simp]
theorem Command.wrap_push : (push segment n).wrap = push segment (n % 65536) := rfl

@[simp]
theorem Command.wrap_pop : (pop segment n).wrap = pop segment (n % 65536) := rfl

@[simp]
theorem Command.wrap_call : (call name n).wrap = call name (n % 65536) := rfl

@[simp]
theorem Command.wrap_function : (function name n).wrap = function name (n % 65536) := rfl

@[simp]
theorem Command.wrap_operation : (operation op).wrap = operation op := rfl

@[simp]
theorem Command.wrap_label : (label name).wrap = label name := rfl

@[simp]
theorem Command.wrap_goto : (goto name).wrap = goto name := rfl

@[simp]
theorem Command.wrap_ifGoto : (ifGoto name).wrap = ifGoto name := rfl

@[simp]
theorem Command.wrap_return : Command.return.wrap = Command.return := rfl

end

theorem Command.wrap_of_lt {command : Command} (h : command.number < 65536) :
    command.wrap = command := by
  cases command with
  | push _ n | pop _ n | call _ n | function _ n =>
    have hn : n < 65536 := h
    rw [Command.wrap, Nat.mod_eq_of_lt hn]
  | operation | label | goto | ifGoto | «return» => rfl

/-- Nothing is lost of code whose numbers all fit. -/
theorem map_wrap {code : List Command} (h : ∀ command ∈ code, command.number < 65536) :
    code.map (·.wrap) = code :=
  (List.map_congr_left fun command hmem => Command.wrap_of_lt (h command hmem)).trans
    (List.map_id _)

end Vm

namespace Syntax

open Vm (Command)

/-! ## Expressions -/

def BinaryOperator.command : BinaryOperator → Command
  | add => .operation .add
  | subtract => .operation .sub
  | multiply => .call "Math.multiply" 2
  | divide => .call "Math.divide" 2
  | and => .operation .and
  | or => .operation .or
  | less => .operation .lt
  | greater => .operation .gt
  | equal => .operation .eq

def UnaryOperator.command : UnaryOperator → Command
  | negate => .operation .neg
  | complement => .operation .not

def Constant.code : Constant → List Command
  | true => [.push .constant 1, .operation .neg]
  | false => [.push .constant 0]
  | null => [.push .constant 0]
  | this => [.push .pointer 0]

@[simp]
theorem BinaryOperator.wrap_command (op : BinaryOperator) : op.command.wrap = op.command := by
  cases op <;> rfl

@[simp]
theorem UnaryOperator.wrap_command (op : UnaryOperator) : op.command.wrap = op.command := by
  cases op <;> rfl

@[simp]
theorem Constant.wrap_code (value : Constant) : value.code.map (·.wrap) = value.code := by
  cases value <;> rfl

/-- A new string object, and then each of its characters. -/
def stringCode (contents : String) : List Command :=
  .push .constant contents.length :: .call "String.new" 1 ::
    contents.toList.flatMap fun c => [.push .constant c.toNat, .call "String.appendChar" 2]

/-- The command that pushes the variable. -/
def Slot.push (slot : Slot) : Command := .push slot.storage.segment slot.index

/-- The command that pops into the variable. -/
def Slot.pop (slot : Slot) : Command := .pop slot.storage.segment slot.index

theorem Slot.declaration_push (slot : Slot) : slot.declaration.push = slot.push.wrap := by
  simp [Declaration.push, declaration, push]

theorem Slot.declaration_pop (slot : Slot) : slot.declaration.pop = slot.pop.wrap := by
  simp [Declaration.pop, declaration, pop]

/-- The length and the characters of a string constant that can be built have 16 bits. -/
theorem wrap_stringCode {contents : String} (h : Fits contents) :
    (stringCode contents).map (·.wrap) = stringCode contents := by
  refine Vm.map_wrap fun command hcommand => ?_
  simp only [stringCode, List.mem_cons, List.mem_flatMap, List.not_mem_nil, or_false] at hcommand
  obtain ⟨hlength, hcharacters⟩ := h
  rcases hcommand with rfl | rfl | ⟨c, hc, rfl | rfl⟩
  · exact hlength.trans_lt (by decide)
  · exact Nat.one_lt_two.trans (by decide)
  · exact (hcharacters c hc).trans (by decide)
  · show 2 < 65536
    decide

namespace Scope

/-- The push of the variable a name means. -/
def read (scope : Scope) (name : String) : List Command :=
  (scope.lookup? name).toList.map (·.push)

/-- The pop into the variable a name means. -/
def assign (scope : Scope) (name : String) : List Command :=
  (scope.lookup? name).toList.map (·.pop)

end Scope

mutual

def Expression.code (scope : Scope) : Expression → List Command
  | .mk first rest => first.code scope ++ rest.code scope

/-- The terms in order, and then the operators from the last to the first. -/
def Operations.code (scope : Scope) : Operations → List Command
  | .nil => []
  | .cons op operand rest => operand.code scope ++ rest.code scope ++ [op.command]

def Term.code (scope : Scope) : Term → List Command
  | .integer digits => [.push .constant (decimalValue digits.toList)]
  | .string contents => stringCode contents
  | .constant value => value.code
  | .var name => scope.read name
  | .element array index =>
    scope.read array ++ index.code scope ++
      [.operation .add, .pop .pointer 1, .push .that 0]
  | .call call => call.code scope
  | .group inner => inner.code scope
  | .unary op operand => operand.code scope ++ [op.command]

def Call.code (scope : Scope) : Call → List Command
  | .own name arguments =>
    .push .pointer 0 :: arguments.code scope ++
      [.call (scope.className ++ "." ++ name) (arguments.length + 1)]
  | .dotted receiver name arguments =>
    match scope.lookup? receiver with
    | some slot =>
      slot.push :: arguments.code scope ++
        [.call (slot.type ++ "." ++ name) (arguments.length + 1)]
    | none => arguments.code scope ++ [.call (receiver ++ "." ++ name) arguments.length]

def Arguments.code (scope : Scope) : Arguments → List Command
  | .nil => []
  | .cons first rest => first.code scope ++ rest.code scope

end

/-- The terms of a chain after the first, in order. -/
def Operations.operands : Operations → List Term
  | .nil => []
  | .cons _ operand rest => operand :: rest.operands

/-- The operators of a chain, in order. -/
def Operations.operators : Operations → List BinaryOperator
  | .nil => []
  | .cons op _ rest => op :: rest.operators

/-- All operators of a chain wait until its last term, and then the last comes first. -/
theorem Operations.code_eq (scope : Scope) (operations : Operations) :
    operations.code scope = operations.operands.flatMap (·.code scope) ++
      operations.operators.reverse.map (·.command) := by
  cases operations with
  | nil => rfl
  | cons op operand rest =>
    rw [Operations.code, Operations.code_eq scope rest, operands, operators, List.flatMap_cons,
      List.reverse_cons, List.map_append, List.append_assoc, List.append_assoc, List.append_assoc]
    rfl

/-! ## Statements -/

mutual

/-- How many `if` statements there are at any depth. -/
def Statement.ifs : Statement → Nat
  | .ifThen _ body => body.ifs + 1
  | .ifElse _ body alternative => body.ifs + alternative.ifs + 1
  | .whileLoop _ body => body.ifs
  | .letVar _ _ | .letElement _ _ _ | .doCall _ | .returnNothing | .returnValue _ => 0

def Statements.ifs : Statements → Nat
  | .nil => 0
  | .cons first rest => first.ifs + rest.ifs

end

mutual

/-- How many `while` statements there are at any depth. -/
def Statement.whiles : Statement → Nat
  | .ifThen _ body => body.whiles
  | .ifElse _ body alternative => body.whiles + alternative.whiles
  | .whileLoop _ body => body.whiles + 1
  | .letVar _ _ | .letElement _ _ _ | .doCall _ | .returnNothing | .returnValue _ => 0

def Statements.whiles : Statements → Nat
  | .nil => 0
  | .cons first rest => first.whiles + rest.whiles

end

open Compile (ifTrue ifFalse ifEnd whileStart whileEnd)

mutual

/-- The commands of a statement before which `i` `if` and `w` `while` statements begin. -/
def Statement.code (scope : Scope) (i w : Nat) : Statement → List Command
  | .letVar name value => value.code scope ++ scope.assign name
  | .letElement array index value =>
    scope.read array ++ index.code scope ++ [.operation .add] ++ value.code scope ++
      [.pop .temp 0, .pop .pointer 1, .push .temp 0, .pop .that 0]
  | .ifThen condition body =>
    condition.code scope ++
      [.ifGoto (ifTrue (.ofNat i)), .goto (ifFalse (.ofNat i)), .label (ifTrue (.ofNat i))] ++
      body.code scope (i + 1) w ++ [.label (ifFalse (.ofNat i))]
  | .ifElse condition body alternative =>
    condition.code scope ++
      [.ifGoto (ifTrue (.ofNat i)), .goto (ifFalse (.ofNat i)), .label (ifTrue (.ofNat i))] ++
      body.code scope (i + 1) w ++ [.goto (ifEnd (.ofNat i)), .label (ifFalse (.ofNat i))] ++
      alternative.code scope (i + 1 + body.ifs) (w + body.whiles) ++ [.label (ifEnd (.ofNat i))]
  | .whileLoop condition body =>
    [.label (whileStart (.ofNat w))] ++ condition.code scope ++
      [.operation .not, .ifGoto (whileEnd (.ofNat w))] ++
      body.code scope i (w + 1) ++ [.goto (whileStart (.ofNat w)), .label (whileEnd (.ofNat w))]
  | .doCall call => call.code scope ++ [.pop .temp 0]
  | .returnNothing => [.push .constant 0, .return]
  | .returnValue value => value.code scope ++ [.return]

def Statements.code (scope : Scope) (i w : Nat) : Statements → List Command
  | .nil => []
  | .cons first rest =>
    first.code scope i w ++ rest.code scope (i + first.ifs) (w + first.whiles)

end

/-! ## Subroutines and classes -/

/-- What a subroutine does before its statements: a constructor allocates an object of the class,
and a method takes its receiver as the object. -/
def Class.prologue (c : Class) : Compile.SubroutineKind → List Command
  | .constructor => [.push .constant c.fieldCount, .call "Memory.alloc" 1, .pop .pointer 0]
  | .method => [.push .argument 0, .pop .pointer 0]
  | .function => []

/-- The head of the function of a subroutine, and what it does before its statements. -/
def Class.entry (c : Class) (s : Subroutine) : List Command :=
  .function (c.name ++ "." ++ s.name) s.localCount :: c.prologue s.kind

/-- The function of a subroutine. -/
def Class.function (c : Class) (s : Subroutine) : List Command :=
  c.entry s ++ s.body.code (c.scope s) 0 0

def Class.code (c : Class) : List Command := c.subroutines.flatMap c.function

/-- The function of a subroutine in 16 bits. -/
def Class.written (c : Class) (s : Subroutine) : List Command := (c.function s).map (·.wrap)

/-- The code of a class in 16 bits. -/
def Class.program (c : Class) : List Command := c.subroutines.flatMap c.written

/-! ## What is told on the way -/

def returnName : Option TypeName → String
  | none => "void"
  | some type => type.name

def Subroutine.header (s : Subroutine) : Compile.Header := ⟨s.kind, returnName s.returnType, s.name⟩

/-- The notice that a subroutine is complete. -/
def Class.notice (c : Class) (s : Subroutine) : Compile.Event :=
  .subroutineDone s.header c.name ((c.scope s).symbols.count .argument)
    ((c.scope s).symbols.count .local)

/-- Each function and its notice, and then the notice that the class is complete. -/
def Class.events (c : Class) : List Compile.Event :=
  c.subroutines.flatMap (fun s => Compile.write (c.written s) ++ [c.notice s]) ++
    [.classDone c.name (.ofNat c.fieldCount)]

theorem Class.events_commands (c : Class) : c.events.filterMap (·.command?) = c.program := by
  have hwrite (commands : List Command) :
      (Compile.write commands).filterMap (·.command?) = commands := by
    induction commands with
    | nil => rfl
    | cons command commands ih => exact congrArg (command :: ·) ih
  have hnotice (s : Subroutine) : (c.notice s).command? = none := rfl
  have hdone : (Compile.Event.classDone c.name (.ofNat c.fieldCount)).command? = none := rfl
  simp [events, program, List.filterMap_append, List.filterMap_flatMap, hwrite, hnotice, hdone]

end Syntax

end JackCompiler
