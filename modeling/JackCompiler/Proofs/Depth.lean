import JackCompiler.Proofs.Machine
import JackCompiler.Proofs.Substatements
/-!
# How deep the stack is

How many values each command takes from the stack and leaves there, and what it means that one depth
of the stack can be told for every place of a function, on whatever way execution comes there
(`Vm.Balanced`). Compiled code has nothing on the stack wherever it jumps and wherever a label
stands, so its depths can be told by reading it straight through (`Vm.Straight`): expressions leave
one value more, arguments leave as many as there are, and statements leave none.
-/

namespace JackCompiler

namespace Vm

/-! ## Depths of a function -/

def Operation.operands : Operation → Nat
  | .neg | .not => 1
  | .add | .sub | .eq | .gt | .lt | .and | .or => 2

namespace Command

/-- How many values a command takes from the stack. -/
def takes : Command → Nat
  | push _ _ | label _ | goto _ | function _ _ => 0
  | pop _ _ | ifGoto _ | «return» => 1
  | operation op => op.operands
  | call _ arguments => arguments

/-- How many values a command leaves there instead. -/
def leaves : Command → Nat
  | push _ _ | operation _ | call _ _ => 1
  | pop _ _ | label _ | goto _ | ifGoto _ | function _ _ | «return» => 0

/-- Whether the next command can be run after it. -/
def goesOn : Command → Bool
  | goto _ | «return» => false
  | _ => true

end Command

/-- After the command at one place of a function the command at another can be run. -/
inductive Follows (code : List Command) : Nat → Nat → Prop
  | next {k : Nat} {command : Command} (h : code[k]? = some command)
    (hnext : command.goesOn = true) : Follows code k (k + 1)
  | jump {k j : Nat} {command : Command} {name : String} (h : code[k]? = some command)
    (hjump : command.jump? = some name) (hlabel : code[j]? = some (.label name)) : Follows code k j

/-- The depth of the stack before each command of a function, and at its end, the head of the
function being command `0`. -/
structure Balanced (code : List Command) (depth : Nat → Nat) : Prop where
  head : depth 1 = 0
  /-- No command takes more values than there are. -/
  enough : ∀ {k : Nat} {command : Command}, code[k]? = some command → command.takes ≤ depth k
  follows : ∀ {k j : Nat} {command : Command}, code[k]? = some command → Follows code k j →
    depth j = depth k - command.takes + command.leaves
  label : ∀ {k : Nat} {name : String}, code[k]? = some (.label name) → depth k = 0
  «return» : ∀ {k : Nat}, code[k]? = some .return → depth k = 1
  exit : depth code.length = 0

/-! ## Code read straight through -/

/-- The depth before a command and the one before the next, in code read straight through: jumps
and labels stand where nothing is on the stack, and so does what follows a `return`. -/
inductive Command.Moves : Command → Nat → Nat → Prop
  | plain {command : Command} (h : command.isPlain = true) (d : Nat) :
    command.Moves (d + command.takes) (d + command.leaves)
  | function (name : String) (locals : Nat) : (Command.function name locals).Moves 0 0
  | label (name : String) : (Command.label name).Moves 0 0
  | goto (name : String) : (Command.goto name).Moves 0 0
  | ifGoto (name : String) : (Command.ifGoto name).Moves 1 0
  | return : Command.return.Moves 1 0

/-- Read straight through, code brings the stack from one depth to another. -/
inductive Straight : Nat → List Command → Nat → Prop
  | nil (d : Nat) : Straight d [] d
  | cons {command : Command} {rest : List Command} {d d' e : Nat} (h : command.Moves d d')
    (hrest : Straight d' rest e) : Straight d (command :: rest) e

namespace Command.Moves

variable {command : Command} {name : String} {d d' : Nat}

theorem enough (h : command.Moves d d') : command.takes ≤ d := by
  cases h with
  | plain hplain d => exact Nat.le_add_left _ _
  | _ => exact Nat.le_refl _

theorem after (h : command.Moves d d') : d' = d - command.takes + command.leaves := by
  cases h with
  | plain hplain d => omega
  | _ => rfl

/-- Nothing is on the stack where a jump begins or arrives. -/
theorem jump (h : command.Moves d d') (hjump : command.jump? = some name) : d' = 0 := by
  cases h with
  | plain hplain d =>
    rw [command.jump?_of_plain hplain] at hjump
    cases hjump
  | _ => rfl

theorem of_label (h : (Command.label name).Moves d d') : d = 0 := by
  cases h with
  | plain hplain d => cases hplain
  | label => rfl

theorem of_return (h : Command.return.Moves d d') : d = 1 := by
  cases h with
  | plain hplain d => cases hplain
  | «return» => rfl

theorem of_function {locals : Nat} (h : (Command.function name locals).Moves d d') : d' = 0 := by
  cases h with
  | plain hplain d => cases hplain
  | function => rfl

end Command.Moves

/-- The depth behind a command, told from the one before it. -/
def Command.depthAfter (d : Nat) (command : Command) : Nat := d - command.takes + command.leaves

/-- The depth behind code that begins at a depth. -/
def depthAfter (d : Nat) (code : List Command) : Nat := code.foldl Command.depthAfter d

namespace Straight

variable {a b : List Command} {command : Command} {d e f k : Nat}

theorem single (h : command.Moves d e) : Straight d [command] e := .cons h (.nil e)

theorem push (segment : Segment) (index d : Nat) : Straight d [.push segment index] (d + 1) :=
  .single (.plain (show (Command.push segment index).isPlain = true from rfl) d)

theorem pop (segment : Segment) (index d : Nat) : Straight (d + 1) [.pop segment index] d :=
  .single (.plain (show (Command.pop segment index).isPlain = true from rfl) d)

theorem operation (op : Operation) (d : Nat) :
    Straight (d + op.operands) [.operation op] (d + 1) :=
  .single (.plain (show (Command.operation op).isPlain = true from rfl) d)

theorem call (name : String) (arguments d : Nat) :
    Straight (d + arguments) [.call name arguments] (d + 1) :=
  .single (.plain (show (Command.call name arguments).isPlain = true from rfl) d)

theorem append (ha : Straight d a e) (hb : Straight e b f) : Straight d (a ++ b) f := by
  induction ha with
  | nil => exact hb
  | cons h _ ih => exact .cons h (ih hb)

theorem depthAfter (h : Straight d a e) : Vm.depthAfter d a = e := by
  induction h with
  | nil => rfl
  | cons h _ ih => rwa [Vm.depthAfter, List.foldl_cons, Command.depthAfter, ← h.after]

/-- Each command moves the depth at its place to the depth at the next. -/
theorem moves (h : Straight d a e) (hk : a[k]? = some command) :
    command.Moves (Vm.depthAfter d (a.take k)) (Vm.depthAfter d (a.take (k + 1))) := by
  induction h generalizing k with
  | nil => cases hk
  | @cons first rest d d' e hfirst hrest ih =>
    have hstep (k : Nat) : Vm.depthAfter d ((first :: rest).take (k + 1)) =
        Vm.depthAfter d' (rest.take k) := by
      rw [List.take_succ_cons, hfirst.after]
      rfl
    cases k with
    | zero =>
      obtain rfl : first = command := Option.some.inj hk
      rw [hstep]
      exact hfirst
    | succ k =>
      rw [hstep, hstep]
      exact ih hk

/-- A function that begins and ends with nothing on the stack is balanced, its depths being those
read off it. -/
theorem balanced (h : Straight 0 a 0) {name : String} {locals : Nat}
    (hhead : a[0]? = some (.function name locals)) :
    Balanced a fun k => Vm.depthAfter 0 (a.take k) where
  head := (h.moves hhead).of_function
  enough := fun hk => (h.moves hk).enough
  label := fun hk => (h.moves hk).of_label
  «return» := fun hk => (h.moves hk).of_return
  exit := by
    rw [List.take_length]
    exact h.depthAfter
  follows := by
    intro k j command hk hfollows
    have hmoves := h.moves hk
    cases hfollows with
    | next => exact hmoves.after
    | jump hk' hjump hlabel =>
      obtain rfl := Option.some.inj (hk.symm.trans hk')
      rw [(h.moves hlabel).of_label, ← hmoves.after, hmoves.jump hjump]

end Straight

end Vm

namespace Syntax

open Vm (Command Straight)
open Compile (whileStart)

variable {scope : Scope}

/-! ## Expressions -/

theorem straight_read {name : String} (h : (scope.symbols.lookup? name).isSome) (d : Nat) :
    Straight d (scope.read name) (d + 1) := by
  obtain ⟨slot, hslot⟩ := Scope.exists_slot h
  rw [Scope.read, hslot]
  exact .push _ _ d

theorem straight_assign {name : String} (h : (scope.symbols.lookup? name).isSome) (d : Nat) :
    Straight (d + 1) (scope.assign name) d := by
  obtain ⟨slot, hslot⟩ := Scope.exists_slot h
  rw [Scope.assign, hslot]
  exact .pop _ _ d

theorem straight_characters (characters : List Char) (d : Nat) :
    Straight (d + 1) (characters.flatMap fun c =>
      [.push .constant c.toNat, .call "String.appendChar" 2]) (d + 1) := by
  induction characters with
  | nil => exact .nil _
  | cons c characters ih =>
    have happend := (Straight.push .constant c.toNat (d + 1)).append
      (.call "String.appendChar" 2 d)
    exact happend.append ih

theorem straight_string (contents : String) (d : Nat) :
    Straight d (stringCode contents) (d + 1) := by
  have hnew := (Straight.push .constant contents.length d).append (.call "String.new" 1 d)
  exact hnew.append (straight_characters contents.toList d)

theorem Constant.straight (value : Constant) (d : Nat) : Straight d value.code (d + 1) := by
  cases value with
  | true => exact (Straight.push .constant 1 d).append (.operation .neg d)
  | false | null | this => exact .push _ _ d

theorem BinaryOperator.straight (op : BinaryOperator) (d : Nat) :
    Straight (d + 2) [op.command] (d + 1) := by
  cases op with
  | multiply | divide => exact .call _ 2 d
  | add => exact .operation .add d
  | subtract => exact .operation .sub d
  | and => exact .operation .and d
  | or => exact .operation .or d
  | less => exact .operation .lt d
  | greater => exact .operation .gt d
  | equal => exact .operation .eq d

theorem UnaryOperator.straight (op : UnaryOperator) (d : Nat) :
    Straight (d + 1) [op.command] (d + 1) := by
  cases op with
  | negate => exact .operation .neg d
  | complement => exact .operation .not d

theorem straight_readElement (d : Nat) : Straight (d + 2) Compile.readElement (d + 1) := by
  have haddress := (Straight.operation .add d).append (.pop .pointer 1 d)
  exact haddress.append (.push .that 0 d)

mutual

/-- An expression leaves one value more. -/
theorem Expression.straight (e : Expression) (h : Resolved scope.symbols (usedNames e.terms))
    (d : Nat) : Straight d (e.code scope) (d + 1) := by
  cases e with
  | mk first rest =>
    rw [Expression.terms, usedNames_append, resolved_append] at h
    exact (Term.straight first h.1 d).append (Operations.straight rest h.2 d)

/-- Operators take the values of their terms and the one before them. -/
theorem Operations.straight (operations : Operations)
    (h : Resolved scope.symbols (usedNames operations.terms)) (d : Nat) :
    Straight (d + 1) (operations.code scope) (d + 1) := by
  cases operations with
  | nil => exact .nil _
  | cons op operand rest =>
    rw [Operations.terms, usedNames_append, resolved_append] at h
    have hterms := (Term.straight operand h.1 (d + 1)).append (Operations.straight rest h.2 (d + 1))
    exact hterms.append (op.straight d)

theorem Term.straight (t : Term) (h : Resolved scope.symbols (usedNames t.terms)) (d : Nat) :
    Straight d (t.code scope) (d + 1) := by
  cases t with
  | integer digits => exact .push _ _ d
  | string contents => exact straight_string contents d
  | constant value => exact value.straight d
  | var name =>
    simp only [Term.terms, usedNames_cons, Term.variable?, Option.toList_some,
      List.singleton_append, resolved_cons] at h
    exact straight_read h.1 d
  | element array index =>
    simp only [Term.terms, usedNames_cons, Term.variable?, Option.toList_some,
      List.singleton_append, resolved_cons] at h
    have hindex := (straight_read h.1 d).append (Expression.straight index h.2 (d + 1))
    exact hindex.append (straight_readElement d)
  | call call => exact Call.straight call h d
  | group inner => exact Expression.straight inner h d
  | unary op operand => exact (Term.straight operand h d).append (op.straight d)

theorem Call.straight (call : Call) (h : Resolved scope.symbols (usedNames call.terms)) (d : Nat) :
    Straight d (call.code scope) (d + 1) := by
  have hreceiver (arguments : Arguments) (name : String) :
      Straight (d + 1 + arguments.length) [.call name (arguments.length + 1)] (d + 1) := by
    rw [Nat.add_assoc, Nat.add_comm 1]
    exact .call name (arguments.length + 1) d
  cases call with
  | own name arguments =>
    have hpushed := (Straight.push .pointer 0 d).append (Arguments.straight arguments h (d + 1))
    exact hpushed.append (hreceiver arguments _)
  | dotted receiver name arguments =>
    rw [Call.code]
    split
    case h_1 declared _ =>
      have hobject : Straight d [declared.push] (d + 1) := .push _ _ d
      exact (hobject.append (Arguments.straight arguments h (d + 1))).append (hreceiver arguments _)
    case h_2 => exact (Arguments.straight arguments h d).append (.call _ _ d)

/-- Arguments leave as many values as there are of them. -/
theorem Arguments.straight (arguments : Arguments)
    (h : Resolved scope.symbols (usedNames arguments.terms)) (d : Nat) :
    Straight d (arguments.code scope) (d + arguments.length) := by
  cases arguments with
  | nil => exact .nil _
  | cons first rest =>
    rw [Arguments.terms, usedNames_append, resolved_append] at h
    rw [Arguments.length, ← Nat.add_assoc, Nat.add_right_comm]
    exact (Expression.straight first h.1 d).append (Arguments.straight rest h.2 (d + 1))

end

/-! ## Statements -/

theorem straight_storeElement : Straight 2 Compile.storeElement 0 := by
  have haddress := (Straight.pop .temp 0 1).append (.pop .pointer 1 0)
  have hagain := haddress.append (.push .temp 0 0)
  exact hagain.append (.pop .that 0 0)

theorem straight_label (name : String) : Straight 0 [.label name] 0 := .single (.label name)

theorem straight_branch (number : UInt16) : Straight 1 (Compile.branch number) 0 :=
  .cons (.ifGoto _) (.cons (.goto _) (straight_label _))

theorem straight_alternative (number : UInt16) : Straight 0 (Compile.alternative number) 0 :=
  .cons (.goto _) (straight_label _)

theorem straight_leaveLoop (number : UInt16) : Straight 1 (Compile.leaveLoop number) 0 :=
  (Straight.operation .not 0).append (.single (.ifGoto _))

theorem straight_repeatLoop (number : UInt16) : Straight 0 (Compile.repeatLoop number) 0 :=
  .cons (.goto _) (straight_label _)

mutual

/-- A statement leaves the stack as it finds it. -/
theorem Statement.straight (s : Statement) (i w : Nat)
    (h : Resolved scope.symbols (s.targets ++ usedNames s.terms)) :
    Straight 0 (s.code scope i w) 0 := by
  cases s with
  | letVar name value =>
    simp only [Statement.targets, Statement.terms, List.singleton_append, resolved_cons] at h
    exact (value.straight h.2 0).append (straight_assign h.1 0)
  | letElement array index value =>
    simp only [Statement.targets, Statement.terms, usedNames_append, List.singleton_append,
      resolved_cons, resolved_append] at h
    have hindex := (straight_read h.1 0).append (index.straight h.2.1 1)
    have haddress := hindex.append (.operation .add 0)
    exact (haddress.append (value.straight h.2.2 1)).append straight_storeElement
  | ifThen condition body =>
    obtain ⟨hcondition, hbody⟩ := resolved_condition h
    have hbranch := (condition.straight hcondition 0).append (straight_branch (.ofNat i))
    exact (hbranch.append (Statements.straight body _ _ hbody)).append (straight_label _)
  | ifElse condition body alternative =>
    obtain ⟨hcondition, hbody, halternative⟩ := resolved_conditions h
    have hbranch := (condition.straight hcondition 0).append (straight_branch (.ofNat i))
    have hfirst := (hbranch.append (Statements.straight body (i + 1) w hbody)).append
      (straight_alternative (.ofNat i))
    exact (hfirst.append (Statements.straight alternative _ _ halternative)).append
      (straight_label _)
  | whileLoop condition body =>
    obtain ⟨hcondition, hbody⟩ := resolved_condition h
    have hleave := ((straight_label (whileStart (.ofNat w))).append
      (condition.straight hcondition 0)).append (straight_leaveLoop (.ofNat w))
    exact (hleave.append (Statements.straight body _ _ hbody)).append
      (straight_repeatLoop (.ofNat w))
  | doCall call => exact (call.straight h 0).append (.pop .temp 0 0)
  | returnNothing => exact (Straight.push .constant 0 0).append (.single .return)
  | returnValue value => exact (value.straight h 0).append (.single .return)

theorem Statements.straight (body : Statements) (i w : Nat)
    (h : Resolved scope.symbols body.names) : Straight 0 (body.code scope i w) 0 := by
  cases body with
  | nil => exact .nil 0
  | cons first rest =>
    obtain ⟨hfirst, hrest⟩ := resolved_cons_statements h
    exact (Statement.straight first i w hfirst).append (Statements.straight rest _ _ hrest)

end

/-! ## Statements at any depth -/

/-- Nothing is on the stack before and behind a placed statement. -/
structure Placed.Level (scope : Scope) (p : Placed) : Prop where
  before : Straight 0 p.before 0
  code : Straight 0 (p.code scope) 0

theorem Placed.Level.behind {p : Placed} (h : p.Level scope) {more : List Command}
    (hmore : Straight 0 more 0) : (p.behind more).Level scope :=
  ⟨hmore.append h.before, h.code⟩

mutual

theorem Statement.placed_level (s : Statement) (i w : Nat)
    (h : Resolved scope.symbols (s.targets ++ usedNames s.terms)) :
    ∀ p ∈ s.placed scope i w, p.Level scope := by
  intro p hp
  cases s with
  | letVar | letElement | doCall | returnNothing | returnValue => cases hp
  | ifThen condition body =>
    obtain ⟨hcondition, hbody⟩ := resolved_condition h
    obtain ⟨q, hq, rfl⟩ := List.mem_map.mp hp
    have hbranch := (condition.straight hcondition 0).append (straight_branch (.ofNat i))
    exact (Statements.placed_level body (i + 1) w hbody q hq).behind hbranch
  | ifElse condition body alternative =>
    obtain ⟨hcondition, hbody, halternative⟩ := resolved_conditions h
    have hbranch := (condition.straight hcondition 0).append (straight_branch (.ofNat i))
    rcases List.mem_append.mp hp with hp | hp
    · obtain ⟨q, hq, rfl⟩ := List.mem_map.mp hp
      exact (Statements.placed_level body (i + 1) w hbody q hq).behind hbranch
    · obtain ⟨q, hq, rfl⟩ := List.mem_map.mp hp
      have hfirst := (hbranch.append (body.straight (i + 1) w hbody)).append
        (straight_alternative (.ofNat i))
      exact (Statements.placed_level alternative _ _ halternative q hq).behind hfirst
  | whileLoop condition body =>
    obtain ⟨hcondition, hbody⟩ := resolved_condition h
    obtain ⟨q, hq, rfl⟩ := List.mem_map.mp hp
    have hleave := ((straight_label (whileStart (.ofNat w))).append
      (condition.straight hcondition 0)).append (straight_leaveLoop (.ofNat w))
    exact (Statements.placed_level body i (w + 1) hbody q hq).behind hleave

theorem Statements.placed_level (body : Statements) (i w : Nat)
    (h : Resolved scope.symbols body.names) : ∀ p ∈ body.placed scope i w, p.Level scope := by
  intro p hp
  cases body with
  | nil => cases hp
  | cons first rest =>
    obtain ⟨hfirst, hrest⟩ := resolved_cons_statements h
    rcases List.mem_append.mp hp with hp | hp
    · rcases List.mem_cons.mp hp with rfl | hp
      · exact ⟨.nil 0, first.straight i w hfirst⟩
      · exact Statement.placed_level first i w hfirst p hp
    · obtain ⟨q, hq, rfl⟩ := List.mem_map.mp hp
      exact (Statements.placed_level rest _ _ hrest q hq).behind (first.straight i w hfirst)

end

/-! ## Functions -/

theorem Class.straight_entry (c : Class) (s : Subroutine) : Straight 0 (c.entry s) 0 := by
  have hprologue : Straight 0 (c.prologue s.kind) 0 := by
    cases s.kind with
    | constructor =>
      have halloc := (Straight.push .constant c.fieldCount 0).append (.call "Memory.alloc" 1 0)
      exact halloc.append (.pop .pointer 0 0)
    | method => exact (Straight.push .argument 0 0).append (.pop .pointer 0 0)
    | function => exact .nil 0
  exact .cons (.function _ _) hprologue

/-- One depth of the stack can be told for every place of a function, and it is `0` before and
behind each statement. -/
theorem Class.function_balanced (c : Class) (s : Subroutine)
    (h : Resolved (c.scope s).symbols s.body.names) : ∃ depth, Vm.Balanced (c.function s) depth ∧
      ∀ p ∈ s.body.placed (c.scope s) 0 0,
        c.entry s ++ p.before ++ p.code (c.scope s) <+: c.function s ∧
        depth (c.entry s ++ p.before).length = 0 ∧
        depth (c.entry s ++ p.before ++ p.code (c.scope s)).length = 0 := by
  have hentry := c.straight_entry s
  refine ⟨_, (hentry.append (s.body.straight 0 0 h)).balanced rfl, fun p hp => ?_⟩
  have hlevel := s.body.placed_level 0 0 h p hp
  have hstands : c.entry s ++ p.before ++ p.code (c.scope s) <+: c.function s := by
    rw [List.append_assoc, Class.function, List.prefix_append_right_inj]
    exact s.body.placed_stands (c.scope s) 0 0 p hp
  have hdepth {code : List Command} (hcode : code <+: c.function s)
      (hstraight : Straight 0 code 0) : Vm.depthAfter 0 ((c.function s).take code.length) = 0 := by
    rw [← List.prefix_iff_eq_take.mp hcode]
    exact hstraight.depthAfter
  have hbefore := hentry.append hlevel.before
  exact ⟨hstands, hdepth ((List.prefix_append _ _).trans hstands) hbefore,
    hdepth hstands (hbefore.append hlevel.code)⟩

end Syntax

end JackCompiler
