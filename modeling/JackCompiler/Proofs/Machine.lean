import Mathlib
import JackCompiler.Vm.Command
/-!
# A machine for the commands

The usual meaning of the commands of one function, on words of sixteen bits. A place in a function
is told by the commands from there on, and a jump goes on with the commands from its label on. What
a called function does is a parameter: it sees its arguments, the heap and the statics, and answers
with a value and changes of the heap and the statics.

`Runs` is a run with its jumps decided one way or the other. `Reaches` leaves out what the compiled
code uses for itself, the pointer to arrays and the first word of the scratch segment.
-/

namespace JackCompiler.Vm

/-! ## States -/

abbrev Word := BitVec 16

/-- The word of a truth value. -/
def truth (b : Bool) : Word := if b then -1 else 0

/-- What all functions share. -/
structure Memory where
  heap : Word → Word
  statics : Nat → Word

/-- What one call of a function has for itself; `this` is the address of its object. -/
structure Frame where
  locals : Nat → Word
  arguments : Nat → Word
  this : Word

structure Store where
  frame : Frame
  memory : Memory

/-- The state of the machine in a function, the top of the stack first; `that` is the address of an
array element. -/
structure Machine where
  stack : List Word
  store : Store
  that : Word
  temp : Nat → Word

/-- What calls do: a value and the memory afterwards, and what they leave in the first word of the
scratch segment. -/
structure Callees where
  answer : String → List Word → Memory → Word × Memory
  scratch : String → List Word → Memory → Word → Word

namespace Machine

/-- The value at a place of a segment. -/
def read (m : Machine) : Segment → Nat → Option Word
  | .constant, index => some (.ofNat 16 index)
  | .argument, index => some (m.store.frame.arguments index)
  | .local, index => some (m.store.frame.locals index)
  | .static, index => some (m.store.memory.statics index)
  | .this, index => some (m.store.memory.heap (m.store.frame.this + .ofNat 16 index))
  | .that, index => some (m.store.memory.heap (m.that + .ofNat 16 index))
  | .pointer, 0 => some m.store.frame.this
  | .pointer, 1 => some m.that
  | .pointer, _ => none
  | .temp, index => some (m.temp index)

end Machine

namespace Store

/-- A word of the heap changed. -/
def setHeap (store : Store) (address value : Word) : Store :=
  { store with memory.heap := Function.update store.memory.heap address value }

def setStatic (store : Store) (index : Nat) (value : Word) : Store :=
  { store with memory.statics := Function.update store.memory.statics index value }

def setLocal (store : Store) (index : Nat) (value : Word) : Store :=
  { store with frame.locals := Function.update store.frame.locals index value }

def setArgument (store : Store) (index : Nat) (value : Word) : Store :=
  { store with frame.arguments := Function.update store.frame.arguments index value }

end Store

namespace Machine

/-- A place of a segment changed. -/
def write (m : Machine) (value : Word) : Segment → Nat → Option Machine
  | .constant, _ => none
  | .argument, index => some { m with store := m.store.setArgument index value }
  | .local, index => some { m with store := m.store.setLocal index value }
  | .static, index => some { m with store := m.store.setStatic index value }
  | .this, index =>
    some { m with store := m.store.setHeap (m.store.frame.this + .ofNat 16 index) value }
  | .that, index => some { m with store := m.store.setHeap (m.that + .ofNat 16 index) value }
  | .pointer, 0 => some { m with store.frame.this := value }
  | .pointer, 1 => some { m with that := value }
  | .pointer, _ => none
  | .temp, index => some { m with temp := Function.update m.temp index value }

end Machine

/-- The stack after an operation: one with two operands takes the second from the top. -/
def operate : Operation → List Word → Option (List Word)
  | .add, y :: x :: stack => some ((x + y) :: stack)
  | .sub, y :: x :: stack => some ((x - y) :: stack)
  | .eq, y :: x :: stack => some (truth (x = y) :: stack)
  | .gt, y :: x :: stack => some (truth (y.slt x) :: stack)
  | .lt, y :: x :: stack => some (truth (x.slt y) :: stack)
  | .and, y :: x :: stack => some ((x &&& y) :: stack)
  | .or, y :: x :: stack => some ((x ||| y) :: stack)
  | .neg, x :: stack => some (-x :: stack)
  | .not, x :: stack => some (~~~x :: stack)
  | _, _ => none

/-- A call that takes its arguments from the stack. -/
def Machine.call (callees : Callees) (name : String) (count : Nat) (m : Machine) :
    Option Machine :=
  if count ≤ m.stack.length then
    let arguments := (m.stack.take count).reverse
    let answer := callees.answer name arguments m.store.memory
    some {
      stack := answer.1 :: m.stack.drop count
      store := { m.store with memory := answer.2 }
      that := m.that
      temp := Function.update m.temp 0
        (callees.scratch name arguments m.store.memory (m.temp 0)) }
  else none

/-- What a command does that neither jumps nor leaves the function. -/
def perform (callees : Callees) (command : Command) (m : Machine) : Option Machine :=
  match command with
  | .push segment index =>
    (m.read segment index).map fun value => { m with stack := value :: m.stack }
  | .pop segment index =>
    match m.stack with
    | value :: stack => Machine.write { m with stack } value segment index
    | [] => none
  | .operation op => (operate op m.stack).map fun stack => { m with stack }
  | .call name count => m.call callees name count
  | .label _ => some m
  | .goto _ | .ifGoto _ | .function _ _ | .return => none

/-! ## Runs -/

/-- A place in a function, by the commands from there on, and the state there. -/
structure Point where
  rest : List Command
  machine : Machine

/-- The commands from a label on. -/
def target? (name : String) : List Command → Option (List Command)
  | [] => none
  | command :: rest => if command = .label name then some (command :: rest) else target? name rest

/-- One step in a function, and whether it decided to jump if it had to decide. -/
def step (callees : Callees) (code : List Command) (p : Point) : Option (List Bool × Point) :=
  match p.rest, p.machine.stack with
  | .goto name :: _, _ => (target? name code).map fun rest => ([], ⟨rest, p.machine⟩)
  | .ifGoto name :: rest, top :: stack =>
    if top = 0 then some ([false], ⟨rest, { p.machine with stack }⟩)
    else (target? name code).map fun rest => ([true], ⟨rest, { p.machine with stack }⟩)
  | command :: rest, _ => (perform callees command p.machine).map fun m => ([], ⟨rest, m⟩)
  | [], _ => none

theorem step_perform {callees : Callees} {code rest : List Command} {command : Command}
    {m m' : Machine} (h : perform callees command m = some m') :
    step callees code ⟨command :: rest, m⟩ = some ([], ⟨rest, m'⟩) := by
  cases command with
  | goto | ifGoto | function | «return» => cases h
  | _ => simp only [step, h, Option.map_some]

section

variable {callees : Callees} {code rest target : List Command} {name : String} {m : Machine}
  {top : Word} {stack : List Word} {store : Store} {that : Word} {temp : Nat → Word}

theorem step_goto (h : target? name code = some target) :
    step callees code ⟨.goto name :: rest, m⟩ = some ([], ⟨target, m⟩) := by
  simp only [step, h, Option.map_some]

theorem step_jump (htop : top ≠ 0) (h : target? name code = some target) :
    step callees code ⟨.ifGoto name :: rest, ⟨top :: stack, store, that, temp⟩⟩ =
      some ([true], ⟨target, ⟨stack, store, that, temp⟩⟩) := by
  simp only [step, if_neg htop, h, Option.map_some]

theorem step_stay : step callees code ⟨.ifGoto name :: rest, ⟨0 :: stack, store, that, temp⟩⟩ =
    some ([false], ⟨rest, ⟨stack, store, that, temp⟩⟩) := rfl

end

/-- A run in a function, with its decisions to jump. -/
inductive Runs (callees : Callees) (code : List Command) : Point → List Bool → Point → Prop
  | refl (p : Point) : Runs callees code p [] p
  | step {p q r : Point} {ds es : List Bool} (h : step callees code p = some (ds, q))
    (rest : Runs callees code q es r) : Runs callees code p (ds ++ es) r

variable {callees : Callees} {code : List Command}

theorem Runs.perform {command : Command} {rest : List Command} {m m' : Machine} {q : Point}
    {ds : List Bool} (h : Vm.perform callees command m = some m')
    (hrest : Runs callees code ⟨rest, m'⟩ ds q) : Runs callees code ⟨command :: rest, m⟩ ds q :=
  .step (step_perform h) hrest

theorem Runs.trans {p q r : Point} {ds es : List Bool} (h : Runs callees code p ds q)
    (h' : Runs callees code q es r) : Runs callees code p (ds ++ es) r := by
  induction h with
  | refl => exact h'
  | step hstep _ ih => rw [List.append_assoc]; exact .step hstep (ih h')

/-- Runs from one place that come to where the machine does not go on come to the same. -/
theorem Runs.halted_unique {p q r : Point} {ds es : List Bool} (hq : Runs callees code p ds q)
    (hr : Runs callees code p es r) (hqs : Vm.step callees code q = none)
    (hrs : Vm.step callees code r = none) : q = r := by
  induction hq generalizing es with
  | refl =>
    cases hr with
    | refl => rfl
    | step hstep => rw [hqs] at hstep; cases hstep
  | step hstep _ ih =>
    cases hr with
    | refl => rw [hrs] at hstep; cases hstep
    | step hstep' hr =>
      rw [hstep] at hstep'
      cases hstep'
      exact ih hr hqs

/-- A point of a run but for what the code uses for itself. -/
structure View where
  rest : List Command
  stack : List Word
  store : Store

/-- The point of a view, with given words in the array pointer and the scratch segment. -/
def View.point (p : View) (that : Word) (temp : Nat → Word) : Point :=
  ⟨p.rest, p.stack, p.store, that, temp⟩

/-- From one view a run gets to another, whatever is in the array pointer and the scratch segment,
of which it changes only the first word. -/
def Reaches (callees : Callees) (code : List Command) (p : View) (ds : List Bool) (q : View) :
    Prop :=
  ∀ that temp, ∃ that' scratch, Runs callees code (p.point that temp) ds
    (q.point that' (Function.update temp 0 scratch))

namespace Reaches

variable {p q r : View} {ds es : List Bool}

theorem refl (p : View) : Reaches callees code p [] p :=
  fun that temp => ⟨that, temp 0, by rw [Function.update_eq_self]; exact .refl _⟩

theorem trans (h : Reaches callees code p ds q) (h' : Reaches callees code q es r) :
    Reaches callees code p (ds ++ es) r := by
  intro that temp
  obtain ⟨that1, scratch1, h1⟩ := h that temp
  obtain ⟨that2, scratch2, h2⟩ := h' that1 (Function.update temp 0 scratch1)
  rw [Function.update_idem] at h2
  exact ⟨that2, scratch2, h1.trans h2⟩

/-- A run without decisions before another. -/
theorem seq (h : Reaches callees code p [] q) (h' : Reaches callees code q es r) :
    Reaches callees code p es r := h.trans h'

variable {command : Command} {rest target : List Command} {stack : List Word} {store : Store}
  {name : String}

theorem perform {stack' : List Word} {store' : Store}
    (h : ∀ that temp, ∃ that' scratch, Vm.perform callees command ⟨stack, store, that, temp⟩ =
      some ⟨stack', store', that', Function.update temp 0 scratch⟩) :
    Reaches callees code ⟨command :: rest, stack, store⟩ [] ⟨rest, stack', store'⟩ := by
  intro that temp
  obtain ⟨that', scratch, h⟩ := h that temp
  exact ⟨that', scratch, .step (step_perform h) (.refl _)⟩

/-- A step that leaves the array pointer and the scratch segment as they are. -/
theorem of_step (h : ∀ that temp,
      Vm.step callees code (p.point that temp) = some (ds, q.point that temp)) :
    Reaches callees code p ds q := by
  intro that temp
  refine ⟨that, temp 0, ?_⟩
  rw [Function.update_eq_self, ← List.append_nil ds]
  exact .step (h that temp) (.refl _)

/-- A command that changes nothing but the stack. -/
theorem stack_only {stack' : List Word} (h : ∀ that temp, Vm.perform callees command
      ⟨stack, store, that, temp⟩ = some ⟨stack', store, that, temp⟩) :
    Reaches callees code ⟨command :: rest, stack, store⟩ [] ⟨rest, stack', store⟩ :=
  of_step fun that temp => step_perform (h that temp)

theorem goto (h : target? name code = some target) :
    Reaches callees code ⟨.goto name :: rest, stack, store⟩ [] ⟨target, stack, store⟩ :=
  of_step fun _ _ => step_goto h

theorem jump {top : Word} (htop : top ≠ 0) (h : target? name code = some target) :
    Reaches callees code ⟨.ifGoto name :: rest, top :: stack, store⟩ [true]
      ⟨target, stack, store⟩ :=
  of_step fun _ _ => step_jump htop h

theorem stay : Reaches callees code ⟨.ifGoto name :: rest, 0 :: stack, store⟩ [false]
    ⟨rest, stack, store⟩ :=
  of_step fun _ _ => step_stay

theorem label :
    Reaches callees code ⟨.label name :: rest, stack, store⟩ [] ⟨rest, stack, store⟩ :=
  stack_only fun _ _ => rfl

/-- A call of the arguments that have been pushed last. -/
theorem call (arguments : List Word) :
    Reaches callees code
      ⟨.call name arguments.length :: rest, arguments.reverse ++ stack, store⟩ []
      ⟨rest, (callees.answer name arguments store.memory).1 :: stack,
        { store with memory := (callees.answer name arguments store.memory).2 }⟩ := by
  refine perform fun that temp =>
    ⟨that, callees.scratch name arguments store.memory (temp 0), ?_⟩
  simp [Vm.perform, Machine.call]

end Reaches

/-! ## Labels -/

/-- Commands that neither jump nor mark a place. -/
def Command.isPlain : Command → Bool
  | .push _ _ | .pop _ _ | .operation _ | .call _ _ => true
  | .label _ | .goto _ | .ifGoto _ | .function _ _ | .return => false

def Command.label? : Command → Option String
  | .label name => some name
  | _ => none

/-- The label a command can jump to. -/
def Command.jump? : Command → Option String
  | .goto name | .ifGoto name => some name
  | _ => none

/-- The labels of code, in order. -/
def labels (code : List Command) : List String := code.filterMap (·.label?)

@[simp]
theorem labels_append (a b : List Command) : labels (a ++ b) = labels a ++ labels b :=
  List.filterMap_append

/-- The labels that code can jump to, in the order of its jumps. -/
def jumps (code : List Command) : List String := code.filterMap (·.jump?)

@[simp]
theorem jumps_append (a b : List Command) : jumps (a ++ b) = jumps a ++ jumps b :=
  List.filterMap_append

theorem Command.label?_of_plain {command : Command} (h : command.isPlain = true) :
    command.label? = none := by
  cases command <;> first | rfl | cases h

theorem Command.jump?_of_plain {command : Command} (h : command.isPlain = true) :
    command.jump? = none := by
  cases command <;> first | rfl | cases h

theorem labels_of_plain {code : List Command} (h : code.all (·.isPlain)) : labels code = [] :=
  List.filterMap_eq_nil_iff.mpr fun command hmem =>
    Command.label?_of_plain (List.all_eq_true.mp h command hmem)

theorem jumps_of_plain {code : List Command} (h : code.all (·.isPlain)) : jumps code = [] :=
  List.filterMap_eq_nil_iff.mpr fun command hmem =>
    Command.jump?_of_plain (List.all_eq_true.mp h command hmem)

/-- A jump to a label that is unlike all others arrives where the label stands. -/
theorem target?_of_nodup {before rest : List Command} {name : String}
    (h : (labels (before ++ .label name :: rest)).Nodup) :
    target? name (before ++ .label name :: rest) = some (.label name :: rest) := by
  induction before with
  | nil => simp [target?]
  | cons command before ih =>
    have hne : command ≠ .label name := by
      rintro rfl
      simp [labels, Command.label?] at h
    rw [List.cons_append, target?, if_neg hne]
    refine ih (h.sublist ?_)
    exact (List.sublist_cons_self _ _).filterMap _

/-! ## The functions of a program -/

def Command.isFunction : Command → Bool
  | .function _ _ => true
  | _ => false

/-- The commands before the first function of a program, and its functions, each from its head. -/
def splitFunctions : List Command → List Command × List (List Command)
  | [] => ([], [])
  | command :: rest =>
    let split := splitFunctions rest
    if command.isFunction then ([], (command :: split.1) :: split.2)
    else (command :: split.1, split.2)

/-- The functions of a program. -/
def functions (program : List Command) : List (List Command) := (splitFunctions program).2

theorem splitFunctions_append {body : List Command} (rest : List Command)
    (h : body.all (!·.isFunction)) :
    splitFunctions (body ++ rest) =
      (body ++ (splitFunctions rest).1, (splitFunctions rest).2) := by
  induction body with
  | nil => rfl
  | cons command body ih =>
    rw [List.all_cons, Bool.and_eq_true, Bool.not_eq_true'] at h
    have hcommand : ¬command.isFunction = true := by simp [h.1]
    rw [List.cons_append, splitFunctions, ih h.2]
    dsimp only
    rw [if_neg hcommand]
    rfl

/-- The functions of a program that is made of functions. -/
theorem functions_flatMap {α : Type} (items : List α) (head : α → Command) (body : α → List Command)
    (hhead : ∀ a ∈ items, (head a).isFunction = true)
    (hbody : ∀ a ∈ items, (body a).all (!·.isFunction)) :
    functions (items.flatMap fun a => head a :: body a) = items.map fun a => head a :: body a := by
  suffices h : splitFunctions (items.flatMap fun a => head a :: body a) =
      ([], items.map fun a => head a :: body a) by rw [functions, h]
  induction items with
  | nil => rfl
  | cons a items ih =>
    rw [List.flatMap_cons, List.cons_append, splitFunctions,
      splitFunctions_append _ (hbody a (by simp)),
      ih (fun a h => hhead a (by simp [h])) (fun a h => hbody a (by simp [h]))]
    dsimp only
    rw [if_pos (hhead a (by simp)), List.append_nil, List.map_cons]

end JackCompiler.Vm
