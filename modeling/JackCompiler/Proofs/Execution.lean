import JackCompiler.Proofs.Evaluation
import JackCompiler.Proofs.Labels
/-!
# What statements do

The execution of statements as structured control flow: a condition is true or false, a block is
run or not, a loop goes on or ends, and a `return` leaves all of them. The code of statements does
the same with jumps (`Statements.simulates`): it decides as often and alike, and comes to the same
store at its end or at a `return`.
-/

namespace JackCompiler.Syntax

open Vm (Word Store Callees Command View Reaches)
open Compile (ifTrue ifFalse ifEnd whileStart whileEnd)

/-! ## Execution -/

/-- How statements end. -/
inductive Outcome
  | finished
  | returned (value : Word)

/-- What a condition has decided: whether the first block of an `if` is run, or whether a `while`
goes on. -/
inductive Decision
  | branch (taken : Bool)
  | loop (again : Bool)

/-- Whether the code jumps to go on as decided: an `if` to its first block, a `while` to its end. -/
def Decision.jumps : Decision → Bool
  | branch taken => taken
  | loop again => !again

section

variable (callees : Callees) (scope : Scope)

mutual

/-- From one store a statement ends in another, with these decisions on the way. -/
inductive Statement.Executes : Statement → Store → List Decision → Outcome → Store → Prop
  | letVar (name : String) (value : Expression) (store : Store) :
    Statement.Executes (.letVar name value) store [] .finished
      (scope.put name (value.eval callees scope store.frame store.memory).1
        { store with memory := (value.eval callees scope store.frame store.memory).2 })
  /-- The array and the index come before the value, and the element is stored after it. -/
  | letElement (array : String) (index value : Expression) (store : Store) {i v : Word}
    {memory memory' : Vm.Memory}
    (hindex : index.eval callees scope store.frame store.memory = (i, memory))
    (hvalue : value.eval callees scope store.frame memory = (v, memory')) :
    Statement.Executes (.letElement array index value) store [] .finished
      (Store.setHeap { store with memory := memory' } (scope.value array store + i) v)
  | ifTaken {condition : Expression} {body : Statements} {store store' : Store}
    {memory : Vm.Memory} {ds : List Decision} {o : Outcome}
    (hcondition : condition.eval callees scope store.frame store.memory = (Vm.truth true, memory))
    (hbody : Statements.Executes body { store with memory } ds o store') :
    Statement.Executes (.ifThen condition body) store (.branch true :: ds) o store'
  | ifSkipped {condition : Expression} {body : Statements} {store : Store} {memory : Vm.Memory}
    (hcondition :
      condition.eval callees scope store.frame store.memory = (Vm.truth false, memory)) :
    Statement.Executes (.ifThen condition body) store [.branch false] .finished
      { store with memory }
  | ifElseTaken {condition : Expression} {body alternative : Statements} {store store' : Store}
    {memory : Vm.Memory} {ds : List Decision} {o : Outcome}
    (hcondition : condition.eval callees scope store.frame store.memory = (Vm.truth true, memory))
    (hbody : Statements.Executes body { store with memory } ds o store') :
    Statement.Executes (.ifElse condition body alternative) store (.branch true :: ds) o store'
  | ifElseSkipped {condition : Expression} {body alternative : Statements} {store store' : Store}
    {memory : Vm.Memory} {ds : List Decision} {o : Outcome}
    (hcondition : condition.eval callees scope store.frame store.memory = (Vm.truth false, memory))
    (halternative : Statements.Executes alternative { store with memory } ds o store') :
    Statement.Executes (.ifElse condition body alternative) store (.branch false :: ds) o store'
  | whileEnds {condition : Expression} {body : Statements} {store : Store} {memory : Vm.Memory}
    (hcondition :
      condition.eval callees scope store.frame store.memory = (Vm.truth false, memory)) :
    Statement.Executes (.whileLoop condition body) store [.loop false] .finished
      { store with memory }
  | whileAgain {condition : Expression} {body : Statements} {store store' store'' : Store}
    {memory : Vm.Memory} {ds es : List Decision} {o : Outcome}
    (hcondition : condition.eval callees scope store.frame store.memory = (Vm.truth true, memory))
    (hbody : Statements.Executes body { store with memory } ds .finished store')
    (hloop : Statement.Executes (.whileLoop condition body) store' es o store'') :
    Statement.Executes (.whileLoop condition body) store (.loop true :: ds ++ es) o store''
  | whileReturns {condition : Expression} {body : Statements} {store store' : Store}
    {memory : Vm.Memory} {ds : List Decision} {v : Word}
    (hcondition : condition.eval callees scope store.frame store.memory = (Vm.truth true, memory))
    (hbody : Statements.Executes body { store with memory } ds (.returned v) store') :
    Statement.Executes (.whileLoop condition body) store (.loop true :: ds) (.returned v) store'
  | doCall (call : Call) (store : Store) :
    Statement.Executes (.doCall call) store [] .finished
      { store with memory := (call.eval callees scope store.frame store.memory).2 }
  | returnNothing (store : Store) : Statement.Executes .returnNothing store [] (.returned 0) store
  | returnValue (value : Expression) (store : Store) :
    Statement.Executes (.returnValue value) store []
      (.returned (value.eval callees scope store.frame store.memory).1)
      { store with memory := (value.eval callees scope store.frame store.memory).2 }

/-- Statements are executed in order, up to one that returns. -/
inductive Statements.Executes : Statements → Store → List Decision → Outcome → Store → Prop
  | nil (store : Store) : Statements.Executes .nil store [] .finished store
  | next {first : Statement} {rest : Statements} {store store' store'' : Store}
    {ds es : List Decision} {o : Outcome}
    (hfirst : Statement.Executes first store ds .finished store')
    (hrest : Statements.Executes rest store' es o store'') :
    Statements.Executes (.cons first rest) store (ds ++ es) o store''
  | stop {first : Statement} {rest : Statements} {store store' : Store} {ds : List Decision}
    {v : Word} (hfirst : Statement.Executes first store ds (.returned v) store') :
    Statements.Executes (.cons first rest) store ds (.returned v) store'

end

end

/-! ## Where code of statements ends -/

/-- The code of statements ends where they do: behind it, or at a `return` with the value on top of
the stack. -/
def Outcome.Arrives (o : Outcome) (rest : List Command) (stack : List Word) (store : Store)
    (q : View) : Prop :=
  match o with
  | finished => q = ⟨rest, stack, store⟩
  | returned v => ∃ more, q = ⟨.return :: more, v :: stack, store⟩

/-- From a view code goes, with decisions, to where statements end. -/
def Ends (callees : Callees) (code : List Command) (p : View) (ds : List Bool) (o : Outcome)
    (rest : List Command) (stack : List Word) (store : Store) : Prop :=
  ∃ q, o.Arrives rest stack store q ∧ Reaches callees code p ds q

variable {callees : Callees} {scope : Scope} {code before rest : List Command} {stack : List Word}

namespace Ends

variable {p q : View} {ds es : List Bool} {o : Outcome} {store : Store}

theorem of_reaches (h : Reaches callees code p ds ⟨rest, stack, store⟩) :
    Ends callees code p ds .finished rest stack store := ⟨_, rfl, h⟩

theorem after (h : Reaches callees code p ds q) (h' : Ends callees code q es o rest stack store) :
    Ends callees code p (ds ++ es) o rest stack store := by
  obtain ⟨r, hr, hq⟩ := h'
  exact ⟨r, hr, h.trans hq⟩

/-- Statements that finish go on with what follows them. -/
theorem trans {rest' : List Command} {stack' : List Word} {store' : Store}
    (h : Ends callees code p ds .finished rest stack store)
    (h' : Ends callees code ⟨rest, stack, store⟩ es o rest' stack' store') :
    Ends callees code p (ds ++ es) o rest' stack' store' := by
  obtain ⟨_, rfl, hp⟩ := h
  exact h'.after hp

/-- What follows code without decisions is run if the code comes to its end. -/
theorem then_reaches {rest' : List Command} (h : Ends callees code p ds o rest stack store)
    (h' : Reaches callees code ⟨rest, stack, store⟩ [] ⟨rest', stack, store⟩) :
    Ends callees code p ds o rest' stack store := by
  obtain ⟨r, hr, hp⟩ := h
  cases o with
  | finished =>
    obtain rfl := hr
    exact ⟨_, rfl, by simpa using hp.trans h'⟩
  | returned v => exact ⟨r, hr, hp⟩

end Ends

/-! ## Assignments -/

theorem reaches_assign {name : String} (h : (scope.symbols.lookup? name).isSome) (value : Word)
    (store : Store) :
    Reaches callees code ⟨scope.assign name ++ rest, value :: stack, store⟩ []
      ⟨rest, stack, scope.put name value store⟩ := by
  obtain ⟨slot, hslot⟩ := Scope.exists_slot h
  simp only [Scope.assign, Scope.put, hslot]
  refine .perform fun that temp => ⟨that, temp 0, ?_⟩
  rw [Function.update_eq_self]
  obtain ⟨name, type, storage, index⟩ := slot
  cases storage <;> rfl

/-- Storing an element, with its address and the value on the stack. -/
theorem reaches_storeElement (address value : Word) (store : Store) :
    Reaches callees code ⟨Compile.storeElement ++ rest, value :: address :: stack, store⟩ []
      ⟨rest, stack, store.setHeap address value⟩ := by
  intro that temp
  have hread : Vm.perform callees (.push .temp 0)
      ⟨stack, store, address, Function.update temp 0 value⟩ =
        some ⟨value :: stack, store, address, Function.update temp 0 value⟩ := by
    simp [Vm.perform, Vm.Machine.read]
  have hstore : Vm.perform callees (.pop .that 0)
      ⟨value :: stack, store, address, Function.update temp 0 value⟩ =
        some ⟨stack, store.setHeap address value, address, Function.update temp 0 value⟩ := by
    simp [Vm.perform, Vm.Machine.write]
  -- the value waits in the scratch segment while the address goes into the array pointer
  exact ⟨address, value, .perform rfl (.perform rfl (.perform hread (.perform hstore (.refl _))))⟩

/-! ## Conditions -/

section

variable {condition : Expression} {inner target : List Command} {store : Store}
  {memory : Vm.Memory} {i w : Nat}

/-- An `if` goes on with its first block. -/
theorem reaches_branch_taken (hnames : Resolved scope.symbols (usedNames condition.terms))
    (hcondition : condition.eval callees scope store.frame store.memory = (Vm.truth true, memory))
    (htarget : Vm.target? (ifTrue (.ofNat i)) code = some (.label (ifTrue (.ofNat i)) :: inner)) :
    Reaches callees code
      ⟨condition.code scope ++ (Compile.branch (.ofNat i) ++ inner), stack, store⟩ [true]
      ⟨inner, stack, { store with memory }⟩ := by
  have h : Reaches callees code _ [] _ :=
    condition.reaches hnames (Compile.branch (.ofNat i) ++ inner) stack store
  rw [hcondition] at h
  exact h.seq ((Reaches.jump (show Vm.truth true ≠ 0 by decide) htarget).trans .label)

/-- An `if` passes over its first block. -/
theorem reaches_branch_skipped (hnames : Resolved scope.symbols (usedNames condition.terms))
    (hcondition : condition.eval callees scope store.frame store.memory = (Vm.truth false, memory))
    (htarget : Vm.target? (ifFalse (.ofNat i)) code =
      some (.label (ifFalse (.ofNat i)) :: target)) :
    Reaches callees code
      ⟨condition.code scope ++ (Compile.branch (.ofNat i) ++ inner), stack, store⟩ [false]
      ⟨target, stack, { store with memory }⟩ := by
  have h : Reaches callees code _ [] _ :=
    condition.reaches hnames (Compile.branch (.ofNat i) ++ inner) stack store
  rw [hcondition] at h
  exact h.seq (Reaches.stay.trans ((Reaches.goto htarget).trans .label))

/-- A `while` goes on. -/
theorem reaches_loop_again (hnames : Resolved scope.symbols (usedNames condition.terms))
    (hcondition :
      condition.eval callees scope store.frame store.memory = (Vm.truth true, memory)) :
    Reaches callees code
      ⟨condition.code scope ++ (Compile.leaveLoop (.ofNat w) ++ inner), stack, store⟩ [false]
      ⟨inner, stack, { store with memory }⟩ := by
  have h : Reaches callees code _ [] _ :=
    condition.reaches hnames (Compile.leaveLoop (.ofNat w) ++ inner) stack store
  rw [hcondition] at h
  have hnot : Reaches callees code
      ⟨Compile.leaveLoop (.ofNat w) ++ inner, Vm.truth true :: stack, { store with memory }⟩ []
      ⟨.ifGoto (whileEnd (.ofNat w)) :: inner, 0 :: stack, { store with memory }⟩ :=
    .stack_only fun _ _ => rfl
  exact h.seq (hnot.seq .stay)

/-- A `while` ends. -/
theorem reaches_loop_ends (hnames : Resolved scope.symbols (usedNames condition.terms))
    (hcondition : condition.eval callees scope store.frame store.memory = (Vm.truth false, memory))
    (htarget : Vm.target? (whileEnd (.ofNat w)) code =
      some (.label (whileEnd (.ofNat w)) :: target)) :
    Reaches callees code
      ⟨condition.code scope ++ (Compile.leaveLoop (.ofNat w) ++ inner), stack, store⟩ [true]
      ⟨target, stack, { store with memory }⟩ := by
  have h : Reaches callees code _ [] _ :=
    condition.reaches hnames (Compile.leaveLoop (.ofNat w) ++ inner) stack store
  rw [hcondition] at h
  have hnot : Reaches callees code
      ⟨Compile.leaveLoop (.ofNat w) ++ inner, Vm.truth false :: stack, { store with memory }⟩ []
      ⟨.ifGoto (whileEnd (.ofNat w)) :: inner, -1 :: stack, { store with memory }⟩ :=
    .stack_only fun _ _ => rfl
  exact h.seq (hnot.seq ((Reaches.jump (by decide) htarget).trans .label))

end

/-! ## The code does what the statements do -/

section

variable (callees : Callees) (scope : Scope) (code : List Command)

/-- Wherever the code of a statement stands, it goes from one store to another with decisions, and
ends as the statement does. -/
def Statement.Simulated (s : Statement) (store : Store) (ds : List Decision) (o : Outcome)
    (store' : Store) : Prop :=
  ∀ i w before rest stack, Resolved scope.symbols (s.targets ++ usedNames s.terms) →
    code = before ++ (s.code scope i w ++ rest) →
    Ends callees code ⟨s.code scope i w ++ rest, stack, store⟩ (ds.map (·.jumps)) o rest stack
      store'

def Statements.Simulated (body : Statements) (store : Store) (ds : List Decision) (o : Outcome)
    (store' : Store) : Prop :=
  ∀ i w before rest stack, Resolved scope.symbols body.names →
    code = before ++ (body.code scope i w ++ rest) →
    Ends callees code ⟨body.code scope i w ++ rest, stack, store⟩ (ds.map (·.jumps)) o rest stack
      store'

end

theorem target_at {name : String} (before : List Command) (hlabels : (Vm.labels code).Nodup)
    (hcode : code = before ++ (.label name :: rest)) :
    Vm.target? name code = some (.label name :: rest) := by
  subst hcode
  exact Vm.target?_of_nodup hlabels

theorem simulated_letVar (name : String) (value : Expression) (store : Store) :
    (Statement.letVar name value).Simulated callees scope code store [] .finished
      (scope.put name (value.eval callees scope store.frame store.memory).1
        { store with memory := (value.eval callees scope store.frame store.memory).2 }) := by
  intro i w before rest stack hnames hcode
  simp only [Statement.targets, Statement.terms, List.singleton_append, resolved_cons] at hnames
  rw [Statement.code, List.append_assoc]
  exact .of_reaches ((value.reaches hnames.2 _ stack store).seq (reaches_assign hnames.1 _ _))

theorem simulated_letElement (array : String) (index value : Expression) (store : Store)
    {i v : Word} {memory memory' : Vm.Memory}
    (hindex : index.eval callees scope store.frame store.memory = (i, memory))
    (hvalue : value.eval callees scope store.frame memory = (v, memory')) :
    (Statement.letElement array index value).Simulated callees scope code store [] .finished
      (Store.setHeap { store with memory := memory' } (scope.value array store + i) v) := by
  intro n w before rest stack hnames hcode
  simp only [Statement.targets, Statement.terms, usedNames_append, List.singleton_append,
    resolved_cons, resolved_append] at hnames
  have hshape : (Statement.letElement array index value).code scope n w ++ rest =
      scope.read array ++ (index.code scope ++ (.operation .add ::
        (value.code scope ++ (Compile.storeElement ++ rest)))) := by
    simp [Statement.code, Compile.storeElement]
  have hi : Reaches callees code _ [] _ := index.reaches hnames.2.1
    (.operation .add :: (value.code scope ++ (Compile.storeElement ++ rest)))
    (scope.value array store :: stack) store
  have hv : Reaches callees code _ [] _ := value.reaches hnames.2.2 (Compile.storeElement ++ rest)
    ((scope.value array store + i) :: stack) { store with memory }
  rw [hindex] at hi
  rw [hvalue] at hv
  rw [hshape]
  have hadd : Reaches callees code
      ⟨.operation .add :: (value.code scope ++ (Compile.storeElement ++ rest)),
        i :: scope.value array store :: stack, { store with memory }⟩ []
      ⟨value.code scope ++ (Compile.storeElement ++ rest),
        (scope.value array store + i) :: stack, { store with memory }⟩ :=
    .stack_only fun _ _ => rfl
  exact .of_reaches ((reaches_read hnames.1).seq (hi.seq (hadd.seq
    (hv.seq (reaches_storeElement _ _ _)))))

section

variable {condition : Expression} {body alternative : Statements} {store store' store'' : Store}
  {memory : Vm.Memory} {ds es : List Decision} {o : Outcome}

theorem ifThen_code (i w : Nat) (rest : List Command) :
    (Statement.ifThen condition body).code scope i w ++ rest =
      condition.code scope ++ (Compile.branch (.ofNat i) ++
        (body.code scope (i + 1) w ++ .label (ifFalse (.ofNat i)) :: rest)) := by
  simp [Statement.code, Compile.branch]

theorem simulated_ifTaken
    (hcondition : condition.eval callees scope store.frame store.memory = (Vm.truth true, memory))
    (hbody : body.Simulated callees scope code { store with memory } ds o store')
    (hlabels : (Vm.labels code).Nodup) :
    (Statement.ifThen condition body).Simulated callees scope code store (.branch true :: ds) o
      store' := by
  intro i w before rest stack hnames hcode
  obtain ⟨hn, hb⟩ := resolved_condition hnames
  rw [ifThen_code] at hcode ⊢
  have htarget : Vm.target? (ifTrue (.ofNat i)) code = some (.label (ifTrue (.ofNat i)) ::
      (body.code scope (i + 1) w ++ .label (ifFalse (.ofNat i)) :: rest)) :=
    target_at (before ++ condition.code scope ++
      [.ifGoto (ifTrue (.ofNat i)), .goto (ifFalse (.ofNat i))])
      hlabels (by simp [hcode, Compile.branch])
  have hinner := hbody (i + 1) w (before ++ condition.code scope ++ Compile.branch (.ofNat i))
    (.label (ifFalse (.ofNat i)) :: rest) stack hb (by simp [hcode])
  exact .after (reaches_branch_taken hn hcondition htarget) (hinner.then_reaches .label)

theorem simulated_ifSkipped
    (hcondition : condition.eval callees scope store.frame store.memory = (Vm.truth false, memory))
    (hlabels : (Vm.labels code).Nodup) :
    (Statement.ifThen condition body).Simulated callees scope code store [.branch false] .finished
      { store with memory } := by
  intro i w before rest stack hnames hcode
  obtain ⟨hn, hb⟩ := resolved_condition hnames
  rw [ifThen_code] at hcode ⊢
  have htarget : Vm.target? (ifFalse (.ofNat i)) code =
      some (.label (ifFalse (.ofNat i)) :: rest) :=
    target_at (before ++ condition.code scope ++ Compile.branch (.ofNat i) ++
      body.code scope (i + 1) w)
      hlabels (by simp [hcode])
  exact .of_reaches (reaches_branch_skipped hn hcondition htarget)

theorem ifElse_code (i w : Nat) (rest : List Command) :
    (Statement.ifElse condition body alternative).code scope i w ++ rest =
      condition.code scope ++ (Compile.branch (.ofNat i) ++ (body.code scope (i + 1) w ++
        .goto (ifEnd (.ofNat i)) :: .label (ifFalse (.ofNat i)) ::
          (alternative.code scope (i + 1 + body.ifs) (w + body.whiles) ++
            .label (ifEnd (.ofNat i)) :: rest))) := by
  simp [Statement.code, Compile.branch]

theorem simulated_ifElseTaken
    (hcondition : condition.eval callees scope store.frame store.memory = (Vm.truth true, memory))
    (hbody : body.Simulated callees scope code { store with memory } ds o store')
    (hlabels : (Vm.labels code).Nodup) :
    (Statement.ifElse condition body alternative).Simulated callees scope code store
      (.branch true :: ds) o store' := by
  intro i w before rest stack hnames hcode
  obtain ⟨hn, hb, -⟩ := resolved_conditions hnames
  rw [ifElse_code] at hcode ⊢
  have htarget := target_at (before ++ condition.code scope ++
    [.ifGoto (ifTrue (.ofNat i)), .goto (ifFalse (.ofNat i))]) hlabels
    (by simpa [Compile.branch] using hcode)
  have hend := target_at (before ++ condition.code scope ++ Compile.branch (.ofNat i) ++
    body.code scope (i + 1) w ++ [Command.goto (ifEnd (.ofNat i)), .label (ifFalse (.ofNat i))] ++
    alternative.code scope (i + 1 + body.ifs) (w + body.whiles)) hlabels (by simpa using hcode)
  have hinner := hbody (i + 1) w (before ++ condition.code scope ++ Compile.branch (.ofNat i)) _
    stack hb
    (by simpa using hcode)
  exact .after (reaches_branch_taken hn hcondition htarget)
    (hinner.then_reaches ((Reaches.goto hend).seq .label))

theorem simulated_ifElseSkipped
    (hcondition : condition.eval callees scope store.frame store.memory = (Vm.truth false, memory))
    (halternative : alternative.Simulated callees scope code { store with memory } ds o store')
    (hlabels : (Vm.labels code).Nodup) :
    (Statement.ifElse condition body alternative).Simulated callees scope code store
      (.branch false :: ds) o store' := by
  intro i w before rest stack hnames hcode
  obtain ⟨hn, -, ha⟩ := resolved_conditions hnames
  rw [ifElse_code] at hcode ⊢
  have htarget := target_at (before ++ condition.code scope ++ Compile.branch (.ofNat i) ++
    body.code scope (i + 1) w ++ [Command.goto (ifEnd (.ofNat i))]) hlabels (by simpa using hcode)
  have hinner := halternative (i + 1 + body.ifs) (w + body.whiles) (before ++
    condition.code scope ++ Compile.branch (.ofNat i) ++ body.code scope (i + 1) w ++
    [Command.goto (ifEnd (.ofNat i)), .label (ifFalse (.ofNat i))])
    (.label (ifEnd (.ofNat i)) :: rest) stack ha
    (by simpa using hcode)
  exact .after (reaches_branch_skipped hn hcondition htarget) (hinner.then_reaches .label)

theorem whileLoop_code (i w : Nat) (rest : List Command) :
    (Statement.whileLoop condition body).code scope i w ++ rest =
      .label (whileStart (.ofNat w)) :: (condition.code scope ++ (Compile.leaveLoop (.ofNat w) ++
        (body.code scope i (w + 1) ++
          .goto (whileStart (.ofNat w)) :: .label (whileEnd (.ofNat w)) :: rest))) := by
  simp [Statement.code, Compile.leaveLoop]

theorem simulated_whileEnds
    (hcondition : condition.eval callees scope store.frame store.memory = (Vm.truth false, memory))
    (hlabels : (Vm.labels code).Nodup) :
    (Statement.whileLoop condition body).Simulated callees scope code store [.loop false] .finished
      { store with memory } := by
  intro i w before rest stack hnames hcode
  obtain ⟨hn, hb⟩ := resolved_condition hnames
  rw [whileLoop_code] at hcode ⊢
  have htarget := target_at (before ++ [Command.label (whileStart (.ofNat w))] ++
    condition.code scope ++ Compile.leaveLoop (.ofNat w) ++ body.code scope i (w + 1) ++
    [Command.goto (whileStart (.ofNat w))]) hlabels
    (by simpa using hcode)
  exact .of_reaches (Reaches.label.seq (reaches_loop_ends hn hcondition htarget))

/-- A `while` that goes on runs its body up to the jump back. -/
theorem ends_body (hcondition :
      condition.eval callees scope store.frame store.memory = (Vm.truth true, memory))
    (hbody : body.Simulated callees scope code { store with memory } ds o store') (i w : Nat)
    (before rest stack)
    (hnames : Resolved scope.symbols (body.targets ++ usedNames (condition.terms ++ body.terms)))
    (hcode : code = before ++ ((Statement.whileLoop condition body).code scope i w ++ rest)) :
    Ends callees code
      ⟨(Statement.whileLoop condition body).code scope i w ++ rest, stack, store⟩
      (false :: ds.map (·.jumps)) o
      (.goto (whileStart (.ofNat w)) :: .label (whileEnd (.ofNat w)) :: rest) stack
      store' := by
  obtain ⟨hn, hb⟩ := resolved_condition hnames
  rw [whileLoop_code] at hcode ⊢
  have hinner := hbody i (w + 1) (before ++ [Command.label (whileStart (.ofNat w))] ++
    condition.code scope ++ Compile.leaveLoop (.ofNat w)) _ stack hb (by simpa using hcode)
  exact .after (Reaches.label.seq (reaches_loop_again hn hcondition)) hinner

theorem simulated_whileAgain
    (hcondition : condition.eval callees scope store.frame store.memory = (Vm.truth true, memory))
    (hbody : body.Simulated callees scope code { store with memory } ds .finished store')
    (hloop : (Statement.whileLoop condition body).Simulated callees scope code store' es o store'')
    (hlabels : (Vm.labels code).Nodup) :
    (Statement.whileLoop condition body).Simulated callees scope code store
      (.loop true :: ds ++ es) o store'' := by
  intro i w before rest stack hnames hcode
  -- the jump back arrives where the loop began, so the rest of it is run from there
  have hback := target_at before hlabels (whileLoop_code i w rest ▸ hcode)
  have hfirst := ends_body hcondition hbody i w before rest stack hnames hcode
  have hagain := hloop i w before rest stack hnames hcode
  rw [whileLoop_code] at hagain
  simpa [Decision.jumps] using hfirst.trans (.after (Reaches.goto hback) hagain)

theorem simulated_whileReturns {v : Word}
    (hcondition : condition.eval callees scope store.frame store.memory = (Vm.truth true, memory))
    (hbody : body.Simulated callees scope code { store with memory } ds (.returned v) store') :
    (Statement.whileLoop condition body).Simulated callees scope code store (.loop true :: ds)
      (.returned v) store' := by
  intro i w before rest stack hnames hcode
  obtain ⟨q, hq, hreaches⟩ := ends_body hcondition hbody i w before rest stack hnames hcode
  exact ⟨q, hq, hreaches⟩

end

theorem simulated_doCall (call : Call) (store : Store) :
    (Statement.doCall call).Simulated callees scope code store [] .finished
      { store with memory := (call.eval callees scope store.frame store.memory).2 } := by
  intro i w before rest stack hnames hcode
  rw [Statement.code, List.append_assoc]
  have hpop (value : Word) (store : Store) : Reaches callees code
      ⟨.pop .temp 0 :: rest, value :: stack, store⟩ [] ⟨rest, stack, store⟩ :=
    .perform fun that temp => ⟨that, value, rfl⟩
  exact .of_reaches ((call.reaches hnames _ stack store).seq (hpop _ _))

theorem simulated_returnNothing (store : Store) :
    Statement.returnNothing.Simulated callees scope code store [] (.returned 0) store := by
  intro i w before rest stack hnames hcode
  exact ⟨⟨.return :: rest, 0 :: stack, store⟩, ⟨rest, rfl⟩, .stack_only fun _ _ => rfl⟩

theorem simulated_returnValue (value : Expression) (store : Store) :
    (Statement.returnValue value).Simulated callees scope code store []
      (.returned (value.eval callees scope store.frame store.memory).1)
      { store with memory := (value.eval callees scope store.frame store.memory).2 } := by
  intro i w before rest stack hnames hcode
  rw [Statement.code, List.append_assoc]
  exact ⟨_, ⟨rest, rfl⟩, value.reaches hnames _ stack store⟩

theorem simulated_next {first : Statement} {rest : Statements} {store store' store'' : Store}
    {ds es : List Decision} {o : Outcome}
    (hfirst : first.Simulated callees scope code store ds .finished store')
    (hrest : rest.Simulated callees scope code store' es o store'') :
    (Statements.cons first rest).Simulated callees scope code store (ds ++ es) o store'' := by
  intro i w before after stack hnames hcode
  obtain ⟨hf, hr⟩ := resolved_cons_statements hnames
  rw [Statements.code, List.append_assoc] at hcode ⊢
  have h := (hfirst i w before _ stack hf hcode).trans <|
    hrest (i + first.ifs) (w + first.whiles) (before ++ first.code scope i w) after stack hr
      (by simpa using hcode)
  rwa [← List.map_append] at h

theorem simulated_stop {first : Statement} {rest : Statements} {store store' : Store}
    {ds : List Decision} {v : Word}
    (hfirst : first.Simulated callees scope code store ds (.returned v) store') :
    (Statements.cons first rest).Simulated callees scope code store ds (.returned v) store' := by
  intro i w before after stack hnames hcode
  obtain ⟨hf, -⟩ := resolved_cons_statements hnames
  rw [Statements.code, List.append_assoc] at hcode ⊢
  exact hfirst i w before _ stack hf hcode

mutual

/-- The code of a statement does what the statement does. -/
theorem Statement.simulates {s : Statement} {store store' : Store} {ds : List Decision}
    {o : Outcome} (h : s.Executes callees scope store ds o store')
    (hlabels : (Vm.labels code).Nodup) : s.Simulated callees scope code store ds o store' :=
  match h with
  | .letVar name value store => simulated_letVar name value store
  | .letElement array index value store hindex hvalue =>
    simulated_letElement array index value store hindex hvalue
  | .ifTaken hcondition hbody =>
    simulated_ifTaken hcondition (Statements.simulates hbody hlabels) hlabels
  | .ifSkipped hcondition => simulated_ifSkipped hcondition hlabels
  | .ifElseTaken hcondition hbody =>
    simulated_ifElseTaken hcondition (Statements.simulates hbody hlabels) hlabels
  | .ifElseSkipped hcondition halternative =>
    simulated_ifElseSkipped hcondition (Statements.simulates halternative hlabels) hlabels
  | .whileEnds hcondition => simulated_whileEnds hcondition hlabels
  | .whileAgain hcondition hbody hloop =>
    simulated_whileAgain hcondition (Statements.simulates hbody hlabels)
      (Statement.simulates hloop hlabels) hlabels
  | .whileReturns hcondition hbody =>
    simulated_whileReturns hcondition (Statements.simulates hbody hlabels)
  | .doCall call store => simulated_doCall call store
  | .returnNothing store => simulated_returnNothing store
  | .returnValue value store => simulated_returnValue value store

/-- The code of statements does what the statements do. -/
theorem Statements.simulates {body : Statements} {store store' : Store} {ds : List Decision}
    {o : Outcome} (h : body.Executes callees scope store ds o store')
    (hlabels : (Vm.labels code).Nodup) : body.Simulated callees scope code store ds o store' :=
  match h with
  | .nil _ => fun _ _ _ _ _ _ _ => .of_reaches (.refl _)
  | .next hfirst hrest =>
    simulated_next (Statement.simulates hfirst hlabels) (Statements.simulates hrest hlabels)
  | .stop hfirst => simulated_stop (Statement.simulates hfirst hlabels)

end

end JackCompiler.Syntax
