import JackCompiler.Proofs.Machine
import JackCompiler.Proofs.Translation
/-!
# What expressions mean

The value of an expression and the memory after it, by recursion on its tree: terms from left to
right, operators grouped from the right, and calls answered as the machine's are. The code of an
expression computes just that on top of the stack (`Expression.reaches`).
-/

namespace JackCompiler

open Vm (Word Memory Frame Store Callees Command Reaches)

/-! ## Variables -/

namespace Storage

/-- The value of the variable with a number. -/
def value (storage : Storage) (index : Nat) (store : Store) : Word :=
  match storage with
  | .static => store.memory.statics index
  | .field => store.memory.heap (store.frame.this + .ofNat 16 index)
  | .argument => store.frame.arguments index
  | .local => store.frame.locals index

/-- Another value for the variable with a number. -/
def assign (storage : Storage) (index : Nat) (value : Word) (store : Store) : Store :=
  match storage with
  | .static => store.setStatic index value
  | .field => store.setHeap (store.frame.this + .ofNat 16 index) value
  | .argument => store.setArgument index value
  | .local => store.setLocal index value

end Storage

namespace Syntax

namespace Scope

/-- The value of the variable a name means. -/
def value (scope : Scope) (name : String) (store : Store) : Word :=
  ((scope.lookup? name).map fun slot => slot.storage.value slot.index store).getD 0

/-- Another value for the variable a name means. -/
def put (scope : Scope) (name : String) (value : Word) (store : Store) : Store :=
  ((scope.lookup? name).map fun slot => slot.storage.assign slot.index value store).getD store

end Scope

/-! ## Values -/

section

variable (callees : Callees)

def BinaryOperator.apply (op : BinaryOperator) (x y : Word) (memory : Memory) : Word × Memory :=
  match op with
  | add => (x + y, memory)
  | subtract => (x - y, memory)
  | multiply => callees.answer "Math.multiply" [x, y] memory
  | divide => callees.answer "Math.divide" [x, y] memory
  | and => (x &&& y, memory)
  | or => (x ||| y, memory)
  | less => (Vm.truth (x.slt y), memory)
  | greater => (Vm.truth (y.slt x), memory)
  | equal => (Vm.truth (x = y), memory)

def UnaryOperator.apply (op : UnaryOperator) (x : Word) : Word :=
  match op with
  | negate => -x
  | complement => ~~~x

def Constant.value (constant : Constant) (frame : Frame) : Word :=
  match constant with
  | true => -1
  | false => 0
  | null => 0
  | this => frame.this

/-- A new string object, to which each of the characters is appended. -/
def stringValue (contents : String) (memory : Memory) : Word × Memory :=
  contents.toList.foldl
    (fun string c => callees.answer "String.appendChar" [string.1, .ofNat 16 c.toNat] string.2)
    (callees.answer "String.new" [.ofNat 16 contents.length] memory)

variable (scope : Scope) (frame : Frame)

mutual

/-- The value of an expression and the memory after it. -/
def Expression.eval : Expression → Memory → Word × Memory
  | .mk first rest, memory =>
    let x := first.eval memory
    rest.eval x.1 x.2

/-- The value of a chain of operators behind a value: `x op y ...` is `x op (y ...)`. -/
def Operations.eval : Operations → Word → Memory → Word × Memory
  | .nil, x, memory => (x, memory)
  | .cons op operand rest, x, memory =>
    let y := operand.eval memory
    let z := rest.eval y.1 y.2
    op.apply callees x z.1 z.2

def Term.eval : Term → Memory → Word × Memory
  | .integer digits, memory => (.ofNat 16 (decimalValue digits.toList), memory)
  | .string contents, memory => stringValue callees contents memory
  | .constant constant, memory => (constant.value frame, memory)
  | .var name, memory => (scope.value name ⟨frame, memory⟩, memory)
  | .element array index, memory =>
    let i := index.eval memory
    (i.2.heap (scope.value array ⟨frame, memory⟩ + i.1), i.2)
  | .call call, memory => call.eval memory
  | .group inner, memory => inner.eval memory
  | .unary op operand, memory =>
    let x := operand.eval memory
    (op.apply x.1, x.2)

/-- What a call answers. A method is given its object as the first argument. -/
def Call.eval : Call → Memory → Word × Memory
  | .own name arguments, memory =>
    let xs := arguments.eval memory
    callees.answer (scope.className ++ "." ++ name) (frame.this :: xs.1) xs.2
  | .dotted receiver name arguments, memory =>
    let xs := arguments.eval memory
    match scope.lookup? receiver with
    | some declared =>
      callees.answer (declared.type ++ "." ++ name)
        (scope.value receiver ⟨frame, memory⟩ :: xs.1) xs.2
    | none => callees.answer (receiver ++ "." ++ name) xs.1 xs.2

/-- The values of arguments, from left to right. -/
def Arguments.eval : Arguments → Memory → List Word × Memory
  | .nil, memory => ([], memory)
  | .cons first rest, memory =>
    let x := first.eval memory
    let xs := rest.eval x.2
    (x.1 :: xs.1, xs.2)

end

end

/-! ## The code of a value computes it -/

section

variable {callees : Callees} {scope : Scope} {code rest : List Command} {stack : List Word}
  {store : Store}

/-- The push of a variable. -/
theorem reaches_push (slot : Slot) :
    Reaches callees code ⟨slot.push :: rest, stack, store⟩ []
      ⟨rest, slot.storage.value slot.index store :: stack, store⟩ := by
  refine .stack_only fun that temp => ?_
  obtain ⟨name, type, storage, index⟩ := slot
  cases storage <;> rfl

theorem reaches_read {name : String} (h : (scope.symbols.lookup? name).isSome) :
    Reaches callees code ⟨scope.read name ++ rest, stack, store⟩ []
      ⟨rest, scope.value name store :: stack, store⟩ := by
  obtain ⟨slot, hslot⟩ := Scope.exists_slot h
  simp only [Scope.read, Scope.value, hslot]
  exact reaches_push slot

theorem BinaryOperator.reaches (op : BinaryOperator) (x y : Word) :
    Reaches callees code ⟨op.command :: rest, y :: x :: stack, store⟩ []
      ⟨rest, (op.apply callees x y store.memory).1 :: stack,
        { store with memory := (op.apply callees x y store.memory).2 }⟩ := by
  cases op with
  | multiply => exact Reaches.call [x, y]
  | divide => exact Reaches.call [x, y]
  | _ => exact .stack_only fun _ _ => rfl

theorem UnaryOperator.reaches (op : UnaryOperator) (x : Word) :
    Reaches callees code ⟨op.command :: rest, x :: stack, store⟩ []
      ⟨rest, op.apply x :: stack, store⟩ := by
  cases op <;> exact .stack_only fun _ _ => rfl

theorem Constant.reaches (constant : Constant) :
    Reaches callees code ⟨constant.code ++ rest, stack, store⟩ []
      ⟨rest, constant.value store.frame :: stack, store⟩ := by
  cases constant with
  | true =>
    have hone : Reaches callees code ⟨Constant.true.code ++ rest, stack, store⟩ []
        ⟨.operation .neg :: rest, 1 :: stack, store⟩ := .stack_only fun _ _ => rfl
    exact hone.seq (.stack_only fun _ _ => rfl)
  | _ => exact .stack_only fun _ _ => rfl

theorem reaches_characters (characters : List Char) (string : Word × Memory) :
    Reaches callees code
      ⟨characters.flatMap (fun c =>
          [Command.push .constant c.toNat, .call "String.appendChar" 2]) ++ rest,
        string.1 :: stack, { store with memory := string.2 }⟩ []
      ⟨rest, (characters.foldl (fun string c => callees.answer "String.appendChar"
          [string.1, .ofNat 16 c.toNat] string.2) string).1 :: stack,
        { store with memory := (characters.foldl (fun string c => callees.answer
          "String.appendChar" [string.1, .ofNat 16 c.toNat] string.2) string).2 }⟩ := by
  induction characters generalizing string with
  | nil => exact .refl _
  | cons c characters ih =>
    have hpush : Reaches callees code
        ⟨.push .constant c.toNat :: .call "String.appendChar" 2 ::
          (characters.flatMap (fun c =>
            [Command.push .constant c.toNat, .call "String.appendChar" 2]) ++ rest),
          string.1 :: stack, { store with memory := string.2 }⟩ []
        ⟨.call "String.appendChar" 2 :: (characters.flatMap (fun c =>
            [Command.push .constant c.toNat, .call "String.appendChar" 2]) ++ rest),
          .ofNat 16 c.toNat :: string.1 :: stack, { store with memory := string.2 }⟩ :=
      .stack_only fun _ _ => rfl
    exact hpush.seq ((Reaches.call [string.1, .ofNat 16 c.toNat]).seq (ih _))

theorem reaches_string (contents : String) :
    Reaches callees code ⟨stringCode contents ++ rest, stack, store⟩ []
      ⟨rest, (stringValue callees contents store.memory).1 :: stack,
        { store with memory := (stringValue callees contents store.memory).2 }⟩ := by
  have hlength : Reaches callees code ⟨stringCode contents ++ rest, stack, store⟩ []
      ⟨.call "String.new" 1 :: (contents.toList.flatMap (fun c =>
          [Command.push .constant c.toNat, .call "String.appendChar" 2]) ++ rest),
        .ofNat 16 contents.length :: stack, store⟩ := .stack_only fun _ _ => rfl
  exact hlength.seq ((Reaches.call [.ofNat 16 contents.length]).seq (reaches_characters _ _))

/-- Reading an array element, with the array and the index on the stack. -/
theorem reaches_readElement (array index : Word) :
    Reaches callees code
      ⟨.operation .add :: .pop .pointer 1 :: .push .that 0 :: rest, index :: array :: stack, store⟩
      [] ⟨rest, store.memory.heap (array + index) :: stack, store⟩ := by
  intro that temp
  have hread : Vm.perform callees (.push .that 0) ⟨stack, store, array + index, temp⟩ =
      some ⟨store.memory.heap (array + index) :: stack, store, array + index, temp⟩ := by
    simp [Vm.perform, Vm.Machine.read]
  refine ⟨array + index, temp 0, ?_⟩
  rw [Function.update_eq_self]
  exact .perform rfl (.perform rfl (.perform hread (.refl _)))

theorem Arguments.eval_length (arguments : Arguments) (frame : Frame) (memory : Memory) :
    (arguments.eval callees scope frame memory).1.length = arguments.length := by
  cases arguments with
  | nil => rfl
  | cons first rest =>
    rw [Arguments.eval, List.length_cons, Arguments.eval_length rest, Arguments.length]

/-- A call of a method, with its object and its arguments on the stack. -/
theorem reaches_method (arguments : Arguments) (this : Word) {name : String} {before : Store} :
    Reaches callees code ⟨.call name (arguments.length + 1) :: rest,
        (arguments.eval callees scope before.frame before.memory).1.reverse ++ this :: stack,
        store⟩ []
      ⟨rest, (callees.answer name (this :: (arguments.eval callees scope before.frame
          before.memory).1) store.memory).1 :: stack,
        { store with memory := (callees.answer name (this :: (arguments.eval callees scope
          before.frame before.memory).1) store.memory).2 }⟩ := by
  have h := @Reaches.call callees code rest stack store name
    (this :: (arguments.eval callees scope before.frame before.memory).1)
  rwa [List.length_cons, arguments.eval_length, List.reverse_cons, List.append_assoc] at h

mutual

/-- The code of an expression puts its value on top of the stack. -/
theorem Expression.reaches (e : Expression) (h : Resolved scope.symbols (usedNames e.terms))
    (rest : List Command) (stack : List Word) (store : Store) :
    Reaches callees code ⟨e.code scope ++ rest, stack, store⟩ []
      ⟨rest, (e.eval callees scope store.frame store.memory).1 :: stack,
        { store with memory := (e.eval callees scope store.frame store.memory).2 }⟩ := by
  cases e with
  | mk first operations =>
    simp only [Expression.terms, usedNames_append, resolved_append] at h
    have hfirst := Term.reaches first h.1 (operations.code scope ++ rest) stack store
    have hrest := Operations.reaches operations h.2 rest
    rw [Expression.code, List.append_assoc]
    exact hfirst.seq (hrest _ stack { store with memory := _ })

theorem Operations.reaches (operations : Operations)
    (h : Resolved scope.symbols (usedNames operations.terms)) (rest : List Command) (x : Word)
    (stack : List Word) (store : Store) :
    Reaches callees code ⟨operations.code scope ++ rest, x :: stack, store⟩ []
      ⟨rest, (operations.eval callees scope store.frame x store.memory).1 :: stack,
        { store with memory := (operations.eval callees scope store.frame x store.memory).2 }⟩ := by
  cases operations with
  | nil => exact .refl _
  | cons op operand operations =>
    simp only [Operations.terms, usedNames_append, resolved_append] at h
    have hoperand := Term.reaches operand h.1 (operations.code scope ++ (op.command :: rest))
      (x :: stack) store
    have hrest := Operations.reaches operations h.2 (op.command :: rest)
    rw [Operations.code, List.append_assoc, List.append_assoc]
    exact hoperand.seq ((hrest _ (x :: stack) { store with memory := _ }).seq (op.reaches x _))

theorem Term.reaches (t : Term) (h : Resolved scope.symbols (usedNames t.terms))
    (rest : List Command) (stack : List Word) (store : Store) :
    Reaches callees code ⟨t.code scope ++ rest, stack, store⟩ []
      ⟨rest, (t.eval callees scope store.frame store.memory).1 :: stack,
        { store with memory := (t.eval callees scope store.frame store.memory).2 }⟩ := by
  cases t with
  | integer digits => exact .stack_only fun _ _ => rfl
  | string contents => exact reaches_string contents
  | constant value => exact value.reaches
  | var name =>
    simp only [Term.terms, usedNames_cons, Term.variable?, Option.toList_some, usedNames_nil,
      List.append_nil, resolved_cons] at h
    exact reaches_read h.1
  | element array index =>
    simp only [Term.terms, usedNames_cons, Term.variable?, Option.toList_some,
      List.singleton_append, resolved_cons] at h
    have hindex := Expression.reaches index h.2
      ([Command.operation .add, .pop .pointer 1, .push .that 0] ++ rest)
      (scope.value array store :: stack) store
    rw [Term.code, List.append_assoc, List.append_assoc]
    exact (reaches_read h.1).seq (hindex.seq (reaches_readElement _ _))
  | call call => exact Call.reaches call h rest stack store
  | group inner => exact Expression.reaches inner h rest stack store
  | unary op operand =>
    rw [Term.code, List.append_assoc]
    exact (Term.reaches operand h _ stack store).seq (op.reaches _)

theorem Call.reaches (call : Call) (h : Resolved scope.symbols (usedNames call.terms))
    (rest : List Command) (stack : List Word) (store : Store) :
    Reaches callees code ⟨call.code scope ++ rest, stack, store⟩ []
      ⟨rest, (call.eval callees scope store.frame store.memory).1 :: stack,
        { store with memory := (call.eval callees scope store.frame store.memory).2 }⟩ := by
  cases call with
  | own name arguments =>
    have hthis : Reaches callees code
        ⟨(Call.own name arguments).code scope ++ rest, stack, store⟩ []
        ⟨arguments.code scope ++ ([.call (scope.className ++ "." ++ name) (arguments.length + 1)] ++
          rest), store.frame.this :: stack, store⟩ := by
      rw [Call.code, List.append_assoc]
      exact .stack_only fun _ _ => rfl
    exact hthis.seq ((Arguments.reaches arguments h _ _ store).seq
      (reaches_method arguments store.frame.this))
  | dotted receiver name arguments =>
    cases hd : scope.lookup? receiver with
    | none =>
      have hcall := @Reaches.call callees code rest stack
        { store with memory := (arguments.eval callees scope store.frame store.memory).2 }
        (receiver ++ "." ++ name) (arguments.eval callees scope store.frame store.memory).1
      rw [Arguments.eval_length] at hcall
      simp only [Call.code, Call.eval, hd]
      rw [List.append_assoc]
      exact (Arguments.reaches arguments h _ stack store).seq hcall
    | some slot =>
      have hreceiver : scope.value receiver store =
          slot.storage.value slot.index store := by
        simp [Scope.value, hd]
      simp only [Call.code, Call.eval, hd]
      rw [List.append_assoc, hreceiver]
      exact (reaches_push slot).seq ((Arguments.reaches arguments h _ _ store).seq
        (reaches_method arguments _))

theorem Arguments.reaches (arguments : Arguments)
    (h : Resolved scope.symbols (usedNames arguments.terms)) (rest : List Command)
    (stack : List Word) (store : Store) :
    Reaches callees code ⟨arguments.code scope ++ rest, stack, store⟩ []
      ⟨rest, (arguments.eval callees scope store.frame store.memory).1.reverse ++ stack,
        { store with memory :=
          (arguments.eval callees scope store.frame store.memory).2 }⟩ := by
  cases arguments with
  | nil => exact .refl _
  | cons first arguments =>
    simp only [Arguments.terms, usedNames_append, resolved_append] at h
    have hfirst := Expression.reaches first h.1 (arguments.code scope ++ rest) stack store
    have hrest := Arguments.reaches arguments h.2 rest
    rw [Arguments.code, List.append_assoc, Arguments.eval, List.reverse_cons, List.append_assoc]
    exact hfirst.seq (hrest (_ :: stack) { store with memory := _ })

end

end

end Syntax

end JackCompiler
