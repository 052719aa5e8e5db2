import JackCompiler.Proofs.Acceptance
import JackCompiler.Proofs.Execution
import JackCompiler.Proofs.Spelling
import JackCompiler.Proofs.Subexpressions
/-!
# Compiled code does what its source says

The code of every expression and of every subroutine body of a source that compiles, run in the
function it is part of. The counts of the subroutine have to fit in 16 bits: of 65537 locals the
last has the place of the first, and code that uses both does something else
(`wide_expression_differs`, `wide_body_differs`).
-/

namespace JackCompiler

open Syntax
open Vm (Word Callees Machine Runs)

/-! ## A function with many locals -/

namespace Syntax

/-- What `wideFunction` returns: the last of its locals. -/
def wideResult (last : Nat) : Expression := .mk (.var (crowdedName last)) .nil

/-- A function that stores `2` in the last of its locals and then `1` in the first. -/
def wideFunction (last : Nat) : Subroutine where
  kind := .function
  returnType := some .int
  name := "f"
  parameters := []
  locals := [crowdedGroup (last + 1)]
  body :=
    .cons (.letVar (crowdedName last) (.mk (.integer "2") .nil))
      (.cons (.letVar "x" (.mk (.integer "1") .nil)) (.cons (.returnValue (wideResult last)) .nil))

def wideClass (last : Nat) : Class where
  name := "A"
  groups := []
  subroutines := [wideFunction last]

def wideScope (last : Nat) : Scope := (wideClass last).scope (wideFunction last)

variable {last : Nat}

theorem wide_declared : (wideFunction last).declared =
    (crowdedNames (last + 1)).map fun name => ⟨name, "int", .local⟩ := by
  simp [wideFunction, Subroutine.declared, crowdedGroup_declared]

theorem wide_first : (wideScope last).lookup? "x" = some ⟨"x", "int", .local, 0⟩ := by
  have hfind := @find?_numbered [] (((List.range (last + 1)).map crowdedName).map
    fun name => ⟨name, "int", .local⟩) ⟨"x", "int", .local⟩ List.not_mem_nil
  rw [Scope.lookup?, wideScope, Class.scope, wide_declared]
  exact congrArg (Option.or · _) hfind

theorem wide_last : (wideScope last).lookup? (crowdedName last) =
    some ⟨crowdedName last, "int", .local, last + 1⟩ := by
  let earlier : List Variable := (crowdedNames last).map fun name => ⟨name, "int", .local⟩
  have hnew : crowdedName last ∉ earlier.map (·.name) := by
    have hnodup := crowdedNames_nodup (last + 1)
    rw [crowdedNames, List.range_succ, List.map_append, ← List.cons_append,
      List.nodup_append] at hnodup
    rw [List.map_map, Function.comp_def, List.map_id']
    exact fun h => hnodup.2.2 _ h _ List.mem_cons_self rfl
  have hcount : earlier.countP (·.storage = .local) = last + 1 := by
    simp [earlier, List.countP_map, Function.comp_def, crowdedNames]
  have hfind := @find?_numbered earlier [] ⟨crowdedName last, "int", .local⟩ hnew
  have hdeclared : (crowdedNames (last + 1)).map (fun name => (⟨name, "int", .local⟩ : Variable)) =
      earlier ++ [⟨crowdedName last, "int", .local⟩] := by
    simp [earlier, crowdedNames, List.range_succ]
  rw [Scope.lookup?, wideScope, Class.scope, wide_declared, hdeclared]
  rw [hcount] at hfind
  exact congrArg (Option.or · _) hfind

/-- The code of the function in 16 bits, where its last local has the place of the first. -/
theorem wide_code : ((wideFunction 65535).body.code (wideScope 65535) 0 0).map (·.wrap) =
    [.push .constant 2, .pop .local 0, .push .constant 1, .pop .local 0, .push .local 0,
      .return] := by
  have hcode : (wideFunction 65535).body.code (wideScope 65535) 0 0 =
      [.push .constant 2, .pop .local 65536, .push .constant 1, .pop .local 0, .push .local 65536,
        .return] := by
    simp only [wideFunction, wideResult, Statements.code, Statement.code, Expression.code,
      Term.code, Operations.code, Scope.assign, Scope.read, wide_first, wide_last]
    rfl
  rw [hcode]
  rfl

theorem wide_accepted : (wideClass last).Named ∧ (wideClass last).Fit := by
  have hfirst := (wideScope last).symbols_lookup? "x"
  have hlast := (wideScope last).symbols_lookup? (crowdedName last)
  rw [wide_first] at hfirst
  rw [wide_last] at hlast
  refine ⟨⟨List.nodup_nil, fun s hs => ?_⟩, fun s hs => ?_⟩ <;>
    obtain rfl := List.mem_singleton.mp hs
  · refine ⟨?fresh, ?resolved⟩
    case fresh =>
      refine (fresh_of_nil _).mpr ?_
      rw [wide_declared, List.map_map, Function.comp_def, List.map_id']
      exact crowdedNames_nodup (last + 1)
    case resolved =>
      have hnames : (wideFunction last).body.names =
          [crowdedName last, "x", crowdedName last] := rfl
      rw [hnames]
      change Resolved (wideScope last).symbols _
      simp [hfirst, hlast]
  · exact allFit_nil

theorem wide_wellFormed (last : Nat) : ∀ lexeme ∈ (wideClass last).lexemes, lexeme.WellFormed := by
  have hclass : (Lexeme.identifier "A").WellFormed :=
    ⟨by simp [IsWord]; decide, fun word => by cases word <;> decide⟩
  have hname : (Lexeme.identifier "f").WellFormed :=
    ⟨by simp [IsWord]; decide, fun word => by cases word <;> decide⟩
  have hfirst : (Lexeme.identifier "x").WellFormed :=
    ⟨by simp [IsWord]; decide, fun word => by cases word <;> decide⟩
  have hone : (Lexeme.integer "1").WellFormed := by simp [Lexeme.WellFormed]; decide
  have htwo : (Lexeme.integer "2").WellFormed := by simp [Lexeme.WellFormed]; decide
  have hsymbol (symbol : Symbol) : (Lexeme.symbol symbol).WellFormed := trivial
  have hkeyword (word : Keyword) : (Lexeme.keyword word).WellFormed := trivial
  simpa [wideClass, wideFunction, wideResult, Class.lexemes, Subroutine.lexemes,
    Subroutine.signatureAndBody, Statements.lexemes, Statement.lexemes, Expression.lexemes,
    Term.lexemes, Operations.lexemes, returnLexeme, TypeName.lexeme, parameterList, localLexemes,
    or_imp, forall_and, hclass, hname, hfirst, hone, htwo, hsymbol, hkeyword,
    crowdedName_wellFormed] using crowdedGroup_wellFormed (last + 1)

def wideSource (last : Nat) : String := spelled (wideClass last).lexemes

theorem lexes_wide (last : Nat) : Lexes (wideSource last) (wideClass last).lexemes :=
  lexes_spelled (wide_wellFormed last)

end Syntax

theorem compile_wide (last : Nat) :
    compile (wideSource last) = .ok ⟨"A", (wideClass last).program⟩ :=
  (compile_of_lexes (lexes_wide last)).mpr ⟨wide_accepted, rfl⟩

theorem wide_written {last : Nat} :
    (wideClass last).written (wideFunction last) ∈ Vm.functions (wideClass last).program := by
  rw [Class.functions_program]
  exact List.mem_map_of_mem List.mem_cons_self

theorem wideResult_eval {callees : Callees} {store : Vm.Store} :
    (wideResult 65535).eval callees (wideScope 65535) store.frame store.memory =
      (store.frame.locals 65536, store.memory) := by
  rw [wideResult, Expression.eval, Term.eval, Operations.eval, Scope.value, wide_last]
  rfl

section

variable {source : String} {compiled : CompiledClass} {c : Syntax.Class} {s : Subroutine}

theorem function_mem (h : compile source = .ok compiled) (hlex : Lexes source c.lexemes)
    (hs : s ∈ c.subroutines) (hnarrow : c.Narrow s) :
    c.function s ∈ Vm.functions compiled.program := by
  obtain ⟨⟨-, hfit⟩, rfl⟩ := (compile_of_lexes hlex).mp h
  rw [Class.functions_program, ← written_of_narrow hlex hfit hs hnarrow]
  exact List.mem_map_of_mem hs

theorem names_resolved (h : compile source = .ok compiled) (hlex : Lexes source c.lexemes)
    (hs : s ∈ c.subroutines) : Resolved (c.scope s).symbols s.body.names := by
  obtain ⟨⟨hnamed, -⟩, -⟩ := (compile_of_lexes hlex).mp h
  exact (hnamed.subroutines s hs).resolved

/-! ## Expressions -/

/-- The code of an expression, which stands in the function of its subroutine in one piece, puts the
value of the expression on top of the stack and leaves the memory as the expression does, if the
counts of the subroutine fit. The rest of the stack and the frame stay as they were; what the run
may change besides is the array pointer and the first word of the scratch segment. -/
theorem expression_runs (h : compile source = .ok compiled) (hlex : Lexes source c.lexemes)
    (hs : s ∈ c.subroutines) (hnarrow : c.Narrow s) {e : Expression}
    (he : e ∈ s.body.expressions) :
    c.function s ∈ Vm.functions compiled.program ∧ e.code (c.scope s) <:+: c.function s ∧
      ∀ (callees : Callees) (rest : List Vm.Command) (m : Machine), ∃ that scratch,
        Runs callees (c.function s) ⟨e.code (c.scope s) ++ rest, m⟩ []
          ⟨rest, {
            stack := (e.eval callees (c.scope s) m.store.frame m.store.memory).1 :: m.stack
            store := { m.store with
              memory := (e.eval callees (c.scope s) m.store.frame m.store.memory).2 }
            that
            temp := Function.update m.temp 0 scratch }⟩ := by
  have hoccurs : e.Occurs (c.scope s) (s.body.code (c.scope s) 0 0) s.body.terms :=
    s.body.occurs 0 0 he
  have hnames : Resolved (c.scope s).symbols (usedNames e.terms) := by
    intro name hname
    obtain ⟨t, ht, hvariable⟩ := List.mem_filterMap.mp hname
    refine names_resolved h hlex hs name (List.mem_append_right _ ?_)
    exact List.mem_filterMap.mpr ⟨t, hoccurs.terms ht, hvariable⟩
  refine ⟨function_mem h hlex hs hnarrow, List.infix_append_of_infix_right hoccurs.code, ?_⟩
  intro callees rest m
  exact e.reaches hnames rest m.stack m.store m.that m.temp

/-- Functions that do nothing. -/
def quietCallees : Callees := ⟨fun _ _ memory => (0, memory), fun _ _ _ scratch => scratch⟩

/-- The machine in a method that is given an object with all fields `5` and the argument `1`. -/
def counterMachine : Machine where
  stack := []
  store := ⟨⟨fun _ => 0, fun _ => 1, 0⟩, fun _ => 5, fun _ => 0⟩
  that := 0
  temp := fun _ => 0

/-- Before the loop, `n + i - 1` is `5 + (0 - 1)`. -/
theorem counterResult_runs :
    compile counterSource = .ok ⟨"Counter", counterClass.code⟩ ∧
      Lexes counterSource counterClass.lexemes ∧ counterMethod ∈ counterClass.subroutines ∧
      counterClass.Narrow counterMethod ∧ counterResult ∈ counterMethod.body.expressions ∧
      ∃ that scratch,
        Runs quietCallees (counterClass.function counterMethod)
          ⟨counterResult.code (counterClass.scope counterMethod) ++ [.return], counterMachine⟩ []
          ⟨[.return], [4], counterMachine.store, that,
            Function.update counterMachine.temp 0 scratch⟩ := by
  have hs : counterMethod ∈ counterClass.subroutines := List.mem_singleton_self _
  have he : counterResult ∈ counterMethod.body.expressions := by
    simp [counterMethod, counterResult, Statements.expressions, Statement.expressions,
      Expression.expressions]
  have hruns := (expression_runs compile_counter lexes_counter hs counter_narrow he).2.2
  exact ⟨compile_counter, lexes_counter, hs, counter_narrow, he,
    hruns quietCallees [.return] counterMachine⟩

/-- The machine with `1` in the first local and `2` in all others. -/
def wideMachine : Machine where
  stack := []
  store := ⟨⟨fun i => if i = 0 then 1 else 2, fun _ => 0, 0⟩, fun _ => 0, fun _ => 0⟩
  that := 0
  temp := fun _ => 0

/-- With 65537 locals, the value of the last is not what the code of the expression pushes. -/
theorem wide_expression_differs :
    compile (wideSource 65535) = .ok ⟨"A", (wideClass 65535).program⟩ ∧
      Lexes (wideSource 65535) (wideClass 65535).lexemes ∧
      wideFunction 65535 ∈ (wideClass 65535).subroutines ∧
      wideResult 65535 ∈ (wideFunction 65535).body.expressions ∧
      (wideClass 65535).written (wideFunction 65535) ∈ Vm.functions (wideClass 65535).program ∧
      ((wideResult 65535).code (wideScope 65535)).map (·.wrap) <:+:
        (wideClass 65535).written (wideFunction 65535) ∧
      ((wideResult 65535).eval quietCallees (wideScope 65535) wideMachine.store.frame
        wideMachine.store.memory).1 = 2 ∧
      ¬∃ q, Runs quietCallees ((wideClass 65535).written (wideFunction 65535))
          ⟨((wideResult 65535).code (wideScope 65535)).map (·.wrap) ++ [.return], wideMachine⟩
          [] q ∧
        q.rest = [.return] ∧ q.machine.stack = [2] := by
  have he : wideResult 65535 ∈ (wideFunction 65535).body.expressions := by
    simp [wideFunction, wideResult, Statements.expressions, Statement.expressions,
      Expression.expressions]
  have hcode : ((wideResult 65535).code (wideScope 65535)).map (·.wrap) = [.push .local 0] := by
    simp only [wideResult, Expression.code, Term.code, Operations.code, Scope.read, wide_last]
    rfl
  refine ⟨compile_wide 65535, lexes_wide 65535, List.mem_cons_self, he, wide_written, ?code,
    ?value, ?runs⟩
  case code =>
    have hoccurs : _ <:+: (wideFunction 65535).body.code (wideScope 65535) 0 0 :=
      ((wideFunction 65535).body.occurs 0 0 he).code
    exact (List.infix_append_of_infix_right hoccurs).map _
  case value =>
    rw [wideResult_eval]
    rfl
  case runs =>
    rintro ⟨⟨rest, m⟩, hruns, rfl, hstack⟩
    rw [hcode] at hruns
    have hone := hruns.halted_unique (.perform rfl (.refl _)) rfl rfl
    cases hone
    cases hstack

/-! ## Bodies -/

/-- If the statements of a subroutine whose counts fit are executed to their end, their code runs to
its end with the stack as before; if they return a value, it runs to a `return` with the value on
top of the stack.
Either way it has decided as the statements have, and left the store they leave, but for the array
pointer and the first word of the scratch segment. -/
theorem body_runs (h : compile source = .ok compiled) (hlex : Lexes source c.lexemes)
    (hs : s ∈ c.subroutines) (hnarrow : c.Narrow s) {callees : Callees} {m : Machine}
    {ds : List Decision} {o : Outcome} {store : Vm.Store}
    (hexec : s.body.Executes callees (c.scope s) m.store ds o store) :
    c.function s ∈ Vm.functions compiled.program ∧
      ∃ q, Runs callees (c.function s) ⟨s.body.code (c.scope s) 0 0, m⟩ (ds.map (·.jumps)) q ∧
        q.machine.store = store ∧ (∀ i ≠ 0, q.machine.temp i = m.temp i) ∧
        match o with
        | .finished => q.rest = [] ∧ q.machine.stack = m.stack
        | .returned v => q.rest.head? = some .return ∧ q.machine.stack = v :: m.stack := by
  refine ⟨function_mem h hlex hs hnarrow, ?_⟩
  have hlabels := c.function_labels hnarrow.ifs.le hnarrow.whiles.le
  obtain ⟨p, hp, hreaches⟩ := Statements.simulates hexec hlabels 0 0 (c.entry s) []
    m.stack (names_resolved h hlex hs) (by rw [List.append_nil, Class.function])
  obtain ⟨that, scratch, hrun⟩ := hreaches m.that m.temp
  rw [List.append_nil] at hrun
  cases o with
  | finished =>
    obtain rfl := hp
    exact ⟨_, hrun, rfl, fun i hi => Function.update_of_ne hi _ _, rfl, rfl⟩
  | returned v =>
    obtain ⟨more, rfl⟩ := hp
    exact ⟨_, hrun, rfl, fun i hi => Function.update_of_ne hi _ _, rfl, rfl⟩

/-- The loop goes round once, and then `5 + (1 - 1)` is returned. -/
theorem counterMethod_executes :
    counterMethod.body.Executes quietCallees (counterClass.scope counterMethod) counterMachine.store
      [.loop true, .loop false] (.returned 5)
      ((counterMachine.store.setLocal 0 0).setLocal 0 1) := by
  have hstart : Statement.Executes quietCallees (counterClass.scope counterMethod)
      (.letVar "i" (.mk (.integer "0") .nil)) counterMachine.store [] .finished
      (counterMachine.store.setLocal 0 0) := .letVar _ _ _
  have hbody : Statements.Executes quietCallees (counterClass.scope counterMethod)
      (.cons (.letVar "i" (.mk (.var "i") (.cons .add (.integer "1") .nil))) .nil)
      (counterMachine.store.setLocal 0 0) ([] ++ []) .finished
      ((counterMachine.store.setLocal 0 0).setLocal 0 1) := .next (.letVar _ _ _) (.nil _)
  have hloop : Statement.Executes quietCallees (counterClass.scope counterMethod) counterLoop
      (counterMachine.store.setLocal 0 0) (.loop true :: ([] ++ []) ++ [.loop false]) .finished
      ((counterMachine.store.setLocal 0 0).setLocal 0 1) :=
    .whileAgain rfl hbody (.whileEnds rfl)
  exact .next hstart (.next hloop (.stop (.returnValue counterResult _)))

theorem counterMethod_runs :
    compile counterSource = .ok ⟨"Counter", counterClass.code⟩ ∧
      Lexes counterSource counterClass.lexemes ∧ counterMethod ∈ counterClass.subroutines ∧
      counterClass.Narrow counterMethod ∧
      counterMethod.body.Executes quietCallees (counterClass.scope counterMethod)
        counterMachine.store [.loop true, .loop false] (.returned 5)
        ((counterMachine.store.setLocal 0 0).setLocal 0 1) ∧
      ∃ q, Runs quietCallees (counterClass.function counterMethod)
          ⟨counterMethod.body.code (counterClass.scope counterMethod) 0 0, counterMachine⟩
          [false, true] q ∧
        q.machine.store = (counterMachine.store.setLocal 0 0).setLocal 0 1 ∧
        (∀ i ≠ 0, q.machine.temp i = counterMachine.temp i) ∧
        q.rest.head? = some .return ∧ q.machine.stack = [5] := by
  have hs : counterMethod ∈ counterClass.subroutines := List.mem_singleton_self _
  have hruns := (body_runs compile_counter lexes_counter hs counter_narrow counterMethod_executes).2
  exact ⟨compile_counter, lexes_counter, hs, counter_narrow, counterMethod_executes, hruns⟩

end

section

variable {callees : Callees} {store : Vm.Store}

theorem wide_assigns_last : Statement.Executes callees (wideScope 65535)
    (.letVar (crowdedName 65535) (.mk (.integer "2") .nil)) store [] .finished
    (store.setLocal 65536 2) := by
  have hput : (wideScope 65535).put (crowdedName 65535) 2 store = store.setLocal 65536 2 := by
    rw [Scope.put, wide_last]
    rfl
  exact hput ▸ .letVar _ _ _

theorem wide_assigns_first : Statement.Executes callees (wideScope 65535)
    (.letVar "x" (.mk (.integer "1") .nil)) store [] .finished (store.setLocal 0 1) := by
  have hput : (wideScope 65535).put "x" 1 store = store.setLocal 0 1 := by
    rw [Scope.put, wide_first]
    rfl
  exact hput ▸ .letVar _ _ _

theorem wide_executes : (wideFunction 65535).body.Executes callees (wideScope 65535) store []
    (.returned 2) ((store.setLocal 65536 2).setLocal 0 1) := by
  have hvalue : Statement.Executes callees (wideScope 65535) (.returnValue (wideResult 65535))
      ((store.setLocal 65536 2).setLocal 0 1) [] _ _ := .returnValue _ _
  rw [wideResult_eval] at hvalue
  exact .next wide_assigns_last (.next wide_assigns_first (.stop hvalue))

end

/-- Of 65537 locals the last has become `1` with the first when it is returned. -/
theorem wide_body_differs :
    compile (wideSource 65535) = .ok ⟨"A", (wideClass 65535).program⟩ ∧
      Lexes (wideSource 65535) (wideClass 65535).lexemes ∧
      wideFunction 65535 ∈ (wideClass 65535).subroutines ∧
      (wideClass 65535).written (wideFunction 65535) ∈ Vm.functions (wideClass 65535).program ∧
      (wideFunction 65535).body.Executes quietCallees (wideScope 65535) wideMachine.store []
        (.returned 2) ((wideMachine.store.setLocal 65536 2).setLocal 0 1) ∧
      ¬∃ q, Runs quietCallees ((wideClass 65535).written (wideFunction 65535))
          ⟨((wideFunction 65535).body.code (wideScope 65535) 0 0).map (·.wrap), wideMachine⟩ [] q ∧
        q.rest.head? = some .return ∧ q.machine.stack = [2] := by
  refine ⟨compile_wide 65535, lexes_wide 65535, List.mem_cons_self, wide_written, wide_executes, ?_⟩
  rintro ⟨q, hruns, hreturn, hstack⟩
  rw [wide_code] at hruns
  have hstops : Vm.step quietCallees ((wideClass 65535).written (wideFunction 65535)) q = none := by
    obtain ⟨rest, hrest⟩ := List.head?_eq_some_iff.mp hreturn
    rw [Vm.step, hrest]
    rfl
  have hone := hruns.halted_unique
    (.perform rfl (.perform rfl (.perform rfl (.perform rfl (.perform rfl (.refl _)))))) hstops rfl
  rw [hone] at hstack
  cases hstack

end JackCompiler
