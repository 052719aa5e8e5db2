import JackCompiler.Proofs.Independence
import JackCompiler.Proofs.Spelling
/-!
# Constants that are words

A constant that compiled code pushes is the value of an integer constant, the length or a character
of a string constant, one that a keyword or an empty `return` stands for, or the size of an object.
Each of the others is a positive word where it is read. The size of an object is not checked, so a
class with more than `maxInt` fields and a constructor has code with a constant that is none
(`constants_words`, `crowded_constants`).
-/

namespace JackCompiler

open Compile Syntax
open Vm (Command)

namespace Syntax

variable {c : Class} {s : Subroutine} {n : Nat}

theorem Class.size_mem (hs : s ∈ c.subroutines) (hkind : s.kind = .constructor) :
    .push .constant (c.fieldCount % 65536) ∈ c.program := by
  refine List.mem_flatMap.mpr ⟨s, hs, List.mem_map.mpr ⟨.push .constant c.fieldCount, ?_, rfl⟩⟩
  refine List.mem_append_left _ ?_
  rw [Class.entry, hkind]
  exact List.mem_cons_of_mem _ List.mem_cons_self

/-- A constant of a function in 16 bits is one of the function, in 16 bits. -/
theorem Class.written_constant (h : .push .constant n ∈ c.written s) :
    ∃ m, .push .constant m ∈ c.function s ∧ n = m % 65536 := by
  obtain ⟨command, hcommand, hwrap⟩ := List.mem_map.mp h
  cases command <;> cases hwrap
  exact ⟨_, hcommand, rfl⟩

/-- What a program pushes as constants: positive words, but for the size of an object, which is
16 bits of the number of fields and is pushed by constructors. So all of them are positive words
exactly if that size is one or there is no constructor. -/
structure Class.Pushes (c : Class) (program : List Command) : Prop where
  constant : ∀ n, .push .constant n ∈ program →
    n ≤ maxInt ∨ n = c.fieldCount % 65536 ∧ ∃ s ∈ c.subroutines, s.kind = .constructor
  words : (∀ n, .push .constant n ∈ program → n ≤ maxInt) ↔
    ((∃ s ∈ c.subroutines, s.kind = .constructor) → c.fieldCount % 65536 ≤ maxInt)

end Syntax

/-- Every constant in the code of a source is a positive word, but for the number of its fields where
it has a constructor. -/
theorem constants_words {source : String} {compiled : CompiledClass}
    (h : compile source = .ok compiled) :
    ∃ c : Syntax.Class, Lexes source c.lexemes ∧ c.Pushes compiled.program := by
  obtain ⟨c, hlex⟩ := lexes_of_compile h
  obtain ⟨⟨-, hfit⟩, rfl⟩ := (compile_of_lexes hlex).mp h
  have hconstants : ∀ n, .push .constant n ∈ c.program →
      n ≤ maxInt ∨ n = c.fieldCount % 65536 ∧ ∃ s ∈ c.subroutines, s.kind = .constructor := by
    intro n hn
    obtain ⟨s, hs, hn⟩ := List.mem_flatMap.mp hn
    obtain ⟨m, hm, rfl⟩ := Class.written_constant hn
    have hformed : ∀ lexeme ∈ s.lexemes, lexeme.WellFormed :=
      fun lexeme hlexeme => hlex.wellFormed lexeme (Class.subroutine_mem hs hlexeme)
    rcases Class.function_constants hformed (hfit s hs) hm with hword | ⟨rfl, hkind⟩
    · exact .inl ((Nat.mod_le _ _).trans hword)
    · exact .inr ⟨rfl, s, hs, hkind⟩
  refine ⟨c, hlex, hconstants, fun hwords => ?_, fun hsize n hn => ?_⟩
  · rintro ⟨s, hs, hkind⟩
    exact hwords _ (Class.size_mem hs hkind)
  · rcases hconstants n hn with hn | ⟨rfl, hconstructor⟩
    · exact hn
    · exact hsize hconstructor

theorem cell_constants_words :
    compile cellSource = .ok ⟨"Cell", cellClass.code⟩ ∧
      ∃ c : Syntax.Class, Lexes cellSource c.lexemes ∧ c.Pushes cellClass.code :=
  ⟨compile_cell, constants_words compile_cell⟩

/-! ## A class with too many fields -/

/-- A class with a field `x` and `count` more, and a constructor. -/
def crowdedClass (count : Nat) : Syntax.Class where
  name := "A"
  groups := [⟨.field, crowdedGroup count⟩]
  subroutines := [{
    kind := .constructor
    returnType := some (.ofClass "A")
    name := "new"
    parameters := []
    locals := []
    body := .cons (.returnValue (.mk (.constant .this) .nil)) .nil }]

def crowdedSource (count : Nat) : String := spelled (crowdedClass count).lexemes

theorem crowded_wellFormed (count : Nat) :
    ∀ lexeme ∈ (crowdedClass count).lexemes, lexeme.WellFormed := by
  have hname : (Lexeme.identifier "A").WellFormed :=
    ⟨by simp [IsWord]; decide, fun word => by cases word <;> decide⟩
  have hnew : (Lexeme.identifier "new").WellFormed :=
    ⟨by simp [IsWord]; decide, fun word => by cases word <;> decide⟩
  have hsymbol (symbol : Symbol) : (Lexeme.symbol symbol).WellFormed := trivial
  have hkeyword (word : Keyword) : (Lexeme.keyword word).WellFormed := trivial
  simpa [crowdedClass, Class.lexemes, ClassVariables.lexemes, Subroutine.lexemes,
    Subroutine.signatureAndBody, Statements.lexemes, Statement.lexemes, Expression.lexemes,
    Term.lexemes, Operations.lexemes, returnLexeme, TypeName.lexeme, parameterList, or_imp,
    forall_and, hname, hnew, hsymbol, hkeyword] using crowdedGroup_wellFormed count

theorem crowded_declared (count : Nat) :
    (crowdedClass count).declared = (crowdedGroup count).declared .field := by
  simp [crowdedClass, Class.declared, ClassVariables.declared, ClassStorage.storage]

theorem crowded_fieldCount (count : Nat) : (crowdedClass count).fieldCount = count + 1 := by
  rw [Class.fieldCount, crowded_declared, crowdedGroup_declared, List.countP_map]
  simp [Function.comp_def, crowdedNames]

theorem crowded_named (count : Nat) : (crowdedClass count).Named := by
  refine ⟨?_, fun s hs => ?_⟩
  · rw [crowded_declared, crowdedGroup_names]
    exact crowdedNames_nodup count
  · obtain rfl := List.mem_singleton.mp hs
    refine ⟨?_, ?_⟩
    · simp [Subroutine.declared]
    · exact resolved_nil _

/-- A class with 32768 fields compiles, and its constructor asks for an object of that size. -/
theorem crowded_constants : ∃ compiled, compile (crowdedSource 32767) = .ok compiled ∧
    .push .constant 32768 ∈ compiled.program ∧ maxInt < 32768 := by
  have hfit : (crowdedClass 32767).Fit := by
    intro s hs
    obtain rfl := List.mem_singleton.mp hs
    exact allFit_nil
  have hlex := lexes_spelled (crowded_wellFormed 32767)
  refine ⟨_, (compile_of_lexes hlex).mpr ⟨⟨crowded_named 32767, hfit⟩, rfl⟩, ?_, by decide⟩
  have hsize := Class.size_mem (c := crowdedClass 32767) List.mem_cons_self rfl
  rwa [crowded_fieldCount] at hsize

end JackCompiler
