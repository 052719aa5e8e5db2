import JackCompiler.Proofs.Labels
import JackCompiler.Proofs.Segments
import JackCompiler.Proofs.Spans
import JackCompiler.Proofs.Subterms
/-!
# Counts that fit in 16 bits

The commands a compiler writes have 16-bit numbers. A subroutine whose counts all fit is
`Class.Narrow`. Then every number in its function fits (`Class.function_number`), so what is written
for it is its function as the translation has it (`Class.written_eq`).
-/

namespace JackCompiler

open Vm (Command)

namespace Syntax

/-- All that is counted for a subroutine fits in 16 bits: the variables by storage, the `if` and
`while` statements at any depth, and the arguments of each call, the object of a method among
them. -/
structure Class.Narrow (c : Class) (s : Subroutine) : Prop where
  statics : c.staticCount < 65536
  fields : c.fieldCount < 65536
  arguments : s.argumentCount < 65536
  locals : s.localCount < 65536
  ifs : s.body.ifs < 65536
  whiles : s.body.whiles < 65536
  passed : ∀ name n, .call name n ∈ c.function s → n < 65536

variable {scope : Scope} {terms : List Term} {n : Nat}

/-! ## Constants -/

/-- A variable is no constant. -/
theorem push_ne_constant (slot : Slot) : slot.push ≠ .push .constant n := by
  obtain ⟨name, type, storage, index⟩ := slot
  cases storage <;> exact fun h => by cases h

theorem ValueCommand.constant (h : ValueCommand scope terms (.push .constant n)) :
    ∃ t ∈ terms, n ∈ t.numbers := by
  generalize hcommand : Command.push .constant n = command at h
  cases h with
  | number ht hn =>
    cases hcommand
    exact ⟨_, ht, hn⟩
  | read => exact absurd hcommand.symm (push_ne_constant _)
  | _ => cases hcommand

theorem BodyCommand.constant (h : BodyCommand scope terms (.push .constant n)) :
    n = 0 ∨ ∃ t ∈ terms, n ∈ t.numbers := by
  generalize hcommand : Command.push .constant n = command at h
  cases h with
  | value hvalue => exact .inr (hcommand ▸ hvalue).constant
  | nothing =>
    cases hcommand
    exact .inl rfl
  | _ => cases hcommand

/-- The numbers of a term are words if an integer constant is one and a string constant can be
built. -/
theorem Term.numbers_le {t : Term} (hformed : ∀ lexeme ∈ t.lexemes, lexeme.WellFormed)
    (hfits : AllFit (stringConstants [t])) : ∀ m ∈ t.numbers, m ≤ maxInt := by
  cases t with
  | integer digits =>
    intro m hm
    rw [List.mem_singleton.mp hm]
    exact (hformed _ List.mem_cons_self).2.2
  | string contents =>
    obtain ⟨hlength, hcharacters⟩ : Fits contents := hfits contents List.mem_cons_self
    refine List.forall_mem_cons.mpr ⟨hlength, List.forall_mem_map.mpr fun c hc => ?_⟩
    exact Nat.le_of_lt_succ (hcharacters c hc)
  | constant value => cases value <;> decide
  | var | element | call | group | unary => exact List.forall_mem_nil _

variable {c : Class} {s : Subroutine}

/-- The constants of a subroutine are words, but for the size of the object it allocates. -/
theorem Class.function_constants (hformed : ∀ lexeme ∈ s.lexemes, lexeme.WellFormed)
    (hfits : AllFit (stringConstants s.body.terms)) (h : .push .constant n ∈ c.function s) :
    n ≤ maxInt ∨ n = c.fieldCount ∧ s.kind = .constructor := by
  have hbody : .push .constant n ∈ s.body.code (c.scope s) 0 0 → n ≤ maxInt := by
    intro h
    rcases (s.body.commands 0 0 (List.Subset.refl _) _ h).constant with rfl | ⟨t, ht, hn⟩
    · exact Nat.zero_le _
    · refine t.numbers_le (fun lexeme hlexeme => hformed lexeme ?_) (fun contents hcontents => ?_)
        n hn
      · simp [Subroutine.lexemes, Subroutine.signatureAndBody, s.body.terms_subset ht hlexeme]
      · refine hfits contents (List.mem_filterMap.mpr ⟨t, ht, ?_⟩)
        simpa [stringConstants] using hcontents
  rw [Class.function, List.mem_append] at h
  rcases h with h | h
  · rcases List.mem_cons.mp h with h | h
    · cases h
    · cases hkind : s.kind <;> simp_all [Class.prologue]
  · exact .inl (hbody h)

/-! ## All numbers -/

/-- The head of a function tells how many locals it has. -/
theorem Class.function_locals {name : String} (h : .function name n ∈ c.function s) :
    n = s.localCount := by
  rcases List.mem_cons.mp h with h | h
  · cases h
    rfl
  · have hinside := List.all_eq_true.mp (c.body_inside s) _ h
    cases hinside

/-- The segments of a narrow subroutine have 16-bit places. -/
theorem Class.Narrow.places (h : c.Narrow s) (segment : Vm.Segment) :
    (c.extent s).places segment < 65536 := by
  cases segment with
  | static => exact h.statics
  | this => exact h.fields
  | argument => exact h.arguments
  | «local» => exact h.locals
  | constant | pointer | that | temp =>
    simp [Vm.Extent.places]

theorem Class.function_number (hformed : ∀ lexeme ∈ s.lexemes, lexeme.WellFormed)
    (hfits : AllFit (stringConstants s.body.terms)) (hnarrow : c.Narrow s) :
    ∀ command ∈ c.function s, command.number < 65536 := by
  have hinside := c.function_inside s
  intro command h
  cases command with
  | push segment index =>
    by_cases hsegment : segment = .constant
    · subst hsegment
      rcases Class.function_constants hformed hfits h with hle | ⟨hsize, -⟩
      · exact hle.trans_lt (by decide)
      · exact hsize ▸ hnarrow.fields
    · have hplace : index < (c.extent s).places segment := by
        have hcommand := hinside _ h
        cases segment with
        | constant => exact absurd rfl hsegment
        | _ => exact hcommand
      exact hplace.trans (hnarrow.places segment)
  | pop segment index =>
    have hplace : index < (c.extent s).places segment := hinside _ h
    exact hplace.trans (hnarrow.places segment)
  | call name count => exact hnarrow.passed name count h
  | function name locals => exact (Class.function_locals h) ▸ hnarrow.locals
  | operation | label | goto | ifGoto | «return» => exact Nat.zero_lt_succ _

/-- Nothing is lost of the function of a subroutine whose counts fit. -/
theorem Class.written_eq (hformed : ∀ lexeme ∈ s.lexemes, lexeme.WellFormed)
    (hfits : AllFit (stringConstants s.body.terms)) (hnarrow : c.Narrow s) :
    c.written s = c.function s :=
  Vm.map_wrap (Class.function_number hformed hfits hnarrow)

end Syntax

end JackCompiler
